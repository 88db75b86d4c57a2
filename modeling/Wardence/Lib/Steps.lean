import Mathlib.Data.List.Basic
/-!
# Runs of a step function

A system that takes one move after the other, and what its runs keep when every move meets a
condition on the state it is made in.
-/
namespace Steps

variable {W M : Type*} (step : W → M → W)

def run (w : W) (ms : List M) : W := ms.foldl step w

/-- Every move of the run meets `C` where it is made. -/
def Admits (C : W → M → Prop) : W → List M → Prop
  | _, [] => True
  | w, m :: ms => C w m ∧ Admits C (step w m) ms

instance (C : W → M → Prop) [∀ w m, Decidable (C w m)] : ∀ (w : W) (ms : List M), Decidable (Admits step C w ms)
  | _, [] => .isTrue trivial
  | w, m :: ms =>
    have := instDecidableAdmits C (step w m) ms
    inferInstanceAs (Decidable (_ ∧ _))

theorem run_cons (w : W) (m : M) (ms : List M) : run step w (m :: ms) = run step (step w m) ms := rfl

theorem run_append (w : W) (ms ns : List M) : run step w (ms ++ ns) = run step (run step w ms) ns := List.foldl_append

theorem run_concat (w : W) (ms : List M) (m : M) : run step w (ms ++ [m]) = step (run step w ms) m := run_append step w ms [m]

theorem admits_append (C : W → M → Prop) (w : W) (ms ns : List M) :
    Admits step C w (ms ++ ns) ↔ Admits step C w ms ∧ Admits step C (run step w ms) ns := by
  induction ms generalizing w with
  | nil => simp [Admits, run]
  | cons m ms ih => simp [Admits, run_cons, ih, and_assoc]

theorem admits_and (C D : W → M → Prop) (w : W) (ms : List M) :
    Admits step (fun w m => C w m ∧ D w m) w ms ↔ Admits step C w ms ∧ Admits step D w ms := by
  induction ms generalizing w with
  | nil => simp [Admits]
  | cons m ms ih => simp only [Admits, ih, and_and_and_comm]

variable {step}

theorem Admits.mono {C D : W → M → Prop} (h : ∀ w m, C w m → D w m) {w : W} {ms : List M} (hc : Admits step C w ms) :
    Admits step D w ms := by
  induction ms generalizing w with
  | nil => trivial
  | cons m ms ih => exact ⟨h w m hc.1, ih hc.2⟩

/-- What every admitted move keeps, an admitted run keeps. -/
theorem Admits.invariant {C : W → M → Prop} {I : W → Prop} (hstep : ∀ w m, C w m → I w → I (step w m)) {w : W} {ms : List M}
    (hc : Admits step C w ms) (h : I w) : I (run step w ms) := by
  induction ms generalizing w with
  | nil => exact h
  | cons m ms ih => exact ih hc.2 (hstep w m hc.1 h)

/-- What every move keeps, every run keeps. -/
theorem run_invariant {I : W → Prop} (hstep : ∀ w m, I w → I (step w m)) {w : W} (ms : List M) (h : I w) : I (run step w ms) := by
  induction ms generalizing w with
  | nil => exact h
  | cons m ms ih => exact ih (hstep w m h)

end Steps
