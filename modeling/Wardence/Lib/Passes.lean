import Wardence.Lib.Threads
/-!
# Loops that never end

A process of a fixed family of loops over a shared world. Each repeats one pass; an
exception ends the pass, and the loop begins the next. Any loop may take the next step.

`Code.Tame` is about a set of worlds that is not to be left again, and statements that
are not to be executed there: what a loop has in hand when the set is entered counts.
-/
namespace Passes

open Threads Code

variable {σ S I E α β : Type}

/-- What a statement does, what a loop repeats, and what else happens to the world. -/
structure Process (σ S I E : Type) where
  app : S → σ → σ
  pass : I → Code σ S Unit
  env : E → σ → σ

/-- The world, and what is left of each loop's pass; `none`: it is between two passes. -/
structure State (σ S I : Type) where
  world : σ
  rest : I → Option (Code σ S Unit)

/-- A loop begins a pass, executes a statement, or the statement raises; something else happens. -/
inductive Move (I E : Type) where
  | start (i : I)
  | step (i : I)
  | fail (i : I)
  | env (e : E)

/-- What is left once there is nothing to do but to begin the next pass. -/
def left : Code σ S Unit → Option (Code σ S Unit)
  | .done _ | .raise => none
  | p => some p

/-- The statement a loop is about to execute. -/
def State.next (st : State σ S I) (i : I) : Option S :=
  match st.rest i with
  | some (.act s _ _) => some s
  | _ => none

variable [DecidableEq I] (P : Process σ S I E)

def State.put (st : State σ S I) (i : I) (p : Code σ S Unit) : State σ S I :=
  { st with rest := Function.update st.rest i (left p) }

def move (st : State σ S I) : Move I E → State σ S I
  | .start i => if (st.rest i).isNone then st.put i (P.pass i) else st
  | .step i =>
    match st.rest i with
    | some (.act s k _) => { st with world := P.app s st.world }.put i (k st.world)
    | some (.loop b k h) => st.put i (b.graft (again (.loop b k h) k) h)
    | _ => st
  | .fail i =>
    match st.rest i with
    | some (.act _ _ h) => st.put i h
    | _ => st
  | .env e => { st with world := P.env e st.world }

/-- In the worlds of `R` the program executes only statements that stay in `R` and are not `bad`, and
what it returns satisfies `Q`. -/
def Tame (app : S → σ → σ) (R : σ → Prop) (bad : S → Prop) : {α : Type} → Code σ S α → (α → Prop) → Prop
  | _, .done a, Q => Q a
  | _, .raise, _ => True
  | _, .act s k h, Q => ¬ bad s ∧ (∀ w, R w → R (app s w) ∧ Tame app R bad (k w) Q) ∧ Tame app R bad h Q
  | _, .loop b k h, Q =>
    Tame app R bad b (fun o => ∀ x, o = some x → Tame app R bad (k x) Q) ∧ Tame app R bad h Q

section Tame
variable {P} {app : S → σ → σ} {R : σ → Prop} {bad : S → Prop} {Q Q' : α → Prop}

theorem Tame.mono {p : Code σ S α} (h : Tame app R bad p Q) (hq : ∀ a, Q a → Q' a) : Tame app R bad p Q' := by
  induction p with
  | done a => exact hq a h
  | raise => trivial
  | act s k g ihk ihg => exact ⟨h.1, fun w hw => ⟨(h.2.1 w hw).1, ihk w (h.2.1 w hw).2 hq⟩, ihg h.2.2 hq⟩
  | loop b k g ihb ihk ihg => exact ⟨ihb h.1 fun o ho x hx => ihk x (ho x hx) hq, ihg h.2 hq⟩

theorem Tame.graft {p : Code σ S β} {k : β → Code σ S α} {g : Code σ S α}
    (h : Tame app R bad p fun b => Tame app R bad (k b) Q) (hg : Tame app R bad g Q) : Tame app R bad (p.graft k g) Q := by
  induction p with
  | done b => exact h
  | raise => exact hg
  | act s f f' ihf ihg => exact ⟨h.1, fun w hw => ⟨(h.2.1 w hw).1, ihf w (h.2.1 w hw).2⟩, ihg h.2.2⟩
  | loop b f f' _ ihf ihg => exact ⟨h.1.mono fun o ho x hx => ihf x (ho x hx), ihg h.2⟩

theorem Tame.bind {p : Code σ S β} {f : β → Code σ S α} {Q' : β → Prop} (h : Tame app R bad p Q')
    (hf : ∀ b, Q' b → Tame app R bad (f b) Q) : Tame app R bad (p >>= f) Q :=
  Tame.graft (h.mono hf) trivial

/-- A statement that stays in `R`. -/
theorem Tame.stmt {s : S} (hb : ¬ bad s) (hr : ∀ w, R w → R (app s w)) : Tame app R bad (stmt s) R :=
  ⟨hb, fun w hw => ⟨hr w hw, hw⟩, trivial⟩

theorem Tame.unroll {b : Code σ S (Option β)} {k : β → Code σ S α} {g : Code σ S α} (h : Tame app R bad (.loop b k g) Q) :
    Tame app R bad (b.graft (again (.loop b k g) k) g) Q := by
  refine Tame.graft (h.1.mono fun o ho => ?_) h.2
  cases o with
  | none => exact h
  | some x => exact ho x rfl

/-- The set is entered, and no loop has a way out of it in hand. -/
structure Settled (app : S → σ → σ) (R : σ → Prop) (bad : S → Prop) (st : State σ S I) : Prop where
  world : R st.world
  rest : ∀ i p, st.rest i = some p → Tame app R bad p fun _ => True

variable {st : State σ S I} {e : E} {i : I}

theorem Settled.put {p : Code σ S Unit} (h : Settled app R bad st) (hp : Tame app R bad p fun _ => True) :
    Settled app R bad (st.put i p) := by
  refine ⟨h.world, fun j q hq => ?_⟩
  by_cases hj : j = i
  · subst hj
    replace hq : left p = some q := by simpa [State.put] using hq
    cases p with
    | done | raise => cases hq
    | act | loop =>
      obtain rfl := Option.some.inj hq
      exact hp
  · exact h.rest j q (by simpa [State.put, hj] using hq)

/-- Passes that are tame from their start never leave the set. -/
theorem Settled.move (h : Settled P.app R bad st) (hpass : ∀ i, Tame P.app R bad (P.pass i) fun _ => True) (m : Move I E)
    (henv : ∀ e, m = .env e → R (P.env e st.world)) : Settled P.app R bad (move P st m) := by
  cases m with
  | start i =>
    simp only [Passes.move]
    split
    · exact h.put (hpass i)
    · exact h
  | step i =>
    simp only [Passes.move]
    split
    next s k g hr =>
      obtain ⟨-, hk, -⟩ := h.rest i _ hr
      have hs : Settled P.app R bad { st with world := P.app s st.world } := ⟨(hk _ h.world).1, h.rest⟩
      exact hs.put (hk _ h.world).2
    next b k g hr => exact h.put (h.rest i _ hr).unroll
    next => exact h
  | fail i =>
    simp only [Passes.move]
    split
    next s k g hr => exact h.put (h.rest i _ hr).2.2
    next => exact h
  | env e => exact ⟨henv e rfl, h.rest⟩

omit [DecidableEq I] in
theorem Settled.next {s : S} (h : Settled app R bad st) (hs : st.next i = some s) : ¬ bad s := by
  unfold State.next at hs
  split at hs
  next s' k g hr =>
    obtain rfl := Option.some.inj hs
    exact (h.rest i _ hr).1
  next => cases hs

end Tame

/-! ## Passes without interleaving -/

/-- The program runs with nothing in between; the statements of `fails` raise. It stops at a loop. -/
def exec (app : S → σ → σ) (fails : S → Bool) : {α : Type} → Code σ S α → σ → σ × Option α
  | _, .done a, w => (w, some a)
  | _, .raise, w => (w, none)
  | _, .act s k h, w => if fails s then exec app fails h w else exec app fails (k w) (app s w)
  | _, .loop .., w => (w, none)

section Exec
variable {app : S → σ → σ} {fails : S → Bool} {w : σ}

theorem exec_stmt {s : S} {k : σ → Code σ S α} (h : fails s = false) :
    exec app fails (stmt s >>= k) w = exec app fails (k w) (app s w) :=
  if_neg (Bool.eq_false_iff.1 h)

/-- What a program leaves alone, whatever it does. -/
theorem exec_frame {R : σ → σ → Prop} (hrefl : ∀ w, R w w) (htrans : ∀ {u v w}, R u v → R v w → R u w) {N : S → Prop}
    (happ : ∀ s w, N s → R w (app s w)) {p : Code σ S α} (hp : p.Within N) : R w (exec app fails p w).1 := by
  induction p generalizing w with
  | done | raise => exact hrefl w
  | act s k h ihk ihh =>
    unfold exec
    split
    · exact ihh hp.2.2
    · exact htrans (happ s w hp.1) (ihk w (hp.2.1 w))
  | loop => exact hrefl w

end Exec

end Passes
