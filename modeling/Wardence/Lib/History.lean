import Mathlib.Data.List.Induction
/-!
# Journals

A store keeps a value and beside it a journal, each row of which says from what
the value moved and to what. The journal is faithful when its rows lead from the
value's start to its present, each beginning where the one before it ended.
Where a journal only grows, a step keeps it faithful exactly when it journals
what it did, and a run is faithful throughout exactly when all its steps do.
-/
namespace History

/-- A value of the store `σ`, and the journal of it. -/
structure Journal (σ τ ρ : Type) where
  now : σ → τ
  rows : σ → List ρ
  before : ρ → τ
  after : ρ → τ

namespace Journal

variable {σ τ ρ ι : Type} (J : Journal σ τ ρ)

/-- The rows, oldest first, lead from one value to another. -/
def Leads : τ → List ρ → τ → Prop
  | a, [], b => a = b
  | a, h :: hs, b => J.before h = a ∧ Leads (J.after h) hs b

/-- Follows the rows from a value; a row that does not begin there ends it. -/
def replay [DecidableEq τ] : τ → List ρ → Option τ
  | a, [] => some a
  | a, h :: hs => if J.before h = a then replay (J.after h) hs else none

/-- The journal tells how the value got from `start` to what it is. -/
def Faithful (start : τ) (x : σ) : Prop := J.Leads start (J.rows x) (J.now x)

/-- A step from `x` to `y` appends to the journal what it does to the value. -/
def Journalled (x y : σ) : Prop := ∃ new, J.rows y = J.rows x ++ new ∧ J.Leads (J.now x) new (J.now y)

variable {J}

theorem replay_eq_some [DecidableEq τ] {a b : τ} {hs : List ρ} : J.replay a hs = some b ↔ J.Leads a hs b := by
  induction hs generalizing a with
  | nil => simp [replay, Leads]
  | cons h hs ih => by_cases hb : J.before h = a <;> simp [replay, Leads, hb, ih]

theorem leads_append {a b : τ} {xs ys : List ρ} :
    J.Leads a (xs ++ ys) b ↔ ∃ m, J.Leads a xs m ∧ J.Leads m ys b := by
  induction xs generalizing a with
  | nil => simp [Leads]
  | cons h xs ih => simp only [List.cons_append, Leads, ih, and_assoc, exists_and_left]

/-- The rows determine where they lead. -/
theorem Leads.unique {a b b' : τ} {hs : List ρ} (h : J.Leads a hs b) (h' : J.Leads a hs b') : b = b' := by
  induction hs generalizing a with
  | nil => exact h.symm.trans h'
  | cons r hs ih => exact ih h.2 h'.2

theorem Leads.isChain {a b : τ} {hs : List ρ} (h : J.Leads a hs b) :
    hs.IsChain fun r r' => J.before r' = J.after r := by
  induction hs generalizing a with
  | nil => exact .nil
  | cons r hs ih =>
    cases hs with
    | nil => exact .singleton r
    | cons r' hs => exact .cons_cons h.2.1 (ih h.2)

theorem Leads.getLast {a b : τ} {hs : List ρ} (h : J.Leads a hs b) : ∀ r ∈ hs.getLast?, J.after r = b := by
  intro r hr
  obtain ⟨init, rfl⟩ := List.getLast?_eq_some_iff.1 hr
  obtain ⟨m, -, hm⟩ := leads_append.1 h
  exact hm.2

theorem Journalled.refl (x : σ) : J.Journalled x x := ⟨[], (List.append_nil _).symm, rfl⟩

theorem Journalled.trans {x y z : σ} (hxy : J.Journalled x y) (hyz : J.Journalled y z) : J.Journalled x z := by
  obtain ⟨new, hr, hl⟩ := hxy
  obtain ⟨new', hr', hl'⟩ := hyz
  refine ⟨new ++ new', ?_, leads_append.2 ⟨_, hl, hl'⟩⟩
  rw [hr', hr, List.append_assoc]

/-- A step that neither moves the value nor writes the journal has nothing to journal. -/
theorem Journalled.of_same {x y : σ} (hn : J.now y = J.now x) (hr : J.rows y = J.rows x) : J.Journalled x y :=
  ⟨[], by rw [hr, List.append_nil], hn.symm⟩

/-- A step that appends the one row of its move. -/
theorem Journalled.of_row {x y : σ} {r : ρ} (hr : J.rows y = J.rows x ++ [r]) (hb : J.before r = J.now x)
    (ha : J.after r = J.now y) : J.Journalled x y := ⟨[r], hr, hb, ha⟩

theorem Journalled.foldl {f : σ → ι → σ} (hf : ∀ x i, J.Journalled x (f x i)) (l : List ι) (x : σ) :
    J.Journalled x (l.foldl f x) := by
  induction l generalizing x with
  | nil => exact .refl x
  | cons i l ih => exact (hf x i).trans (ih _)

theorem Journalled.grows {x y : σ} (h : J.Journalled x y) : J.rows x <+: J.rows y := by
  obtain ⟨new, hr, -⟩ := h
  exact ⟨new, hr.symm⟩

/-- A value that moves while its journal stands still is not journalled. -/
theorem Journalled.not_of_rows {x y : σ} (h : J.Journalled x y) (hr : J.rows y = J.rows x) (hn : J.now y ≠ J.now x) :
    False := by
  obtain ⟨new, hrows, hl⟩ := h
  obtain rfl : new = [] := List.self_eq_append_right.1 (hr.symm.trans hrows)
  exact hn hl.symm

theorem Faithful.step {start : τ} {x y : σ} (hx : J.Faithful start x) (h : J.Journalled x y) : J.Faithful start y := by
  obtain ⟨new, hr, hl⟩ := h
  rw [Faithful, hr]
  exact leads_append.2 ⟨_, hx, hl⟩

/-- Between two faithful states what the journal gained is what the value did. -/
theorem Faithful.journalled {start : τ} {x y : σ} (hx : J.Faithful start x) (hy : J.Faithful start y)
    (hg : J.rows x <+: J.rows y) : J.Journalled x y := by
  obtain ⟨new, hr⟩ := hg
  refine ⟨new, hr.symm, ?_⟩
  rw [Faithful, ← hr] at hy
  obtain ⟨m, hm, hl⟩ := leads_append.1 hy
  rwa [Leads.unique hx hm]

/-- Every state of a run is faithful exactly when every step journals what it does. -/
theorem faithful_run_iff {next : σ → ι → σ} {start : τ} {x₀ : σ} (h0 : J.Faithful start x₀)
    (hg : ∀ x i, J.rows x <+: J.rows (next x i)) (steps : List ι) :
    (∀ pre, pre <+: steps → J.Faithful start (pre.foldl next x₀)) ↔
      ∀ pre i, pre ++ [i] <+: steps → J.Journalled (pre.foldl next x₀) (next (pre.foldl next x₀) i) := by
  constructor
  · intro h pre i hi
    have hnext := h _ hi
    rw [List.foldl_append] at hnext
    exact (h pre ((List.prefix_append _ _).trans hi)).journalled hnext (hg _ i)
  · intro h pre
    induction pre using List.reverseRecOn with
    | nil => intro _; exact h0
    | append_singleton pre i ih =>
      intro hi
      rw [List.foldl_append]
      exact (ih ((List.prefix_append _ _).trans hi)).step (h pre i hi)

end Journal
end History
