import Mathlib.Data.Set.Insert
/-!
# A lock that goes stale

A lock is a row that names its holder and since when. Whoever comes takes it by
one compare-and-set, if it is free or its stamp is before a cutoff; the holder
frees it by name. A holder that dies leaves the row behind.

The row alone does not exclude anybody: it does as long as no take robs a holder
that is still inside, and no longer (`exclusive_iff`).
-/
namespace Lease

variable {H T : Type}

/-- The row, and who has taken the lock and neither freed it nor died. -/
structure State (H T : Type) where
  row : Option (H × T)
  inside : Set H

namespace State

/-- At most one is inside. -/
def Exclusive (s : State H T) : Prop := ∀ x ∈ s.inside, ∀ y ∈ s.inside, x = y

/-- Who is inside, holds the row. -/
def Owned (s : State H T) : Prop := ∀ h ∈ s.inside, ∃ t, s.row = some (h, t)

theorem Owned.exclusive {s : State H T} (h : s.Owned) : s.Exclusive := by
  intro x hx y hy
  obtain ⟨t, ht⟩ := h x hx
  obtain ⟨t', ht'⟩ := h y hy
  rw [ht, Option.some.injEq, Prod.mk.injEq] at ht'
  exact ht'.1

end State

inductive Act (H T : Type) where
  | take (h : H) (stamp cutoff : T)
  | free (h : H)
  | die (h : H)
  | other

variable [DecidableEq H] [LinearOrder T]

/-- The row may be taken. -/
def takeable (row : Option (H × T)) (cutoff : T) : Bool := row.all (·.2 < cutoff)

def freed (row : Option (H × T)) (h : H) : Option (H × T) := row.filter (·.1 ≠ h)

namespace State

def act (s : State H T) : Act H T → State H T
  | .take h t c => if takeable s.row c then ⟨some (h, t), insert h s.inside⟩ else s
  | .free h => ⟨freed s.row h, s.inside \ {h}⟩
  | .die h => ⟨s.row, s.inside \ {h}⟩
  | .other => s

def run (s : State H T) (as : List (Act H T)) : State H T := as.foldl act s

/-- The take succeeds while another is inside. -/
def Robs (s : State H T) : Act H T → Prop
  | .take h _ c => takeable s.row c = true ∧ ∃ k t, s.row = some (k, t) ∧ k ∈ s.inside ∧ k ≠ h
  | _ => False

/-- No action of the run robs. -/
def Honest : State H T → List (Act H T) → Prop
  | _, [] => True
  | s, a :: as => ¬ s.Robs a ∧ Honest (s.act a) as

variable {s : State H T} {a : Act H T}

@[simp] theorem run_nil : s.run ([] : List (Act H T)) = s := rfl
@[simp] theorem run_cons {as : List (Act H T)} : s.run (a :: as) = (s.act a).run as := rfl

/-- Only a robbery takes the row from somebody inside. -/
theorem Owned.act (h : s.Owned) (ha : ¬ s.Robs a) : (s.act a).Owned := by
  cases a with
  | take k t c =>
    simp only [State.act]
    split
    · rename_i hc
      intro x hx
      rcases Set.mem_insert_iff.1 hx with rfl | hx
      · exact ⟨t, rfl⟩
      · obtain ⟨t', ht'⟩ := h x hx
        by_cases hxk : x = k
        · exact ⟨t, by rw [hxk]⟩
        · exact absurd ⟨hc, x, t', ht', hx, hxk⟩ ha
    · exact h
  | free k =>
    rintro x ⟨hx, hxk⟩
    obtain ⟨t, ht⟩ := h x hx
    refine ⟨t, ?_⟩
    simp only [State.act, freed, ht, Option.filter_some]
    rw [if_pos (decide_eq_true (show x ≠ k from hxk))]
  | die k => exact fun x hx => h x hx.1
  | other => exact h

theorem Robs.not_exclusive (hr : s.Robs a) : ¬ (s.act a).Exclusive := by
  cases a with
  | take k t c =>
    obtain ⟨hc, x, t', -, hx, hxk⟩ := hr
    simp only [State.act, hc, if_true]
    exact fun he => hxk (he x (Set.mem_insert_of_mem k hx) k (Set.mem_insert k s.inside))
  | free | die | other => exact hr.elim

theorem owned_run (h : s.Owned) {as : List (Act H T)} (ha : s.Honest as) : (s.run as).Owned := by
  induction as generalizing s with
  | nil => exact h
  | cons a as ih => exact ih (h.act ha.1) ha.2

theorem Honest.take {as : List (Act H T)} (h : s.Honest as) (n : Nat) : s.Honest (as.take n) := by
  induction as generalizing s n with
  | nil => simpa using h
  | cons a as ih =>
    cases n with
    | zero => trivial
    | succ n => exact ⟨h.1, ih h.2 n⟩

/-- At most one is inside all along, if and only if nobody is ever robbed. -/
theorem exclusive_iff (h : s.Owned) (as : List (Act H T)) :
    (∀ n, (s.run (as.take n)).Exclusive) ↔ s.Honest as := by
  refine ⟨fun hx => ?_, fun ha n => (owned_run h (ha.take n)).exclusive⟩
  induction as generalizing s with
  | nil => trivial
  | cons a as ih =>
    have hr : ¬ s.Robs a := fun hr => hr.not_exclusive (hx 1)
    exact ⟨hr, ih (h.act hr) fun n => hx (n + 1)⟩

end State

end Lease
