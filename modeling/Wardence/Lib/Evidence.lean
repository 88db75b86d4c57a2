import Mathlib.Algebra.Order.Group.Defs
import Mathlib.Algebra.BigOperators.Group.List.Basic
import Mathlib.Data.Finset.Lattice.Fold
import Mathlib.Data.List.Infix
/-!
# Evidence that builds up

Amounts are added to a level that never falls below zero. `level_greatest` says what the
level is: the most that the amounts of any window which ends at the last one add up to, or
zero when no window has more than that.
-/
namespace Evidence

variable {M : Type} [AddCommGroup M] [LinearOrder M]

def next (level amount : M) : M := max 0 (level + amount)

/-- The level after all the amounts, oldest first. -/
def level (ds : List M) : M := ds.foldl next 0

/-- The amounts `j` to `i`. -/
def window {α : Type} (ds : List α) (j i : ℕ) : List α := (ds.take (i + 1)).drop j

theorem level_append (ds : List M) (d : M) : level (ds ++ [d]) = max 0 (level ds + d) := by
  rw [level, List.foldl_append]
  rfl

theorem level_nonneg (ds : List M) : 0 ≤ level ds := by
  rcases List.eq_nil_or_concat ds with rfl | ⟨ds, d, rfl⟩
  · exact le_refl _
  · rw [List.concat_eq_append, level_append]
    exact le_max_left _ _

variable [IsOrderedAddMonoid M]

/-- The level is the greatest sum of a last part, the empty one included. -/
theorem level_greatest (ds : List M) : IsGreatest {v | ∃ s, s <:+ ds ∧ s.sum = v} (level ds) := by
  induction ds using List.reverseRecOn with
  | nil => exact ⟨⟨[], List.suffix_rfl, rfl⟩, fun v ⟨s, hs, hv⟩ => by rw [← hv, List.suffix_nil.1 hs]; exact le_refl _⟩
  | append_singleton ds d ih =>
    obtain ⟨⟨s, hs, hsum⟩, hmost⟩ := ih
    rw [level_append]
    constructor
    · rcases max_choice 0 (level ds + d) with hzero | hmore
      · exact ⟨[], List.nil_suffix, hzero.symm⟩
      · refine ⟨s ++ [d], List.suffix_concat_iff.2 (.inr ⟨s, rfl, hs⟩), ?_⟩
        rw [hmore, List.sum_append, List.sum_singleton, hsum]
    · rintro v ⟨t, ht, rfl⟩
      rcases List.suffix_concat_iff.1 ht with rfl | ⟨t, rfl, hlast⟩
      · exact le_max_left _ _
      · rw [List.sum_append, List.sum_singleton]
        exact le_max_of_le_right (add_le_add_left (hmost ⟨t, hlast, rfl⟩) d)

/-- A last part is empty, or a window. -/
theorem suffix_take {α : Type} {ds s : List α} {i : ℕ} (hi : i < ds.length) :
    s <:+ ds.take (i + 1) ↔ s = [] ∨ ∃ j ≤ i, window ds j i = s := by
  have hlen : (ds.take (i + 1)).length = i + 1 := by
    rw [List.length_take]
    omega
  constructor
  · intro h
    rw [List.suffix_iff_eq_drop, hlen] at h
    rcases Nat.lt_or_ge i (i + 1 - s.length) with hj | hj
    · exact .inl (h.trans (List.drop_of_length_le (by omega)))
    · exact .inr ⟨_, hj, h.symm⟩
  · rintro (rfl | ⟨j, -, rfl⟩)
    · exact List.nil_suffix
    · exact List.drop_suffix _ _

/-- The level at index `i`: the largest sum of a window that ends there, if it is positive. -/
theorem level_windows {ds : List M} {i : ℕ} (hi : i < ds.length) : level (ds.take (i + 1)) =
    max 0 ((Finset.range (i + 1)).sup' Finset.nonempty_range_add_one fun j => (window ds j i).sum) := by
  obtain ⟨⟨s, hs, hsum⟩, hmost⟩ := level_greatest (ds.take (i + 1))
  apply le_antisymm
  · rcases (suffix_take hi).1 hs with rfl | ⟨j, hj, rfl⟩
    · exact le_max_of_le_left (le_of_eq hsum.symm)
    · rw [← hsum]
      exact le_max_of_le_right (Finset.le_sup' (fun j => (window ds j i).sum) (Finset.mem_range_succ_iff.2 hj))
  · refine max_le (level_nonneg _) (Finset.sup'_le _ _ fun j hj => hmost ⟨_, ?_, rfl⟩)
    exact (suffix_take hi).2 (.inr ⟨j, Finset.mem_range_succ_iff.1 hj, rfl⟩)

end Evidence
