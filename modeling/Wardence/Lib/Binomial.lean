import Mathlib.Algebra.BigOperators.Intervals
import Mathlib.Algebra.Order.BigOperators.Group.Finset
import Mathlib.Algebra.Order.Ring.Rat
import Mathlib.Data.Nat.Cast.Order.Ring
import Mathlib.Data.Nat.Choose.Basic
import Mathlib.Order.Bounds.Defs
/-!
# How rare a count is

The probability that of `n` independent events at least `k` happen, each with probability `p`,
and the search for the smallest `k` for which it is small enough.
-/
namespace Binomial

/-- Exactly `j` of `n`. -/
def exactly (n : ℕ) (p : ℚ) (j : ℕ) : ℚ := n.choose j * p ^ j * (1 - p) ^ (n - j)

/-- At least `k` of `n`. -/
def atLeast (n : ℕ) (p : ℚ) (k : ℕ) : ℚ := ∑ j ∈ Finset.Icc k n, exactly n p j

/-- The first `k` with `P`, in at most `fuel` tries from `k` on; past them all if there is none. -/
def search (P : ℕ → Bool) : ℕ → ℕ → ℕ
  | 0, k => k
  | fuel + 1, k => if P k then k else search P fuel (k + 1)

variable {n : ℕ} {p : ℚ}

theorem exactly_nonneg (hp : 0 ≤ p) (hp' : p ≤ 1) (j : ℕ) : 0 ≤ exactly n p j :=
  mul_nonneg (mul_nonneg (Nat.cast_nonneg _) (pow_nonneg hp j)) (pow_nonneg (sub_nonneg.2 hp') _)

/-- A larger count is rarer. -/
theorem atLeast_antitone (hp : 0 ≤ p) (hp' : p ≤ 1) : Antitone (atLeast n p) := fun _ _ h =>
  Finset.sum_le_sum_of_subset_of_nonneg (Finset.Icc_subset_Icc_left h) fun j _ _ => exactly_nonneg hp hp' j

/-- The rarest: all of them. -/
theorem atLeast_all : atLeast n p n = p ^ n := by
  rw [atLeast, Finset.Icc_self, Finset.sum_singleton, exactly, Nat.choose_self, Nat.sub_self]
  simp

section Search
variable {P : ℕ → Bool}

/-- The search finds the least, or comes out past them all. -/
theorem search_cases (fuel k : ℕ) : IsLeast {j | k ≤ j ∧ j < k + fuel ∧ P j = true} (search P fuel k) ∨
    search P fuel k = k + fuel ∧ ∀ j, k ≤ j → j < k + fuel → P j ≠ true := by
  induction fuel generalizing k with
  | zero => exact .inr ⟨rfl, fun j hj hlt => absurd hj (Nat.not_le_of_lt hlt)⟩
  | succ fuel ih =>
    rw [search]
    by_cases hk : P k = true
    · rw [if_pos hk]
      exact .inl ⟨⟨Nat.le_refl k, by omega, hk⟩, fun j hj => hj.1⟩
    · rw [if_neg hk]
      have hnext : ∀ j, k ≤ j → P j = true → k + 1 ≤ j := by
        intro j hj hp
        refine Nat.lt_of_le_of_ne hj ?_
        rintro rfl
        exact hk hp
      rcases ih (k + 1) with ⟨⟨hle, hlt, hp⟩, hmin⟩ | ⟨heq, hnone⟩
      · exact .inl ⟨⟨by omega, by omega, hp⟩, fun j ⟨hj, hjlt, hjp⟩ => hmin ⟨hnext j hj hjp, by omega, hjp⟩⟩
      · exact .inr ⟨by omega, fun j hj hjlt hjp => hnone j (hnext j hj hjp) (by omega) hjp⟩

end Search

end Binomial
