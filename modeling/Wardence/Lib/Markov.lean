import Mathlib.Algebra.BigOperators.Field
import Mathlib.Algebra.Order.BigOperators.Ring.Finset
import Mathlib.Algebra.Order.Field.Basic
/-!
# Hidden Markov models

The forward algorithm, and the scaled one that divides each vector by its sum.
-/
namespace Markov

variable {σ ο K : Type} [Fintype σ] [Fintype ο] [Field K] [LinearOrder K]

structure Hmm (σ ο K : Type) [Fintype σ] [Fintype ο] [Field K] [LinearOrder K] where
  startprob : σ → K
  transmat : σ → σ → K
  emissionprob : σ → ο → K
  startprob_nonneg : ∀ i, 0 ≤ startprob i
  transmat_nonneg : ∀ i j, 0 ≤ transmat i j
  emissionprob_nonneg : ∀ i o, 0 ≤ emissionprob i o
  startprob_sum : ∑ i, startprob i = 1
  transmat_sum : ∀ i, ∑ j, transmat i j = 1
  emissionprob_sum : ∀ i, ∑ o, emissionprob i o = 1

namespace Hmm
variable (m : Hmm σ ο K)

/-- The states' weights after the first symbol. -/
def enter (o : ο) : σ → K := fun i => m.startprob i * m.emissionprob i o

/-- The states' weights after one more symbol. -/
def advance (v : σ → K) (o : ο) : σ → K := fun j => (∑ i, v i * m.transmat i j) * m.emissionprob j o

def forward (v : σ → K) (os : List ο) : σ → K := os.foldl m.advance v

/-- The probability of the symbols. -/
def likelihood : List ο → K
  | [] => 1
  | o :: os => ∑ i, m.forward (m.enter o) os i

/-- The sums of the vectors, each vector divided by its sum before the next symbol. -/
def scaled (v : σ → K) : List ο → List K
  | [] => [∑ i, v i]
  | o :: os => (∑ i, v i) :: scaled (m.advance (fun i => v i / ∑ i, v i) o) os

/-- The sums of a whole run of the scaled algorithm. -/
def sums : List ο → List K
  | [] => []
  | o :: os => m.scaled (m.enter o) os

@[simp] theorem forward_nil (v : σ → K) : m.forward v [] = v := rfl

@[simp] theorem forward_cons (v : σ → K) (o : ο) (os : List ο) : m.forward v (o :: os) = m.forward (m.advance v o) os := rfl

theorem advance_div (v : σ → K) (c : K) (o : ο) : m.advance (fun i => v i / c) o = fun i => m.advance v o i / c := by
  funext j
  simp only [advance, div_mul_eq_mul_div, ← Finset.sum_div]

theorem forward_div (v : σ → K) (c : K) (os : List ο) : m.forward (fun i => v i / c) os = fun i => m.forward v os i / c := by
  induction os generalizing v with
  | nil => rfl
  | cons o os ih => rw [forward_cons, advance_div, ih, forward_cons]

/-- When no sum is zero, the sums are the factors of the total weight. -/
theorem prod_scaled (v : σ → K) (os : List ο) (h : 0 ∉ m.scaled v os) : (m.scaled v os).prod = ∑ i, m.forward v os i := by
  induction os generalizing v with
  | nil => simp [scaled]
  | cons o os ih =>
    rw [scaled, List.mem_cons, not_or] at h
    rw [scaled, List.prod_cons, ih _ h.2, advance_div, forward_div, ← Finset.sum_div, forward_cons]
    exact mul_div_cancel₀ _ (Ne.symm h.1)

theorem prod_sums {os : List ο} (h : 0 ∉ m.sums os) : (m.sums os).prod = m.likelihood os := by
  cases os with
  | nil => rfl
  | cons o os => exact m.prod_scaled (m.enter o) os h

theorem length_scaled (v : σ → K) (os : List ο) : (m.scaled v os).length = os.length + 1 := by
  induction os generalizing v with
  | nil => rfl
  | cons o os ih => rw [scaled, List.length_cons, ih, List.length_cons]

theorem length_sums (os : List ο) : (m.sums os).length = os.length := by
  cases os with
  | nil => rfl
  | cons o os => exact m.length_scaled (m.enter o) os

variable [IsStrictOrderedRing K]

theorem enter_nonneg (o : ο) (i : σ) : 0 ≤ m.enter o i := mul_nonneg (m.startprob_nonneg i) (m.emissionprob_nonneg i o)

theorem advance_nonneg {v : σ → K} (hv : ∀ i, 0 ≤ v i) (o : ο) (j : σ) : 0 ≤ m.advance v o j :=
  mul_nonneg (Finset.sum_nonneg fun i _ => mul_nonneg (hv i) (m.transmat_nonneg i j)) (m.emissionprob_nonneg j o)

theorem forward_nonneg {v : σ → K} (hv : ∀ i, 0 ≤ v i) (os : List ο) (i : σ) : 0 ≤ m.forward v os i := by
  induction os generalizing v with
  | nil => exact hv i
  | cons o os ih => exact ih (m.advance_nonneg hv o)

theorem likelihood_nonneg (os : List ο) : 0 ≤ m.likelihood os := by
  cases os with
  | nil => exact zero_le_one
  | cons o os => exact Finset.sum_nonneg fun i _ => m.forward_nonneg (m.enter_nonneg o) os i

/-- No weight comes back once there is none. -/
theorem forward_total_zero {v : σ → K} (hv : ∀ i, 0 ≤ v i) (h : ∑ i, v i = 0) (os : List ο) : ∑ i, m.forward v os i = 0 := by
  induction os generalizing v with
  | nil => exact h
  | cons o os ih =>
    have hzero := (Finset.sum_eq_zero_iff_of_nonneg fun i _ => hv i).mp h
    apply ih (m.advance_nonneg hv o)
    exact Finset.sum_eq_zero fun j _ => by simp [advance, hzero]

/-- A sum is zero exactly when no weight is left at the end. -/
theorem zero_mem_scaled {v : σ → K} (hv : ∀ i, 0 ≤ v i) (os : List ο) : 0 ∈ m.scaled v os ↔ ∑ i, m.forward v os i = 0 := by
  induction os generalizing v with
  | nil => simp [scaled, eq_comm]
  | cons o os ih =>
    rw [scaled, List.mem_cons]
    by_cases hsum : ∑ i, v i = 0
    · exact iff_of_true (.inl hsum.symm) (m.forward_total_zero hv hsum (o :: os))
    · have hdiv : ∀ i, 0 ≤ v i / ∑ i, v i := fun i => div_nonneg (hv i) (Finset.sum_nonneg fun i _ => hv i)
      rw [ih (m.advance_nonneg hdiv o), advance_div, forward_div, ← Finset.sum_div, div_eq_zero_iff, forward_cons]
      constructor
      · rintro (h | h | h)
        · exact absurd h.symm hsum
        · exact h
        · exact absurd h hsum
      · exact fun h => .inr (.inl h)

theorem scaled_nonneg {v : σ → K} (hv : ∀ i, 0 ≤ v i) (os : List ο) : ∀ c ∈ m.scaled v os, 0 ≤ c := by
  induction os generalizing v with
  | nil =>
    intro c hc
    cases List.mem_singleton.mp hc
    exact Finset.sum_nonneg fun i _ => hv i
  | cons o os ih =>
    intro c hc
    have hsum : 0 ≤ ∑ i, v i := Finset.sum_nonneg fun i _ => hv i
    rcases List.mem_cons.mp hc with rfl | hc
    · exact hsum
    · exact ih (m.advance_nonneg (fun i => div_nonneg (hv i) hsum) o) c hc

theorem sums_nonneg (os : List ο) : ∀ c ∈ m.sums os, 0 ≤ c := by
  cases os with
  | nil => intro c hc; cases hc
  | cons o os => exact m.scaled_nonneg (m.enter_nonneg o) os

/-- A sum of a run is zero exactly when the run is impossible. -/
theorem zero_mem_sums (os : List ο) : 0 ∈ m.sums os ↔ m.likelihood os = 0 := by
  cases os with
  | nil => simp [sums, likelihood]
  | cons o os => exact m.zero_mem_scaled (m.enter_nonneg o) os

theorem likelihood_append_zero {os : List ο} (h : m.likelihood os = 0) (more : List ο) : m.likelihood (os ++ more) = 0 := by
  cases os with
  | nil => exact absurd h one_ne_zero
  | cons o os =>
    have happend : m.likelihood (o :: os ++ more) = ∑ i, m.forward (m.forward (m.enter o) os) more i := by
      simp [likelihood, forward]
    rw [happend]
    exact m.forward_total_zero (m.forward_nonneg (m.enter_nonneg o) os) h more

end Hmm

end Markov
