import Mathlib.Algebra.Order.Field.Basic
import Mathlib.Tactic.Linarith
import Wardence.Lib.Evidence
/-!
# The cumulative sums of the control chart

`cusum_series` of `spc_ewma_cusum_monitor.py`, over exact numbers of any kind: a baseline's
deviation is a square root.
-/
namespace Wardence.TrackB

open Evidence

variable {K : Type} [Field K] [LinearOrder K]

def CUSUM_K_SIGMAS : K := 1 / 2
def CUSUM_H_SIGMAS : K := 5

/-- What `cusum_series` returns. -/
structure Cusum (K : Type) where
  cPlus : List K
  cMinus : List K
  h : K
  flagged : List Bool
  deriving DecidableEq, Repr

/-- The loop, with the two sums of the index before. -/
def cusumFrom (baselineMean k : K) : K → K → List K → List (K × K)
  | _, _, [] => []
  | prevPlus, prevMinus, xi :: x =>
    let plus := max 0 (prevPlus + (xi - baselineMean - k))
    let minus := max 0 (prevMinus + (baselineMean - xi - k))
    (plus, minus) :: cusumFrom baselineMean k plus minus x

def cusumSeries (x : List K) (baselineMean baselineStd : K) : Cusum K :=
  if baselineStd = 0 then ⟨x.map fun _ => 0, x.map fun _ => 0, 0, x.map fun _ => false⟩
  else
    let k := CUSUM_K_SIGMAS * baselineStd
    let h := CUSUM_H_SIGMAS * baselineStd
    let c := cusumFrom baselineMean k 0 0 x
    ⟨c.map (·.1), c.map (·.2), h, c.map fun c => decide (c.1 > h) || decide (c.2 > h)⟩

/-! ## What has built up -/

/-- The deviations above the mean of the values `j` to `i`, less the allowance of each. -/
def above (baselineMean k : K) (x : List K) (j i : ℕ) : K := ((window x j i).map fun xt => xt - baselineMean - k).sum

/-- The deviations below it. -/
def below (baselineMean k : K) (x : List K) (j i : ℕ) : K := ((window x j i).map fun xt => baselineMean - xt - k).sum

/-- The largest of the windows that end at `i`, or 0. -/
def largest (total : ℕ → ℕ → K) (i : ℕ) : K := max 0 ((Finset.range (i + 1)).sup' Finset.nonempty_range_add_one (total · i))

/-- Each sum is the largest of its windows, and what is flagged is a window above `h`. -/
structure Windowed (x : List K) (baselineMean k h : K) (s : Cusum K) : Prop where
  limit : s.h = h
  plus : s.cPlus = (List.range x.length).map (largest (above baselineMean k x))
  minus : s.cMinus = (List.range x.length).map (largest (below baselineMean k x))
  flags : s.flagged.length = x.length ∧ ∀ i < x.length, s.flagged[i]? = some true ↔
    ∃ j ≤ i, h < above baselineMean k x j i ∨ h < below baselineMean k x j i

section Series
variable {x : List K} {baselineMean k h : K} {i : ℕ}

/-- The loop has come as far as the levels of the library. -/
theorem cusumFrom_levels (p m : K) (hi : i < x.length) : (cusumFrom baselineMean k p m x)[i]? =
    some (((x.take (i + 1)).map fun xt => xt - baselineMean - k).foldl next p,
      ((x.take (i + 1)).map fun xt => baselineMean - xt - k).foldl next m) := by
  induction x generalizing p m i with
  | nil => cases hi
  | cons xi x ih =>
    cases i with
    | zero => rfl
    | succ i => exact ih _ _ (Nat.lt_of_succ_lt_succ hi)

theorem length_cusumFrom (p m : K) : (cusumFrom baselineMean k p m x).length = x.length := by
  induction x generalizing p m with
  | nil => rfl
  | cons xi x ih => exact congrArg (· + 1) (ih _ _)

theorem lt_largest {total : ℕ → ℕ → K} (hh : 0 ≤ h) : h < largest total i ↔ ∃ j ≤ i, h < total j i := by
  rw [largest, lt_max_iff, or_iff_right (not_lt.2 hh), Finset.lt_sup'_iff]
  simp only [Finset.mem_range_succ_iff]

variable [IsStrictOrderedRing K]

theorem largest_level (f : K → K) (hi : i < x.length) :
    level ((x.take (i + 1)).map f) = largest (fun j i => ((window x j i).map f).sum) i := by
  have hlen : i < (x.map f).length := by rwa [List.length_map]
  rw [List.map_take, level_windows hlen, largest]
  simp only [window, List.map_drop, List.map_take]

theorem cusumFrom_largest (hi : i < x.length) : (cusumFrom baselineMean k 0 0 x)[i]? =
    some (largest (above baselineMean k x) i, largest (below baselineMean k x) i) := by
  rw [cusumFrom_levels 0 0 hi]
  exact congrArg some (Prod.ext (largest_level _ hi) (largest_level _ hi))

/-- The whole loop, index by index. -/
theorem cusumFrom_eq : cusumFrom baselineMean k 0 0 x =
    (List.range x.length).map fun i => (largest (above baselineMean k x) i, largest (below baselineMean k x) i) := by
  apply List.ext_getElem?
  intro i
  rcases Nat.lt_or_ge i x.length with hi | hi
  · rw [cusumFrom_largest hi, List.getElem?_map, List.getElem?_range hi]
    rfl
  · rw [List.getElem?_eq_none (by rwa [length_cusumFrom]), List.getElem?_eq_none (by simpa using hi)]

/-- For every series and a positive deviation. -/
theorem cusum_windowed {baselineStd : K} (hstd : 0 < baselineStd) :
    Windowed x baselineMean (CUSUM_K_SIGMAS * baselineStd) (CUSUM_H_SIGMAS * baselineStd) (cusumSeries x baselineMean baselineStd) := by
  have hh : (0 : K) ≤ CUSUM_H_SIGMAS * baselineStd := mul_nonneg (by norm_num [CUSUM_H_SIGMAS]) hstd.le
  rw [cusumSeries, if_neg hstd.ne']
  simp only [cusumFrom_eq, List.map_map]
  refine ⟨rfl, rfl, rfl, by simp, fun i hi => ?_⟩
  rw [List.getElem?_map, List.getElem?_range hi]
  simp only [Option.map_some, Function.comp_apply, Option.some_inj, Bool.or_eq_true, decide_eq_true_eq, gt_iff_lt, lt_largest hh,
    ← exists_or, ← and_or_left]

/-- Four more than the mean twice: one above the allowance each is not enough, both together are. -/
theorem cusum_windowed_shift : (cusumSeries [0, 4, 4] 0 1 : Cusum ℚ).flagged = [false, false, true] ∧
    Windowed ([0, 4, 4] : List ℚ) 0 (CUSUM_K_SIGMAS * 1) (CUSUM_H_SIGMAS * 1) (cusumSeries [0, 4, 4] 0 1) :=
  ⟨by decide +kernel, cusum_windowed one_pos⟩

end Series

end Wardence.TrackB
