import Mathlib.Algebra.Order.Field.Basic
import Mathlib.Tactic.NormNum
import Mathlib.Tactic.Positivity
import Mathlib.Tactic.Ring
import Wardence.Detector
import Wardence.Lib.Binomial
/-!
# The threshold of the next-event models

`calibrate_threshold` of `deeplog_anomaly_scorer.py`: how many of `SCORING_WINDOW` predictions
have to miss before a window is an anomaly. `scipy.stats.binom.sf` is the exact tail.
-/
namespace Wardence.Detector

open Binomial (atLeast search)

def SCORING_WINDOW : ℕ := DEEPLOG_SCORING_WINDOW
def ANOMALY_PERCENTILE : ℚ := 99

/-- `1 - hits.mean()` -/
def missRate (hits : List Bool) : ℚ := 1 - mean (hits.map fun hit => if hit then 1 else 0)

def windowedMissRates (hits : List Bool) (window stride : ℕ) : List ℚ :=
  (List.range ((hits.length + stride - window) / stride)).map fun i => missRate ((hits.drop (i * stride)).take window)

/-- What `calibrate_threshold` returns. -/
structure Calibrated where
  threshold : ℚ
  rates : List ℚ
  pMiss : ℚ
  k : ℕ
  deriving DecidableEq, Repr

def calibrateThreshold (hits : List Bool) : Calibrated :=
  let pMiss := missRate hits
  let targetFpr := 1 - ANOMALY_PERCENTILE / 100
  let k := search (fun k => atLeast SCORING_WINDOW pMiss k ≤ targetFpr) SCORING_WINDOW 1
  ⟨k / SCORING_WINDOW, windowedMissRates hits SCORING_WINDOW SCORING_WINDOW, pMiss, k⟩

/-- The hits of the live check: a prediction from or of an unseen template is a miss. -/
def liveHits (d : DeepLog) (events : List Event) : List Bool :=
  let ts := transitions d ((lastOf (DEEPLOG_CONTEXT_WINDOW + DEEPLOG_SCORING_WINDOW) events).map (·.templateId))
  (d.predictHits (ts.map (·.1)) (ts.map (·.2.1))).zipWith (fun hit t => if t.2.2 then false else hit) ts

/-- `is_anomalous` -/
def Detection.isAnomalous : Detection → Bool
  | .deeplog _ _ b _ _ | .hmm _ _ b _ | .spc b _ _ => b
  | .unsupported | .insufficientData _ _ => false

/-- A service with a threshold, and enough events for a window; there is a hit or a miss for each context. -/
structure Checked (threshold : ℚ) (d : DeepLog) (events : List Event) : Prop where
  calibrated : d.threshold = threshold
  enough : DEEPLOG_CONTEXT_WINDOW + DEEPLOG_SCORING_WINDOW ≤ events.length
  predicts : ∀ contexts next, (d.predictHits contexts next).length = contexts.length

/-- The threshold is the least sound one, the live check counts with it, and a window of misses is flagged. -/
structure Sound (hits : List Bool) : Prop where
  least : IsLeast {k | 1 ≤ k ∧ k ≤ SCORING_WINDOW ∧ atLeast SCORING_WINDOW (missRate hits) k ≤ 1 - ANOMALY_PERCENTILE / 100}
    (calibrateThreshold hits).k
  counts : ∀ d events, Checked (calibrateThreshold hits).threshold d events →
    ((scoreDeeplog d events).isAnomalous = true ↔ (calibrateThreshold hits).k ≤ (liveHits d events).count false)
  missed : missRate hits < 1 → ∀ d events, Checked (calibrateThreshold hits).threshold d events →
    (∀ hit ∈ liveHits d events, hit = false) → (scoreDeeplog d events).isAnomalous = true

/-! ## Miss rates -/

theorem sum_hits (hits : List Bool) : (hits.map fun hit => if hit then (1 : ℚ) else 0).sum = hits.length - hits.count false := by
  induction hits with
  | nil => simp
  | cons hit hits ih =>
    rw [List.map_cons, List.sum_cons, ih, List.count_cons, List.length_cons]
    cases hit
    · simp
    · simp
      ring

/-- The misses among the hits. -/
theorem missRate_eq {hits : List Bool} (h : hits ≠ []) : missRate hits = hits.count false / hits.length := by
  have hpos : (0 : ℚ) < hits.length := by exact_mod_cast List.length_pos_of_ne_nil h
  rw [missRate, mean, sum_hits, List.length_map, sub_div, div_self hpos.ne']
  ring

theorem missRate_nonneg {hits : List Bool} (h : hits ≠ []) : 0 ≤ missRate hits := by
  rw [missRate_eq h]
  positivity

theorem missRate_le_one {hits : List Bool} (h : hits ≠ []) : missRate hits ≤ 1 := by
  have hpos : (0 : ℚ) < hits.length := by exact_mod_cast List.length_pos_of_ne_nil h
  rw [missRate_eq h, div_le_one hpos]
  exact_mod_cast List.count_le_length

/-! ## The live check -/

section Live
variable {d : DeepLog} {events : List Event} {threshold : ℚ}

theorem length_liveHits (h : Checked threshold d events) : (liveHits d events).length = DEEPLOG_SCORING_WINDOW := by
  have := h.enough
  simp only [liveHits, List.length_zipWith, h.predicts, List.length_map, transitions, List.length_range, lastOf, List.length_drop]
  simp only [DEEPLOG_CONTEXT_WINDOW, DEEPLOG_SCORING_WINDOW] at *
  omega

theorem flags_iff (h : Checked threshold d events) : (scoreDeeplog d events).isAnomalous = true ↔ threshold ≤ missRate (liveHits d events) := by
  rw [scoreDeeplog, if_neg (Nat.not_lt.2 h.enough), ← h.calibrated]
  exact decide_eq_true_iff

/-- So many misses in a window. -/
theorem flags_count {k : ℕ} (h : Checked (k / SCORING_WINDOW) d events) :
    (scoreDeeplog d events).isAnomalous = true ↔ k ≤ (liveHits d events).count false := by
  have hlen := length_liveHits h
  have hne : liveHits d events ≠ [] := List.ne_nil_of_length_pos (by rw [hlen]; decide)
  have hpos : (0 : ℚ) < SCORING_WINDOW := by norm_num [SCORING_WINDOW, DEEPLOG_SCORING_WINDOW]
  rw [flags_iff h, missRate_eq hne, hlen]
  exact (div_le_div_iff_of_pos_right hpos).trans Nat.cast_le

end Live

/-! ## The calibration -/

section Calibrate
variable {hits : List Bool}

/-- The search finds the least count, or all the counts are too common, that of a full window too. -/
theorem calibrate_cases (hits : List Bool) :
    IsLeast {k | 1 ≤ k ∧ k ≤ SCORING_WINDOW ∧ atLeast SCORING_WINDOW (missRate hits) k ≤ 1 - ANOMALY_PERCENTILE / 100}
      (calibrateThreshold hits).k ∨
    (calibrateThreshold hits).k = SCORING_WINDOW + 1 ∧
      ¬ atLeast SCORING_WINDOW (missRate hits) SCORING_WINDOW ≤ 1 - ANOMALY_PERCENTILE / 100 := by
  have hset : ∀ k, (1 ≤ k ∧ k < 1 + SCORING_WINDOW ∧
      decide (atLeast SCORING_WINDOW (missRate hits) k ≤ 1 - ANOMALY_PERCENTILE / 100) = true) ↔
      (1 ≤ k ∧ k ≤ SCORING_WINDOW ∧ atLeast SCORING_WINDOW (missRate hits) k ≤ 1 - ANOMALY_PERCENTILE / 100) := by
    intro k
    rw [decide_eq_true_eq, Nat.add_comm, Nat.lt_succ_iff]
  rcases Binomial.search_cases (P := fun k => atLeast SCORING_WINDOW (missRate hits) k ≤ 1 - ANOMALY_PERCENTILE / 100)
    SCORING_WINDOW 1 with hleast | ⟨hpast, hnone⟩
  · left
    simp only [hset] at hleast
    exact hleast
  · refine .inr ⟨hpast.trans (Nat.add_comm _ _), fun hall => ?_⟩
    exact hnone SCORING_WINDOW (by decide) (by decide) (decide_eq_true hall)

/-- A count is rare enough if and only if a full window of misses is. -/
theorem rare_iff (h : hits ≠ []) :
    IsLeast {k | 1 ≤ k ∧ k ≤ SCORING_WINDOW ∧ atLeast SCORING_WINDOW (missRate hits) k ≤ 1 - ANOMALY_PERCENTILE / 100}
      (calibrateThreshold hits).k ↔ ((hits.count false : ℚ) / hits.length) ^ SCORING_WINDOW ≤ 1 / 100 := by
  have htarget : (1 : ℚ) - ANOMALY_PERCENTILE / 100 = 1 / 100 := by norm_num [ANOMALY_PERCENTILE]
  rw [← missRate_eq h, ← Binomial.atLeast_all, ← htarget]
  constructor
  · rintro ⟨⟨-, hle, hrare⟩, -⟩
    exact (Binomial.atLeast_antitone (missRate_nonneg h) (missRate_le_one h) hle).trans hrare
  · intro hall
    exact (calibrate_cases hits).resolve_right fun hpast => hpast.2 hall

/-- The threshold is sound exactly when the held-out misses are rare enough for a full window of them to be an anomaly. -/
theorem threshold_sound_iff (h : hits ≠ []) : Sound hits ↔ ((hits.count false : ℚ) / hits.length) ^ SCORING_WINDOW ≤ 1 / 100 := by
  refine ⟨fun hs => (rare_iff h).1 hs.least, fun hall => ⟨(rare_iff h).2 hall, fun d events hc => flags_count hc, ?_⟩⟩
  intro _ d events hc hmiss
  have hall : (liveHits d events).count false = (liveHits d events).length := List.count_eq_length.2 fun hit hhit => (hmiss hit hhit).symm
  rw [flags_count (k := (calibrateThreshold hits).k) hc, hall, length_liveHits hc]
  exact ((rare_iff h).2 ‹_›).1.2.1

theorem threshold_sound_perfect : Sound [true] ↔ (([true].count false : ℚ) / [true].length) ^ SCORING_WINDOW ≤ 1 / 100 :=
  threshold_sound_iff (List.cons_ne_nil _ _)

/-- A model that never predicts what comes. -/
def hopeless (threshold : ℚ) : DeepLog := ⟨some, threshold, fun contexts _ => contexts.map fun _ => false⟩

/-- Four misses of five: no count is rare enough, and a window of misses is not flagged. -/
theorem fourOfFive_unflagged : ¬ Sound [false, false, false, false, true] := by
  intro h
  have hk : (calibrateThreshold [false, false, false, false, true]).threshold = 21 / 20 := by decide +kernel
  have hflag := h.missed (by decide +kernel) (hopeless (21 / 20)) (List.replicate 30 ⟨0, 1, "GET /"⟩)
    ⟨by rw [hk]; rfl, by decide, fun contexts next => List.length_map _⟩
    (by decide +kernel)
  exact absurd hflag (by decide +kernel)

end Calibrate

end Wardence.Detector
