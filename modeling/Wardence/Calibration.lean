import Mathlib.Data.List.Dedup
import Wardence.Backend.Calls
import Wardence.Lib.Double
/-!
# Calibrated confidences

`calibration_refit.py`: curves are fitted to the confidences that models reported of
themselves, and a raw confidence is looked up in them. Writing the curves to the file and
reading them again changes nothing of them. Quotients are exact.
-/
namespace Wardence.Calibration

open Backend (PROVIDER_CHAIN)
open Py (Exc)

def REAL_CHAIN_KEYS : List String := PROVIDER_CHAIN.map fun e => e.provider ++ ":" ++ e.model
def EXPLICITLY_EXCLUDED_KEYS : List String := ["groq:llama-3.3-70b-versatile"]
def NUM_BINS : ℕ := 10
def COLD_START_UNCALIBRATED_MAX : ℕ := 4
def COLD_START_WEAK_MAX : ℕ := 9
def PER_CLASS_MODEL_MIN_TOTAL : ℕ := 100
def PER_CLASS_MODEL_MIN_PAIR : ℕ := 10

/-! ## Bins -/

/-- `confidence * NUM_BINS` -/
def timesBins : Py.Float → Py.Float
  | .fin q =>
    let size := Py.mulDouble |q| NUM_BINS
    if 2 ^ 1024 ≤ size then .inf (q < 0) else .fin (if q < 0 then -size else size)
  | x => x

/-- `int(x)`, towards zero. -/
def toInt : Py.Float → Except Exc Int
  | .fin q => .ok (if q < 0 then -⌊-q⌋ else ⌊q⌋)
  | .inf _ => .error .overflow
  | .nan => .error .value

def binIndex (confidence : Py.Float) : Except Exc Int := do
  let n ← toInt (timesBins confidence)
  pure (min n (NUM_BINS - 1))

/-- Where `bins[idx]` is: a negative index counts from the end. -/
def position (length : ℕ) (idx : Int) : Except Exc ℕ :=
  if 0 ≤ idx ∧ idx < length then .ok idx.toNat
  else if -length ≤ idx ∧ idx < 0 then .ok (idx + length).toNat
  else .error .index

structure Bin where
  total : ℕ
  correct : ℕ
  deriving DecidableEq

/-! ## The rows -/

def isCorrect (predicted actual : String) : Bool :=
  predicted = actual || (predicted ∈ ["none", "no anomaly detected"] && actual ∈ ["none", "no anomaly detected"])

/-- A row of `llm_diagnosis_log`. -/
structure DiagnosisRow where
  provider : Option String
  model : Option String
  actualClass : String
  llmDiagnosis : Option String
  llmConfidence : Option Py.Float
  llmConfidenceSource : Option String

/-- A row of `comparison_sampling_log`. -/
structure ComparisonRow where
  episodeId : Option String
  provider : Option String
  model : Option String
  diagnosis : Option String
  confidence : Option Py.Float
  confidenceSource : Option String

/-- The database, its episodes with their classes. -/
structure Log where
  diagnoses : List DiagnosisRow
  comparisons : List ComparisonRow
  episodes : List (String × String)

structure Row where
  provider : Option String
  model : Option String
  faultClass : String
  confidence : Py.Float
  correct : Bool

/-- A row that both queries select: self-reported, with a confidence and a diagnosis. -/
def selected (provider model diagnosis source : Option String) (confidence : Option Py.Float) (faultClass : String) : Option Row := do
  let confidence ← confidence
  let diagnosis ← diagnosis
  if source = some "self_reported" then some ⟨provider, model, faultClass, confidence, isCorrect diagnosis faultClass⟩ else none

def loadSelfReportedRows (log : Log) : List Row :=
  (log.diagnoses.filterMap fun d => selected d.provider d.model d.llmDiagnosis d.llmConfidenceSource d.llmConfidence d.actualClass) ++
    log.comparisons.flatMap fun c => log.episodes.filterMap fun e =>
      if c.episodeId = some e.1 then selected c.provider c.model c.diagnosis c.confidenceSource c.confidence e.2 else none

/-! ## Fitting -/

def countRow (bins : List Bin) (r : Row) : Except Exc (List Bin) := do
  let idx ← binIndex r.confidence
  let i ← position bins.length idx
  pure (bins.modify i fun b => ⟨b.total + 1, b.correct + if r.correct then 1 else 0⟩)

def fitBins (rows : List Row) : Except Exc (List Bin) := rows.foldlM countRow (List.replicate NUM_BINS ⟨0, 0⟩)

def laplace (correct total : ℕ) (smoothing : ℕ × ℕ) : ℚ := (correct + smoothing.1) / (total + smoothing.2)

structure ClassPair where
  total : ℕ
  correct : ℕ
  bins : List Bin

structure Curve where
  totalEpisodes : ℕ
  tag : String
  smoothing : Option (ℕ × ℕ)
  perModelBins : List Bin
  perClassPairs : List (String × ClassPair)

/-- `f"{provider}:{model}"` -/
def Row.key (r : Row) : String := r.provider.getD "None" ++ ":" ++ r.model.getD "None"

/-- A row of a pair in the chain that is not excluded. -/
def Row.kept (r : Row) : Bool := r.key ∈ REAL_CHAIN_KEYS && r.key ∉ EXPLICITLY_EXCLUDED_KEYS

/-- The rows of a model. -/
def group (log : Log) (key : String) : List Row := (loadSelfReportedRows log).filter fun r => r.kept && r.key = key

/-- The tag and the smoothing of so many rows. -/
def coldStart (totalN : ℕ) : String × Option (ℕ × ℕ) :=
  if totalN ≤ COLD_START_UNCALIBRATED_MAX then ("self_reported_uncalibrated", none)
  else if totalN ≤ COLD_START_WEAK_MAX then ("self_reported_calibrated_weak", some (2, 4))
  else ("self_reported_calibrated", some (1, 2))

def classRows (rows : List Row) (cls : String) : List Row := rows.filter (·.faultClass = cls)

/-- The classes that get bins of their own. -/
def pairedClasses (rows : List Row) : List String :=
  if PER_CLASS_MODEL_MIN_TOTAL ≤ rows.length then
    (rows.map (·.faultClass)).dedup.filter fun cls => PER_CLASS_MODEL_MIN_PAIR ≤ (classRows rows cls).length
  else []

def fitPair (rows : List Row) (cls : String) : Except Exc (String × ClassPair) := do
  let bins ← fitBins (classRows rows cls)
  pure (cls, ⟨(classRows rows cls).length, (classRows rows cls).countP (·.correct), bins⟩)

def fitCurve (rows : List Row) : Except Exc Curve := do
  let bins ← fitBins rows
  let pairs ← (pairedClasses rows).mapM (fitPair rows)
  pure ⟨rows.length, (coldStart rows.length).1, (coldStart rows.length).2, bins, pairs⟩

abbrev Curves := List (String × Curve)

/-- `main`: nothing is written when there are no rows. -/
def refit (log : Log) : Except Exc (Option Curves) := do
  if loadSelfReportedRows log = [] then return none
  let curves ← (((loadSelfReportedRows log).filter Row.kept).map Row.key).dedup.mapM fun key => do
    let curve ← fitCurve (group log key)
    pure (key, curve)
  return some curves

/-! ## Looking up -/

def find {α : Type} (entries : List (String × α)) (key : String) : Option α := (entries.find? fun e => e.1 = key).map (·.2)

def lookUp (bins : List Bin) (raw : Py.Float) (smoothing : ℕ × ℕ) : Except Exc Py.Float := do
  let idx ← binIndex raw
  let i ← position bins.length idx
  match bins[i]? with
  | some b => pure (.fin (laplace b.correct b.total smoothing))
  | none => throw .index

def getCalibratedConfidence (raw : Py.Float) (provider model faultClass : String) (curves : Curves) : Except Exc (Py.Float × String) :=
  match find curves (provider ++ ":" ++ model) with
  | none => pure (raw, "self_reported_uncalibrated")
  | some curve => do
    -- `tuple(None)`
    let smoothing ← match curve.smoothing with
      | some smoothing => pure smoothing
      | none => throw .type
    let bins := match find curve.perClassPairs faultClass with
      | some pair => pair.bins
      | none => curve.perModelBins
    let value ← lookUp bins raw smoothing
    pure (value, curve.tag)

/-! ## What calibration is to do -/

/-- The place of a confidence among the bins. -/
def slot (confidence : Py.Float) : Except Exc ℕ := do
  let idx ← binIndex confidence
  position NUM_BINS idx

/-- A number above -1.1 that is not too large to be multiplied by ten. -/
def Binnable (confidence : Py.Float) : Prop := ∃ q, timesBins confidence = .fin q ∧ -11 < q

/-- What a bin holds when each row is counted in its slot. -/
def tally (rows : List Row) (slot : Row → Fin NUM_BINS) (i : Fin NUM_BINS) : Bin :=
  ⟨rows.countP (slot · = i), rows.countP fun r => slot r = i ∧ r.correct⟩

section
variable (log : Log) (raw : Py.Float) (provider model faultClass : String)

structure Calibrated : Prop where
  fits : ∃ fitted, refit log = .ok fitted
  /-- Each row is counted in its model's curve, in one bin. -/
  counted : ∀ curves, refit log = .ok (some curves) → ∀ r ∈ loadSelfReportedRows log, r.kept →
    ∃ curve slot, find curves r.key = some curve ∧ ∀ i : Fin NUM_BINS, curve.perModelBins[i.val]? = some (tally (group log r.key) slot i)
  looked : ∀ fitted, refit log = .ok fitted → ∃ value tag,
    getCalibratedConfidence raw provider model faultClass (fitted.getD []) = .ok (value, tag) ∧
      (5 ≤ (group log (provider ++ ":" ++ model)).length → ∃ q, value = .fin q ∧ 0 < q ∧ q < 1) ∧
      ((group log (provider ++ ":" ++ model)).length < 5 → value = raw)

/-- Each confidence that is kept can be binned, and a model that has rows has five or more of them, and the raw confidence can
be binned then. -/
def Fittable : Prop :=
  (∀ r ∈ loadSelfReportedRows log, r.kept → Binnable r.confidence) ∧
    (group log (provider ++ ":" ++ model) = [] ∨ 5 ≤ (group log (provider ++ ":" ++ model)).length ∧ Binnable raw)

end

/-! ### Slots -/

theorem toInt_least (q : ℚ) : (-10 ≤ if q < 0 then -⌊-q⌋ else ⌊q⌋) ↔ -11 < q := by
  split_ifs with h
  · have hfloor : ⌊-q⌋ < 11 ↔ -q < 11 := Int.floor_lt
    constructor
    · intro hle
      have := hfloor.mp (by omega)
      linarith
    · intro hlt
      have := hfloor.mpr (by linarith)
      omega
  · have hnonneg : 0 ≤ ⌊q⌋ := Int.floor_nonneg.mpr (not_lt.mp h)
    exact iff_of_true (by omega) (by linarith [not_lt.mp h])

theorem position_iff (idx : Int) (h : idx ≤ 9) : (∃ i < NUM_BINS, position NUM_BINS idx = .ok i) ↔ -10 ≤ idx := by
  have hbins : (NUM_BINS : Int) = 10 := rfl
  have hnum : NUM_BINS = 10 := rfl
  unfold position
  rw [hbins]
  by_cases h₁ : 0 ≤ idx
  · rw [if_pos ⟨h₁, by omega⟩]
    exact iff_of_true ⟨idx.toNat, by omega, rfl⟩ (by omega)
  · rw [if_neg fun h => h₁ h.1]
    by_cases h₂ : -10 ≤ idx
    · rw [if_pos ⟨h₂, by omega⟩]
      exact iff_of_true ⟨(idx + 10).toNat, by omega, rfl⟩ h₂
    · rw [if_neg fun h => h₂ h.1]
      exact iff_of_false (fun ⟨_, _, hi⟩ => by cases hi) h₂

theorem slot_iff (confidence : Py.Float) : (∃ i < NUM_BINS, slot confidence = .ok i) ↔ Binnable confidence := by
  unfold slot binIndex Binnable
  cases timesBins confidence with
  | fin q =>
    have hpos := position_iff (min (if q < 0 then -⌊-q⌋ else ⌊q⌋) (NUM_BINS - 1)) (min_le_right _ _)
    have hmin : -10 ≤ min (if q < 0 then -⌊-q⌋ else ⌊q⌋) ((NUM_BINS : Int) - 1) ↔ -10 ≤ if q < 0 then -⌊-q⌋ else ⌊q⌋ :=
      le_min_iff.trans (and_iff_left (by decide))
    rw [hmin, toInt_least] at hpos
    simp only [Py.Float.fin.injEq, exists_eq_left']
    exact hpos
  | inf negative => exact iff_of_false (fun ⟨_, _, h⟩ => by cases h) fun ⟨_, h, _⟩ => by cases h
  | nan => exact iff_of_false (fun ⟨_, _, h⟩ => by cases h) fun ⟨_, h, _⟩ => by cases h

theorem binnable_of_slot {confidence : Py.Float} {i : ℕ} (h : slot confidence = .ok i) : Binnable confidence := by
  have hlt : i < NUM_BINS := by
    obtain ⟨idx, _, hpos⟩ := Py.ok_of_bind h
    unfold position at hpos
    split_ifs at hpos with h₁ h₂
    · cases hpos
      omega
    · cases hpos
      omega
  exact (slot_iff confidence).mp ⟨i, hlt, h⟩

/-- The bin of a row that can be binned. -/
def binOf (r : Row) : Fin NUM_BINS :=
  match slot r.confidence with
  | .ok i => if h : i < NUM_BINS then ⟨i, h⟩ else ⟨0, by decide⟩
  | .error _ => ⟨0, by decide⟩

theorem slot_binOf {r : Row} (h : Binnable r.confidence) : slot r.confidence = .ok (binOf r).val := by
  obtain ⟨i, hi, hslot⟩ := (slot_iff r.confidence).mpr h
  rw [binOf, hslot]
  simp only [dif_pos hi]

/-! ### Fitting -/

theorem countRow_eq {bins : List Bin} (hlen : bins.length = NUM_BINS) (r : Row) :
    countRow bins r = (slot r.confidence).map fun i => bins.modify i fun b => ⟨b.total + 1, b.correct + if r.correct then 1 else 0⟩ := by
  rw [countRow, hlen, slot]
  cases binIndex r.confidence with
  | error e => rfl
  | ok idx => cases h : position NUM_BINS idx <;> simp [h, Except.map, bind, Except.bind, pure, Except.pure]

theorem foldlM_countRow (rows : List Row) (h : ∀ r ∈ rows, Binnable r.confidence) (bins : List Bin) (hlen : bins.length = NUM_BINS) :
    ∃ bins', rows.foldlM countRow bins = .ok bins' ∧ bins'.length = NUM_BINS ∧ ∀ i : Fin NUM_BINS, bins'[i.val]? =
      bins[i.val]?.map fun b => ⟨b.total + (tally rows binOf i).total, b.correct + (tally rows binOf i).correct⟩ := by
  induction rows generalizing bins with
  | nil =>
    refine ⟨bins, rfl, hlen, fun i => ?_⟩
    simp [tally]
  | cons r rows ih =>
    have hcount := countRow_eq hlen r
    rw [slot_binOf (h r (.head _))] at hcount
    obtain ⟨bins', hfold, hlen', hbins⟩ := ih (fun x hx => h x (.tail _ hx)) _ ((List.length_modify _ _ _).trans hlen)
    refine ⟨bins', by rw [List.foldlM_cons, hcount]; exact hfold, hlen', fun i => ?_⟩
    rw [hbins, List.getElem?_modify]
    cases hb : bins[i.val]? with
    | none => rfl
    | some b =>
      by_cases hi : (binOf r).val = i.val
      · have hi' : binOf r = i := Fin.ext hi
        cases hc : r.correct <;> simp [tally, hi', hc] <;> omega
      · have hi' : binOf r ≠ i := fun heq => hi (congrArg _ heq)
        simp [tally, hi, hi']

/-- Bins that hold each row of some rows once. -/
structure Tallied (bins : List Bin) (rows : List Row) : Prop where
  length : bins.length = NUM_BINS
  counts : ∀ i : Fin NUM_BINS, bins[i.val]? = some (tally rows binOf i)

theorem fitBins_ok {rows : List Row} (h : ∀ r ∈ rows, Binnable r.confidence) : ∃ bins, fitBins rows = .ok bins ∧ Tallied bins rows := by
  obtain ⟨bins, hfold, hlen, hbins⟩ := foldlM_countRow rows h (List.replicate NUM_BINS ⟨0, 0⟩) List.length_replicate
  refine ⟨bins, hfold, hlen, fun i => ?_⟩
  rw [hbins, List.getElem?_replicate_of_lt i.isLt, Option.map_some, Nat.zero_add, Nat.zero_add]

/-- A row that cannot be binned stops the fit. -/
theorem binnable_of_foldlM (rows : List Row) (bins bins' : List Bin) (hlen : bins.length = NUM_BINS)
    (h : rows.foldlM countRow bins = .ok bins') : ∀ r ∈ rows, Binnable r.confidence := by
  induction rows generalizing bins with
  | nil =>
    intro r hr
    cases hr
  | cons r rows ih =>
    rw [List.foldlM_cons] at h
    obtain ⟨counted, hcounted, h⟩ := Py.ok_of_bind h
    rw [countRow_eq hlen] at hcounted
    cases hslot : slot r.confidence with
    | error e =>
      rw [hslot] at hcounted
      cases hcounted
    | ok i =>
      rw [hslot] at hcounted
      cases hcounted
      intro x hx
      rcases List.mem_cons.mp hx with rfl | hx
      · exact binnable_of_slot hslot
      · exact ih _ ((List.length_modify _ _ _).trans hlen) h x hx

theorem find_nil {α : Type} (key : String) : find ([] : List (String × α)) key = none := rfl

/-- What is found of entries that were made key by key. -/
theorem find_mapM {α : Type} {f : String → Except Exc (String × α)} (hf : ∀ k e, f k = .ok e → e.1 = k) {keys : List String}
    {entries : List (String × α)} (h : keys.mapM f = .ok entries) (key : String) :
    (key ∉ keys → find entries key = none) ∧ (key ∈ keys → ∃ v, find entries key = some v ∧ f key = .ok (key, v)) := by
  induction Py.mapM_ok_iff.mp h with
  | nil => exact ⟨fun _ => rfl, fun h => by cases h⟩
  | @cons k e keys entries hke hrest ih =>
    have hk := hf k e hke
    have ih := ih (Py.mapM_ok_iff.mpr hrest)
    by_cases hkey : k = key
    · subst hkey
      refine ⟨fun h => absurd (.head _) h, fun _ => ⟨e.2, ?_, ?_⟩⟩
      · rw [find, List.find?_cons_of_pos (by simp [hk])]
        rfl
      · rw [hke, ← hk]
    · have hfind : find (e :: entries) key = find entries key := by
        rw [find, List.find?_cons_of_neg (by simp [hk, hkey])]
        rfl
      rw [hfind]
      refine ⟨fun h => ih.1 fun hm => h (.tail _ hm), fun h => ih.2 ?_⟩
      exact (List.mem_cons.mp h).resolve_left fun heq => hkey heq.symm

theorem mapM_succeeds {α β : Type} {f : α → Except Exc β} {l : List α} (h : ∀ a ∈ l, ∃ b, f a = .ok b) : ∃ r, l.mapM f = .ok r := by
  simp only [Py.mapM_ok_iff]
  induction l with
  | nil => exact ⟨[], .nil⟩
  | cons a l ih =>
    obtain ⟨b, hb⟩ := h a (.head _)
    obtain ⟨r, hr⟩ := ih fun x hx => h x (.tail _ hx)
    exact ⟨b :: r, .cons hb hr⟩

theorem fitPair_fst (rows : List Row) : ∀ cls e, fitPair rows cls = .ok e → e.1 = cls := by
  intro cls e h
  obtain ⟨bins, _, h⟩ := Py.ok_of_bind h
  cases h
  rfl

/-- What is fitted to rows that can be binned. -/
theorem fitCurve_ok {rows : List Row} (h : ∀ r ∈ rows, Binnable r.confidence) : ∃ curve, fitCurve rows = .ok curve ∧
    curve.smoothing = (coldStart rows.length).2 ∧ Tallied curve.perModelBins rows ∧
    ∀ cls pair, find curve.perClassPairs cls = some pair → ∃ rows', Tallied pair.bins rows' := by
  have hclass : ∀ cls, ∀ r ∈ classRows rows cls, Binnable r.confidence := fun cls r hr => h r (List.mem_filter.mp hr).1
  obtain ⟨bins, hbins, htally⟩ := fitBins_ok h
  obtain ⟨pairs, hpairs⟩ := mapM_succeeds (f := fitPair rows) (l := pairedClasses rows) fun cls _ => by
    obtain ⟨cbins, hc, _⟩ := fitBins_ok (hclass cls)
    exact ⟨_, by rw [fitPair, hc]; rfl⟩
  refine ⟨⟨rows.length, (coldStart rows.length).1, (coldStart rows.length).2, bins, pairs⟩, ?_, rfl, htally, ?_⟩
  · rw [fitCurve, hbins]
    change ((pairedClasses rows).mapM (fitPair rows) >>= _) = _
    rw [hpairs]
    rfl
  intro cls pair hpair
  have hfind := find_mapM (fitPair_fst rows) hpairs cls
  by_cases hcls : cls ∈ pairedClasses rows
  · obtain ⟨v, hv, hfit⟩ := hfind.2 hcls
    obtain ⟨cbins, hc, htc⟩ := fitBins_ok (hclass cls)
    rw [fitPair, hc] at hfit
    cases hfit
    cases hpair.symm.trans hv
    exact ⟨classRows rows cls, htc⟩
  · cases hpair.symm.trans (hfind.1 hcls)

theorem binnable_of_fitCurve {rows : List Row} {curve : Curve} (h : fitCurve rows = .ok curve) : ∀ r ∈ rows, Binnable r.confidence := by
  obtain ⟨bins, hbins, _⟩ := Py.ok_of_bind h
  exact binnable_of_foldlM rows _ bins List.length_replicate hbins

/-! ### The curves -/

section
variable (log : Log)

def keys : List String := (((loadSelfReportedRows log).filter Row.kept).map Row.key).dedup

def fitKey (key : String) : Except Exc (String × Curve) := do
  let curve ← fitCurve (group log key)
  pure (key, curve)

theorem fitKey_fst : ∀ key e, fitKey log key = .ok e → e.1 = key := by
  intro key e h
  obtain ⟨curve, _, h⟩ := Py.ok_of_bind h
  cases h
  rfl

theorem refit_eq : refit log = if loadSelfReportedRows log = [] then .ok none else ((keys log).mapM (fitKey log)).map some := by
  unfold refit
  split_ifs with h
  · rfl
  · change ((keys log).mapM (fitKey log) >>= fun curves => .ok (some curves)) = _
    cases (keys log).mapM (fitKey log) <;> rfl

theorem mem_keys (key : String) : key ∈ keys log ↔ group log key ≠ [] := by
  rw [keys, List.mem_dedup, List.mem_map]
  constructor
  · rintro ⟨r, hr, rfl⟩ hnil
    obtain ⟨hr, hkept⟩ := List.mem_filter.mp hr
    have : r ∈ group log r.key := List.mem_filter.mpr ⟨hr, by simp [hkept]⟩
    rw [hnil] at this
    cases this
  · intro hne
    obtain ⟨r, hr⟩ := List.exists_mem_of_ne_nil _ hne
    obtain ⟨hr, hkept⟩ := List.mem_filter.mp hr
    simp only [Bool.and_eq_true, decide_eq_true_eq] at hkept
    exact ⟨r, List.mem_filter.mpr ⟨hr, hkept.1⟩, hkept.2⟩

theorem mem_group {r : Row} {key : String} (h : r ∈ group log key) : r ∈ loadSelfReportedRows log ∧ r.kept = true ∧ r.key = key := by
  obtain ⟨hr, hkept⟩ := List.mem_filter.mp h
  simp only [Bool.and_eq_true, decide_eq_true_eq] at hkept
  exact ⟨hr, hkept⟩

theorem refit_succeeds (h : ∀ r ∈ loadSelfReportedRows log, r.kept → Binnable r.confidence) : ∃ fitted, refit log = .ok fitted := by
  rw [refit_eq]
  split_ifs with hnil
  · exact ⟨none, rfl⟩
  · obtain ⟨curves, hcurves⟩ := mapM_succeeds (f := fitKey log) (l := keys log) fun key _ => by
      have hgroup : ∀ r ∈ group log key, Binnable r.confidence := fun r hr => h r (mem_group log hr).1 (mem_group log hr).2.1
      obtain ⟨curve, hcurve, _⟩ := fitCurve_ok hgroup
      exact ⟨(key, curve), by rw [fitKey, hcurve]; rfl⟩
    exact ⟨some curves, by rw [hcurves]; rfl⟩

/-- The curves that are fitted: one for each model that has rows. -/
theorem find_refit {fitted : Option Curves} (h : refit log = .ok fitted) (key : String) :
    (group log key = [] → find (fitted.getD []) key = none) ∧
      (group log key ≠ [] → ∃ curve, find (fitted.getD []) key = some curve ∧ fitCurve (group log key) = .ok curve) := by
  rw [refit_eq] at h
  split_ifs at h with hnil
  · cases h
    exact ⟨fun _ => rfl, fun hne => absurd (by rw [group, hnil]; rfl) hne⟩
  · cases hcurves : (keys log).mapM (fitKey log) with
    | error e =>
      rw [hcurves] at h
      cases h
    | ok curves =>
      rw [hcurves] at h
      cases h
      have hfind := find_mapM (fitKey_fst log) hcurves key
      rw [mem_keys, not_not] at hfind
      refine ⟨hfind.1, fun hne => ?_⟩
      obtain ⟨curve, hcurve, hfit⟩ := hfind.2 hne
      obtain ⟨fitted, hfitted, hfit⟩ := Py.ok_of_bind hfit
      cases hfit
      exact ⟨curve, hcurve, hfitted⟩

theorem binnable_of_refit {fitted : Option Curves} (h : refit log = .ok fitted) :
    ∀ r ∈ loadSelfReportedRows log, r.kept → Binnable r.confidence := by
  intro r hr hkept
  have hmem : r ∈ group log r.key := List.mem_filter.mpr ⟨hr, by simp [hkept]⟩
  obtain ⟨curve, _, hfit⟩ := (find_refit log h r.key).2 (List.ne_nil_of_mem hmem)
  exact binnable_of_fitCurve hfit r hmem

end

/-! ### Looking up -/

theorem laplace_between {correct total : ℕ} {smoothing : ℕ × ℕ} (h : correct ≤ total) (hpos : 0 < smoothing.1) (hlt : smoothing.1 < smoothing.2) :
    0 < laplace correct total smoothing ∧ laplace correct total smoothing < 1 := by
  have hnum : (0 : ℚ) < correct + smoothing.1 := by exact_mod_cast Nat.add_pos_right correct hpos
  have hden : (correct : ℚ) + smoothing.1 < total + smoothing.2 := by exact_mod_cast Nat.add_lt_add_of_le_of_lt h hlt
  exact ⟨div_pos hnum (hnum.trans hden), (div_lt_one (hnum.trans hden)).mpr hden⟩

theorem tally_le (rows : List Row) (i : Fin NUM_BINS) : (tally rows binOf i).correct ≤ (tally rows binOf i).total := by
  apply List.countP_mono_left
  intro r _ h
  simpa using (of_decide_eq_true h).1

theorem lookUp_eq {bins : List Bin} (hlen : bins.length = NUM_BINS) (raw : Py.Float) (smoothing : ℕ × ℕ) :
    lookUp bins raw smoothing = slot raw >>= fun i =>
      match bins[i]? with
      | some b => .ok (.fin (laplace b.correct b.total smoothing))
      | none => .error .index := by
  rw [lookUp, hlen, slot, bind_assoc]
  rfl

theorem lookUp_tallied {bins : List Bin} {rows : List Row} (h : Tallied bins rows) {raw : Py.Float} (hraw : Binnable raw)
    {smoothing : ℕ × ℕ} (hpos : 0 < smoothing.1) (hlt : smoothing.1 < smoothing.2) :
    ∃ q, lookUp bins raw smoothing = .ok (.fin q) ∧ 0 < q ∧ q < 1 := by
  obtain ⟨i, hi, hslot⟩ := (slot_iff raw).mpr hraw
  have hbin := h.counts ⟨i, hi⟩
  rw [lookUp_eq h.length, hslot]
  refine ⟨_, ?_, laplace_between (tally_le rows ⟨i, hi⟩) hpos hlt⟩
  change (match bins[i]? with | some b => _ | none => _) = _
  rw [hbin]

theorem binnable_of_lookUp {bins : List Bin} {rows : List Row} (h : Tallied bins rows) {raw value : Py.Float} {smoothing : ℕ × ℕ}
    (hl : lookUp bins raw smoothing = .ok value) : Binnable raw := by
  rw [lookUp_eq h.length] at hl
  obtain ⟨i, hslot, _⟩ := Py.ok_of_bind hl
  exact binnable_of_slot hslot

theorem coldStart_few {n : ℕ} (h : n < 5) : (coldStart n).2 = none := by
  have hfew : n ≤ COLD_START_UNCALIBRATED_MAX := Nat.le_of_lt_succ h
  rw [coldStart, if_pos hfew]

theorem coldStart_enough {n : ℕ} (h : 5 ≤ n) : ∃ smoothing : ℕ × ℕ, (coldStart n).2 = some smoothing ∧ 0 < smoothing.1 ∧
    smoothing.1 < smoothing.2 := by
  have henough : ¬ n ≤ COLD_START_UNCALIBRATED_MAX := Nat.not_le.mpr h
  rw [coldStart, if_neg henough]
  split_ifs
  · exact ⟨(2, 4), rfl, by decide, by decide⟩
  · exact ⟨(1, 2), rfl, by decide, by decide⟩

section
variable {log : Log} {raw : Py.Float} {provider model faultClass : String} {fitted : Option Curves}

/-- A model without rows: the raw confidence. -/
theorem looked_none (h : refit log = .ok fitted) (hnil : group log (provider ++ ":" ++ model) = []) :
    getCalibratedConfidence raw provider model faultClass (fitted.getD []) = .ok (raw, "self_reported_uncalibrated") := by
  rw [getCalibratedConfidence, (find_refit log h _).1 hnil]
  rfl

/-- A model with a few rows: its curve has no smoothing. -/
theorem looked_few (h : refit log = .ok fitted) (hne : group log (provider ++ ":" ++ model) ≠ [])
    (hfew : (group log (provider ++ ":" ++ model)).length < 5) :
    getCalibratedConfidence raw provider model faultClass (fitted.getD []) = .error .type := by
  obtain ⟨curve, hfind, hfit⟩ := (find_refit log h _).2 hne
  obtain ⟨curve', hfit', hsmoothing, _⟩ := fitCurve_ok (binnable_of_fitCurve hfit)
  cases hfit.symm.trans hfit'
  rw [coldStart_few hfew] at hsmoothing
  rw [getCalibratedConfidence, hfind]
  simp only [hsmoothing]
  rfl

/-- A model with enough rows: a value of one of its bins. -/
theorem looked_enough (raw : Py.Float) (faultClass : String) (h : refit log = .ok fitted)
    (henough : 5 ≤ (group log (provider ++ ":" ++ model)).length) :
    ∃ bins rows smoothing tag, Tallied bins rows ∧ 0 < smoothing.1 ∧ smoothing.1 < smoothing.2 ∧
      getCalibratedConfidence raw provider model faultClass (fitted.getD []) = (lookUp bins raw smoothing).map fun value => (value, tag) := by
  obtain ⟨curve, hfind, hfit⟩ := (find_refit log h _).2 (List.ne_nil_of_length_pos (Nat.lt_of_lt_of_le (by decide) henough))
  obtain ⟨curve', hfit', hsmoothing, hmodel, hpairs⟩ := fitCurve_ok (binnable_of_fitCurve hfit)
  cases hfit.symm.trans hfit'
  obtain ⟨smoothing, hs, hpos, hlt⟩ := coldStart_enough henough
  rw [hs] at hsmoothing
  have hlooked : ∀ bins, (match find curve.perClassPairs faultClass with
      | some pair => pair.bins
      | none => curve.perModelBins) = bins →
      getCalibratedConfidence raw provider model faultClass (fitted.getD []) = (lookUp bins raw smoothing).map fun value => (value, curve.tag) := by
    rintro _ rfl
    rw [getCalibratedConfidence, hfind]
    simp only [hsmoothing, pure_bind]
    generalize lookUp _ raw smoothing = x
    cases x <;> rfl
  cases hpair : find curve.perClassPairs faultClass with
  | none =>
    rw [hpair] at hlooked
    exact ⟨_, _, smoothing, curve.tag, hmodel, hpos, hlt, hlooked _ rfl⟩
  | some pair =>
    rw [hpair] at hlooked
    obtain ⟨rows', htally⟩ := hpairs _ _ hpair
    exact ⟨_, rows', smoothing, curve.tag, htally, hpos, hlt, hlooked _ rfl⟩

end

section
variable (log : Log) (raw : Py.Float) (provider model faultClass : String)

theorem fittable_of_calibrated (h : Calibrated log raw provider model faultClass) : Fittable log raw provider model := by
  obtain ⟨fitted, hfit⟩ := h.fits
  refine ⟨binnable_of_refit log hfit, ?_⟩
  by_cases hnil : group log (provider ++ ":" ++ model) = []
  · exact .inl hnil
  · obtain ⟨value, tag, hvalue, _⟩ := h.looked fitted hfit
    by_cases hfew : (group log (provider ++ ":" ++ model)).length < 5
    · rw [looked_few hfit hnil hfew] at hvalue
      cases hvalue
    · have henough := Nat.le_of_not_lt hfew
      obtain ⟨bins, rows, smoothing, tag', htally, _, _, hlooked⟩ := looked_enough raw faultClass hfit henough
      rw [hlooked] at hvalue
      cases hl : lookUp bins raw smoothing with
      | error e =>
        rw [hl] at hvalue
        cases hvalue
      | ok v => exact .inr ⟨henough, binnable_of_lookUp htally hl⟩

/-- Calibration is total and conservative exactly when each confidence can be binned and no model that has a curve has too few
rows for it: the curve of a few rows has no smoothing, and looking it up raises. -/
theorem calibrated_iff : Calibrated log raw provider model faultClass ↔ Fittable log raw provider model := by
  constructor
  · exact fittable_of_calibrated log raw provider model faultClass
  · rintro ⟨hbinnable, hraw⟩
    constructor
    case fits => exact refit_succeeds log hbinnable
    case counted =>
      intro curves hfit r hr hkept
      have hmem : r ∈ group log r.key := List.mem_filter.mpr ⟨hr, by simp [hkept]⟩
      obtain ⟨curve, hfind, hcurve⟩ := (find_refit log hfit r.key).2 (List.ne_nil_of_mem hmem)
      obtain ⟨curve', hcurve', _, htally, _⟩ := fitCurve_ok (binnable_of_fitCurve hcurve)
      cases hcurve.symm.trans hcurve'
      exact ⟨curve, binOf, hfind, htally.counts⟩
    case looked =>
      intro fitted hfit
      rcases hraw with hnil | ⟨henough, hraw⟩
      · refine ⟨raw, _, looked_none hfit hnil, fun henough => ?_, fun _ => rfl⟩
        rw [hnil] at henough
        exact absurd henough (by decide)
      · obtain ⟨bins, rows, smoothing, tag, htally, hpos, hlt, hlooked⟩ := looked_enough raw faultClass hfit henough
        obtain ⟨q, hq, hbetween⟩ := lookUp_tallied htally hraw hpos hlt
        exact ⟨.fin q, tag, by rw [hlooked, hq]; rfl, fun _ => ⟨q, rfl, hbetween⟩, fun hfew => absurd hfew (Nat.not_lt.mpr henough)⟩

end

/-- One diagnosis, right and sure. -/
def oneDiagnosis : Log where
  diagnoses := [⟨some "groq", some "openai/gpt-oss-120b", "oom", some "oom", some (.fin (9 / 10)), some "self_reported"⟩]
  comparisons := []
  episodes := []

theorem oneDiagnosis_raises : ¬ Calibrated oneDiagnosis (.fin (9 / 10)) "groq" "openai/gpt-oss-120b" "oom" := by
  intro h
  rcases (fittable_of_calibrated _ _ _ _ _ h).2 with hnil | ⟨henough, _⟩
  · exact absurd hnil (by decide)
  · exact absurd henough (by decide)

end Wardence.Calibration
