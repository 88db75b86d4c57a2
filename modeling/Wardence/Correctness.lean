import Wardence.Substitution
/-!
# Is a diagnosis right?

The comparisons made of a diagnosis with the truth: `diagnosis_matches` of the
scorer, Dimension B's and the logged one next to it, the replay's
(`llm_replay_test.py`) and the publisher's (`publish_to_r2.py`). They agree on
the names of the roster and on wrong names, not on a second spelling.
-/
namespace Wardence.Correctness

open Grades

/-! ## The replay and the publisher -/

/-- `_same_diagnosis` where a side may be absent. -/
def sameDiagnosis? : Option String → Option String → Bool
  | some a, some b => sameDiagnosis a b
  | _, _ => false

/-- What the replay logs of a diagnosis, of `matches_ground_truth`. -/
def replayMatches (llmDiagnosis : Option String) (actual : String) : Option Bool :=
  (truthy llmDiagnosis).map fun d => sameDiagnosis? (some d) (some actual)

/-- `_is_correct`. -/
def isCorrect (predicted : Option String) (actual : String) : Bool :=
  predicted = some actual ||
    (predicted.any (· ∈ ["none", "no anomaly detected"]) && actual ∈ ["none", "no anomaly detected"])

/-! ## Spellings -/

/-- `d` means the class `c`, but is not its name. -/
def OtherSpelling (d c : String) : Prop :=
  d ≠ c ∧ (Py.lower (Py.strip d) = c ∨ c = "none" ∧ Py.lower (Py.strip d) = "no anomaly detected")

instance (d c : String) : Decidable (OtherSpelling d c) := instDecidableAnd

/-- The roster is written as `strip` and `lower` leave it. -/
theorem normal_of_mem : ∀ c ∈ FAULT_CLASSES, Py.lower (Py.strip c) = c := by decide +kernel

theorem not_stub_label : ∀ c ∈ FAULT_CLASSES, c ≠ "no anomaly detected" := by decide +kernel

/-- A diagnosis matches a class by its name or by another spelling. -/
theorem diagnosisMatches_iff {c : String} (hc : c ∈ FAULT_CLASSES) (d : String) :
    diagnosisMatches d c = true ↔ d = c ∨ OtherSpelling d c := by
  have hn := normal_of_mem c hc
  constructor
  · intro h
    by_cases hd : d = c
    · exact .inl hd
    · refine .inr ⟨hd, ?_⟩
      simp only [diagnosisMatches, hn] at h
      split at h
      · rename_i h0
        rcases List.mem_pair.1 (of_decide_eq_true h) with h1 | h1
        · exact .inr ⟨h0, h1⟩
        · exact .inl (h1.trans h0.symm)
      · exact .inl (of_decide_eq_true h)
  · rintro (rfl | ⟨-, h | ⟨rfl, h⟩⟩)
    · exact Substitution.matches_self d
    · rw [diagnosisMatches, hn, h]
      by_cases h0 : c = "none" <;> simp [h0]
    · simp [diagnosisMatches, hn, h]

/-- Dimension B, and the logged bit, know a class by its name only. -/
theorem beq_eq_matches {c : String} (hc : c ∈ FAULT_CLASSES) (d : String) :
    (d == c) = diagnosisMatches d c ↔ ¬ OtherSpelling d c := by
  rw [Bool.eq_iff_iff, beq_iff_eq, diagnosisMatches_iff hc]
  exact ⟨fun h hs => hs.1 (h.2 (.inr hs)), fun h => ⟨.inl, fun h' => h'.resolve_right h⟩⟩

/-- The replay also knows the control case by the stub's label. -/
theorem sameDiagnosis_iff {c : String} (hc : c ∈ FAULT_CLASSES) (d : String) :
    sameDiagnosis d c = true ↔ d = c ∨ c = "none" ∧ d = "no anomaly detected" := by
  have hl := not_stub_label c hc
  simp only [sameDiagnosis, Bool.or_eq_true, Bool.and_eq_true, decide_eq_true_eq, List.mem_pair]
  grind

theorem sameDiagnosis_eq_matches {c : String} (hc : c ∈ FAULT_CLASSES) {d : String} (h : ¬ OtherSpelling d c) :
    sameDiagnosis d c = diagnosisMatches d c := by
  rw [Bool.eq_iff_iff, sameDiagnosis_iff hc, diagnosisMatches_iff hc]
  constructor
  · rintro (rfl | ⟨rfl, rfl⟩)
    · exact .inl rfl
    · exact absurd (by decide) h
  · exact fun h' => .inl (h'.resolve_right h)

theorem isCorrect_eq_sameDiagnosis (d c : String) : isCorrect (some d) c = sameDiagnosis d c := by
  simp [isCorrect, sameDiagnosis]

theorem truthy_some {d : String} (h : d ≠ "") : truthy (some d) = some d := by
  simp [truthy, h]

/-! ## One notion -/

/-- Whatever is made of the diagnosis `d` of an episode of class `c` is `diagnosis_matches`. -/
structure OneNotion (d c : String) : Prop where
  /-- What Dimension B counts, for a diagnosis it counts. -/
  dimensionB (ep : EpisodeRow) (r : Result) : ep.faultClass = c → r.diag.llmResult.llmDiagnosis = some d →
    r.diag.llmResult.status = .diagnosed → eligibleForTrustLadder r.diag.llmResult.tier = true →
    outcomeB ep r = some (diagnosisMatches d c)
  /-- `matches_ground_truth`. -/
  logged (e : String) (r : Result) : r.diag.llmResult.llmDiagnosis = some d →
    (diagnosisLogRow e c r).matchesGroundTruth = some (diagnosisMatches d c)
  replayed : replayMatches (some d) c = some (diagnosisMatches d c)
  published : isCorrect (some d) c = diagnosisMatches d c

/-- An answer with a diagnosis of the model that Dimension B counts. -/
def counted (d : String) : Result :=
  { diag := diagnose {} "" "" none ⟨"", none, none⟩ ⟨.diagnosed, some d, none, none, none, none, some .primary⟩
    act := {} }

/-- The comparisons agree just where the diagnosis is not empty and no other spelling of the class. -/
theorem oneNotion_iff {c : String} (hc : c ∈ FAULT_CLASSES) (d : String) :
    OneNotion d c ↔ d ≠ "" ∧ ¬ OtherSpelling d c := by
  constructor
  · intro h
    constructor
    · rintro rfl
      cases h.replayed
    · have hb := h.dimensionB ⟨c, "", "", 0⟩ (counted d) rfl rfl rfl rfl
      exact (beq_eq_matches hc d).1 (Option.some.inj hb)
  · rintro ⟨hd, hs⟩
    have hsame := sameDiagnosis_eq_matches hc hs
    refine ⟨?_, ?_, ?_, ?_⟩
    · rintro ep r rfl hd hstatus htier
      rw [outcomeB, if_pos ⟨hstatus, htier⟩, hd, ← (beq_eq_matches hc d).2 hs]
      rfl
    · intro e r hr
      simp only [diagnosisLogRow, hr, truthy_some hd, Option.map_some, (beq_eq_matches hc d).2 hs]
    · rw [replayMatches, truthy_some hd, ← hsame]
      rfl
    · rw [isCorrect_eq_sameDiagnosis, hsame]

theorem oneNotion_oom : OneNotion "oom" "oom" := (oneNotion_iff (by decide +kernel) "oom").2 (by decide +kernel)

/-- A control episode called by the stub's label: `diagnosis_matches` accepts it, Dimension B does not. -/
theorem stub_label_split : ¬ ∀ d, ∀ c ∈ FAULT_CLASSES, OneNotion d c := by
  intro h
  have hb := (h "no anomaly detected" "none" (by decide)).dimensionB ⟨"none", "", "", 0⟩ (counted _) rfl rfl rfl rfl
  exact absurd hb (by decide +kernel)

end Wardence.Correctness
