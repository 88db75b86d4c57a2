import Wardence.Verdict
/-!
# What a recording grades

The trust state, the two LLM ladders and the log of failures are what the agent
is graded by. A recording leaves in them exactly what the judgement, the LLM's
diagnosis and the verdict on its proposal say; of the dispatched action it keeps
only whether there was one.
-/
namespace Wardence.Grades

open Keyed Txn Client Recording Verdict

/-- The outcome of an episode in Dimension B, where it has one. -/
def outcomeB (ep : EpisodeRow) (r : Result) : Option Bool :=
  if r.diag.llmResult.status = .diagnosed ∧ eligibleForTrustLadder r.diag.llmResult.tier = true then
    some (r.diag.llmResult.llmDiagnosis == some ep.faultClass)
  else none

/-- The outcome in Dimension C. -/
def outcomeC (liveCpu : String → String → Option ℚ) (ep : EpisodeRow) (r : Result) : Option Bool := do
  let p ← r.act.llmActionProposal
  let v ← verdict liveCpu ep.faultClass p r.diag.toolOutput
  let correct ← v.toOption
  if eligibleActionForStreak p.tier then some correct else none

/-- Dimension B's table after an outcome of class `c`, or none. -/
def gradedB (y : Db) (c : String) : Option Bool → Table String (Rung DiagMode)
  | none => y.diagnoserMode
  | some correct => y.diagnoserMode.insert c ((y.diag c).afterResult .stub .llm 5 correct)

/-- Dimension C's. -/
def gradedC (y : Db) (c : String) : Option Bool → Table String (Rung ActionTrust)
  | none => y.actionTrust
  | some correct => y.actionTrust.insert c ((y.action c).afterResult .deterministicFallback .llmCanAct 5 correct)

/-- The row of an outcome in Dimension B's history. -/
def rowB (y : Db) (e c : String) (correct : Bool) : HistoryRow DiagMode :=
  let after := (y.diag c).afterResult .stub .llm 5 correct
  ⟨some e, c, correct, (y.diag c).state, after.state, (y.diag c).streak, after.streak⟩

/-- In Dimension C's. -/
def rowC (y : Db) (e c : String) (correct : Bool) : HistoryRow ActionTrust :=
  let after := (y.action c).afterResult .deterministicFallback .llmCanAct 5 correct
  ⟨some e, c, correct, (y.action c).state, after.state, (y.action c).streak, after.streak⟩

/-- What `record_llm_trust` leaves of the grades. -/
structure Graded (x : Run) (ep : EpisodeRow) (r : Result) (y y' : Db) : Prop where
  trustState : y'.trustState = y.trustState
  failureLog : y'.failureLog = y.failureLog
  diagnoserMode : y'.diagnoserMode = gradedB y ep.faultClass (outcomeB ep r)
  actionTrust : y'.actionTrust = gradedC y ep.faultClass (outcomeC x.liveCpu ep r)

/-- What it leaves of their histories. -/
structure Told (x : Run) (e : String) (ep : EpisodeRow) (r : Result) (y y' : Db) : Prop where
  trustHistory : y'.trustHistory = y.trustHistory
  diagnoserModeHistory : y'.diagnoserModeHistory =
    y.diagnoserModeHistory ++ (outcomeB ep r).toList.map (rowB y e ep.faultClass)
  actionTrustHistory : y'.actionTrustHistory =
    y.actionTrustHistory ++ (outcomeC x.liveCpu ep r).toList.map (rowC y e ep.faultClass)

theorem run_recordDimensionB_graded (e : String) (ep : EpisodeRow) (r : Result) (y : Db) :
    run (recordDimensionB e ep.faultClass r.diag.llmResult) (.idle y) = (.ok (), .idle { y with
      diagnoserMode := gradedB y ep.faultClass (outcomeB ep r)
      diagnoserModeHistory := y.diagnoserModeHistory ++ (outcomeB ep r).toList.map (rowB y e ep.faultClass) }) := by
  unfold recordDimensionB outcomeB
  split
  · rfl
  · simp [gradedB]

theorem run_recordVerdict_graded (e : String) (ep : EpisodeRow) (p : Proposal) (v : Option (Except PyErr Bool)) (y : Db) :
    let o : Option Bool := do
      let correct ← (← v).toOption
      if eligibleActionForStreak p.tier then some correct else none
    ∃ res l, run (recordVerdict e ep p v) (.idle y) = (res, .idle { y with
      actionTrust := gradedC y ep.faultClass o
      actionTrustHistory := y.actionTrustHistory ++ o.toList.map (rowC y e ep.faultClass)
      llmActionProposalLog := l }) := by
  have silent : y.actionTrustHistory ++ (none : Option Bool).toList.map (rowC y e ep.faultClass) = y.actionTrustHistory := by
    simp
  cases v with
  | none => exact ⟨_, _, by simp only [Option.bind_eq_bind, Option.bind_none, silent]; rfl⟩
  | some v =>
    cases v with
    | error err =>
      exact ⟨_, _, by simp only [Option.bind_eq_bind, Option.bind_some, Except.toOption, Option.bind_none, silent]; rfl⟩
    | ok correct =>
      by_cases h : eligibleActionForStreak p.tier = true
      · simp only [recordVerdict, if_pos h]
        exact ⟨_, _, by simp [Except.toOption]; rfl⟩
      · simp only [recordVerdict, if_neg h]
        exact ⟨_, _, by simp only [Option.bind_eq_bind, Option.bind_some, Except.toOption, silent]; rfl⟩

theorem run_recordDimensionC_graded (x : Run) (e : String) (ep : EpisodeRow) (r : Result) (y : Db) :
    ∃ res l, run (recordDimensionC x e ep r) (.idle y) = (res, .idle { y with
      actionTrust := gradedC y ep.faultClass (outcomeC x.liveCpu ep r)
      actionTrustHistory := y.actionTrustHistory ++ (outcomeC x.liveCpu ep r).toList.map (rowC y e ep.faultClass)
      llmActionProposalLog := l }) := by
  rw [recordDimensionC_eq]
  unfold outcomeC
  cases r.act.llmActionProposal with
  | none => exact ⟨.ok (), y.llmActionProposalLog, by simp [gradedC]⟩
  | some p => exact run_recordVerdict_graded e ep p (verdict x.liveCpu ep.faultClass p r.diag.toolOutput) y

theorem run_recordLlmTrust_graded (x : Run) (e : String) (ep : EpisodeRow) (r : Result) (y : Db) :
    ∃ res y', run (recordLlmTrust x e ep r) (.idle y) = (res, .idle y') ∧ Graded x ep r y y' ∧ Told x e ep r y y' := by
  let y1 : Db := { y with llmDiagnosisLog := y.llmDiagnosisLog ++ [diagnosisLogRow e ep.faultClass r] }
  have hB := run_recordDimensionB_graded e ep r y1
  obtain ⟨res, l, hC⟩ := run_recordDimensionC_graded x e ep r { y1 with
    diagnoserMode := gradedB y1 ep.faultClass (outcomeB ep r)
    diagnoserModeHistory := y1.diagnoserModeHistory ++ (outcomeB ep r).toList.map (rowB y1 e ep.faultClass) }
  exact ⟨res, _, (run_bind_ok hB _).trans hC, ⟨rfl, rfl, rfl, rfl⟩, ⟨rfl, rfl, rfl⟩⟩

/-- The misdispatch guard grades nothing. -/
theorem run_recordTrust_graded {j : Judged} {ep : EpisodeRow} (hj : j.trustCorrect.isSome = true → HasPolicy ep.faultClass)
    (x : Run) (e : String) (r : Result) (predicted : String) (y : Db) :
    ∃ res y', run (recordTrust x e ep r predicted j) (.idle y) = (res, .idle y') ∧
      Graded x ep r (outcomeOf y ep.faultClass e j.trustCorrect) y' ∧
      Told x e ep r (outcomeOf y ep.faultClass e j.trustCorrect) y' := by
  obtain ⟨holds, h⟩ := run_recordTrust_llm hj x e r predicted y
  obtain ⟨res, y', h', hg, ht⟩ := run_recordLlmTrust_graded x e ep r _
  exact ⟨res, y', h.trans h', ⟨hg.trustState, hg.failureLog, hg.diagnoserMode, hg.actionTrust⟩,
    ⟨ht.trustHistory, ht.diagnoserModeHistory, ht.actionTrustHistory⟩⟩

section Remainder
variable {x : Run} {e : String} {ep : EpisodeRow} {r : Result} {predicted : String} {j : Judged} {y : Db}

/-- From the judgement on, the grades of a recording and their histories. -/
theorem remainder_told (hj : j.trustCorrect.isSome = true → HasPolicy ep.faultClass) (h1 : e ∉ y.scores)
    (h2 : e ∉ y.episodeSnapshots) :
    let y' := (run (remainder x e ep r predicted j) (.idle y)).2.committed
    Graded x ep r (outcomeOf y ep.faultClass e j.trustCorrect) y' ∧
      Told x e ep r (outcomeOf y ep.faultClass e j.trustCorrect) y' := by
  let y1 := Recording.scored y e (scoresRow ep r predicted (diagnosisMatches predicted ep.faultClass) j) (snapshotRow r j)
  obtain ⟨res, y', hrun, hg, ht⟩ := run_recordTrust_graded hj x e r predicted y1
  have hall : run (remainder x e ep r predicted j) (.idle y) = (res, .idle y') :=
    (run_bind_ok (run_insertScored h1 h2 _ _) _).trans hrun
  simp only [hall]
  rw [outcomeOf_scored] at hg ht
  exact ⟨⟨hg.trustState, hg.failureLog, hg.diagnoserMode, hg.actionTrust⟩,
    ⟨ht.trustHistory, ht.diagnoserModeHistory, ht.actionTrustHistory⟩⟩

theorem remainder_graded (hj : j.trustCorrect.isSome = true → HasPolicy ep.faultClass) (h1 : e ∉ y.scores)
    (h2 : e ∉ y.episodeSnapshots) :
    Graded x ep r (outcomeOf y ep.faultClass e j.trustCorrect) (run (remainder x e ep r predicted j) (.idle y)).2.committed :=
  (remainder_told hj h1 h2).1

end Remainder

end Wardence.Grades
