import Wardence.Effects
import Wardence.Failures
/-!
# The recording phase

What the rest of a run does, alone, once the agent has answered: each function
of the recording as what it leaves of the database. A run that does not know the
true class's policy dies after its row of `scores` (`record_completes_iff`); one
that trips the breaker grants nothing back (`trip_survives`).
-/
namespace Wardence.Recording

open Keyed Txn Client Episodes Failures Dispatch

/-! ## Recording a failure -/

/-- The database with one more failure. -/
def failed (db : Db) (f : FailureRow) : Db := { db with failureLog := db.failureLog ++ [f] }

theorem run_recordFailure (behalf : Option String) (now later : Nat) (reason : String) (c : Option String) (db : Db) :
    ∃ b, run (recordFailure behalf now later reason c) (.idle db) =
        (.ok b, .idle (if b.tripped then (failed db ⟨reason, c, now⟩).trip else failed db ⟨reason, c, now⟩)) ∧
      (b.tripped = true ↔ FAILURE_THRESHOLD ≤ (failed db ⟨reason, c, now⟩).recentFailures later) := by
  by_cases h : FAILURE_THRESHOLD ≤ (failed db ⟨reason, c, now⟩).recentFailures later
  · exact ⟨_, run_check_trip (k := .idle (failed db ⟨reason, c, now⟩)) h, iff_of_true rfl h⟩
  · exact ⟨_, run_check_quiet (k := .idle (failed db ⟨reason, c, now⟩)) (Nat.lt_of_not_le h), iff_of_false Bool.false_ne_true h⟩

/-- Neither a failure nor a trip touches what a run records elsewhere. -/
theorem failed_frame (db : Db) (f : FailureRow) (tripped : Bool) :
    let y := if tripped then (failed db f).trip else failed db f
    y.scores = db.scores ∧ y.episodeSnapshots = db.episodeSnapshots ∧ y.misdispatchLog = db.misdispatchLog ∧
      y.llmDiagnosisLog = db.llmDiagnosisLog := by
  cases tripped with
  | false => exact ⟨rfl, rfl, rfl, rfl⟩
  | true => simp only [if_true]; rw [trip_frame]; exact ⟨rfl, rfl, rfl, rfl⟩

/-! ## Recording the LLM's trust -/

/-- `y'` is `y` with an outcome more in Dimension B, or not. -/
def MayRecordB (y y' : Db) : Prop := y' = y ∨ ∃ c correct e, y' = y.diagnoserOutcome c correct e

/-- `y'` is `y` with an outcome more in Dimension C, or not. -/
def MayRecordC (y y' : Db) : Prop := y' = y ∨ ∃ c correct e, y' = y.actionOutcome c correct e

theorem run_recordDimensionB (e actual : String) (llm : LlmResult) (y : Db) :
    ∃ y', run (recordDimensionB e actual llm) (.idle y) = (.ok (), .idle y') ∧ MayRecordB y y' := by
  unfold recordDimensionB
  split
  · obtain ⟨t, ht⟩ := run_recordDiagnoserOutcome actual (llm.llmDiagnosis == some actual) (some e) (.idle y)
    exact ⟨_, run_bind_ok ht _, .inr ⟨_, _, _, rfl⟩⟩
  · exact ⟨y, rfl, .inl rfl⟩

/-- A magnitude check raises only on a measurement that is no number. -/
theorem checkSafe_measured {toolOutput : Option Py.Dict} (h : Measured toolOutput) (liveCpu : String → String → Option ℚ)
    (tool : String) (params : Py.Dict) (c : String) : ∃ s, checkSafe liveCpu tool params c toolOutput = .ok s := by
  have number {field : String} (hf : field ∈ ["peak_memory_mib", "current_replicas"]) (n : Option ℚ)
      (hn : measured toolOutput field ≠ .none) : ∃ q, maxNum (measured toolOutput field) n = .ok q := by
    obtain ⟨q, hq⟩ := Option.isSome_iff_exists.1 ((h field hf).resolve_left hn)
    exact ⟨_, by unfold maxNum; rw [hq]⟩
  unfold checkSafe
  split
  · unfold checkMemory
    split
    · exact ⟨_, rfl⟩
    · rename_i hn
      cases toMi (params.get "limit") with
      | none => exact ⟨_, rfl⟩
      | some proposed =>
        obtain ⟨q, hq⟩ := number (by simp) (toMi (.str OOM_BASELINE_MEMORY_LIMIT)) hn
        exact ⟨_, by simp only [hq]; rfl⟩
  · split
    · exact ⟨_, rfl⟩
    · split
      · unfold checkReplicas
        split
        · exact ⟨_, rfl⟩
        · split
          · exact ⟨_, rfl⟩
          · rename_i hn
            split
            · obtain ⟨q, hq⟩ := number (by simp) (some ((UNDER_PROVISIONED_VALIDATED_SAFE_REPLICAS - 1 : Nat) : ℚ)) hn
              exact ⟨_, by simp only [hq]; rfl⟩
            · exact ⟨_, rfl⟩
      · exact ⟨_, rfl⟩

theorem actionIsCorrect_measured {toolOutput : Option Py.Dict} (h : Measured toolOutput)
    (liveCpu : String → String → Option ℚ) (c tool : String) (params : Py.Dict) (groundTruthTool : String) :
    ∃ ok, actionIsCorrect liveCpu c tool params groundTruthTool toolOutput = .ok ok := by
  unfold actionIsCorrect
  split
  · exact ⟨_, rfl⟩
  · split
    · exact ⟨_, rfl⟩
    · obtain ⟨s, hs⟩ := checkSafe_measured h liveCpu tool params c
      exact ⟨_, by rw [hs]; rfl⟩

theorem run_logProposal (e : String) (ep : EpisodeRow) (p : Proposal) (tool : String) (y : Db) :
    ∃ l, run (logProposal e ep p tool) (.idle y) = (.ok (), .idle { y with llmActionProposalLog := l }) := ⟨_, rfl⟩

theorem run_recordDimensionC (x : Run) (e : String) (ep : EpisodeRow) (r : Result) (y : Db) :
    ∃ res y' l, run (recordDimensionC x e ep r) (.idle y) = (res, .idle y') ∧
      MayRecordC { y with llmActionProposalLog := l } y' ∧ (Measured r.diag.toolOutput → res = .ok ()) := by
  unfold recordDimensionC
  cases r.act.llmActionProposal with
  | none => exact ⟨_, y, _, rfl, .inl rfl, fun _ => rfl⟩
  | some p =>
    simp only
    split
    · rename_i tool fix _ _
      obtain ⟨l, hl⟩ := run_logProposal e ep p tool y
      rw [run_bind_ok hl]
      cases hok : actionIsCorrect x.liveCpu ep.faultClass tool (p.params.getD ∅) fix.tool r.diag.toolOutput with
      | error err =>
        refine ⟨_, _, l, rfl, .inl rfl, fun hm => ?_⟩
        obtain ⟨ok, h⟩ := actionIsCorrect_measured hm x.liveCpu ep.faultClass tool (p.params.getD ∅) fix.tool
        cases hok.symm.trans h
      | ok correct =>
        simp only
        split
        · obtain ⟨t, ht⟩ := run_recordActionOutcome ep.faultClass correct (some e) (.idle { y with llmActionProposalLog := l })
          exact ⟨_, _, l, run_bind_ok ht _, .inr ⟨_, _, _, rfl⟩, fun _ => rfl⟩
        · exact ⟨_, _, l, rfl, .inl rfl, fun _ => rfl⟩
    · exact ⟨_, y, _, rfl, .inl rfl, fun _ => rfl⟩

/-- What `record_llm_trust` leaves. -/
structure LlmRecorded (row : DiagnosisLogRow) (y y' : Db) : Prop where
  trust : ∀ c, y'.trust c = y.trust c
  misdispatchLog : y'.misdispatchLog = y.misdispatchLog
  diagnosisLog : y'.llmDiagnosisLog = y.llmDiagnosisLog ++ [row]
  diag : ∀ c, y'.diag c = y.diag c ∨ ∃ correct, y'.diag c = (y.diag c).afterResult .stub .llm 5 correct
  action : ∀ c, y'.action c = y.action c ∨
    ∃ correct, y'.action c = (y.action c).afterResult .deterministicFallback .llmCanAct 5 correct

theorem run_recordLlmTrust (x : Run) (e : String) (ep : EpisodeRow) (r : Result) (y : Db) :
    ∃ res y', run (recordLlmTrust x e ep r) (.idle y) = (res, .idle y') ∧
      LlmRecorded (diagnosisLogRow e ep.faultClass r) y y' ∧ (Measured r.diag.toolOutput → res = .ok ()) := by
  let y1 : Db := { y with llmDiagnosisLog := y.llmDiagnosisLog ++ [diagnosisLogRow e ep.faultClass r] }
  obtain ⟨y2, h2, hB⟩ := run_recordDimensionB e ep.faultClass r.diag.llmResult y1
  obtain ⟨res, y3, l, h3, hC, hres⟩ := run_recordDimensionC x e ep r y2
  refine ⟨res, y3, (run_bind_ok h2 _).trans h3, ?_, hres⟩
  have hb (c : String) : y2.diag c = y.diag c ∨ ∃ correct, y2.diag c = (y.diag c).afterResult .stub .llm 5 correct := by
    rcases hB with rfl | ⟨f, correct, b, rfl⟩
    · exact .inl rfl
    · by_cases hc : c = f
      · exact .inr ⟨correct, (diag_insert y1 f c _).trans (by rw [if_pos hc, hc]; rfl)⟩
      · exact .inl ((diag_insert y1 f c _).trans (if_neg hc))
  have same : y2.trustState = y.trustState ∧ y2.misdispatchLog = y.misdispatchLog ∧
      y2.llmDiagnosisLog = y1.llmDiagnosisLog ∧ y2.actionTrust = y.actionTrust := by
    rcases hB with rfl | ⟨f, correct, b, rfl⟩ <;> exact ⟨rfl, rfl, rfl, rfl⟩
  have ha (c : String) : y2.action c = y.action c := by unfold Db.action; rw [same.2.2.2]
  rcases hC with rfl | ⟨f, correct, b, rfl⟩
  · exact ⟨fun c => by unfold Db.trust; rw [← same.1], same.2.1, same.2.2.1, hb, fun c => .inl (ha c)⟩
  · refine ⟨fun c => by unfold Db.trust; rw [← same.1]; rfl, same.2.1, same.2.2.1, hb, fun c => ?_⟩
    by_cases hc : c = f
    · refine .inr ⟨correct, (action_insert _ f c _).trans ?_⟩
      rw [if_pos hc, hc, ← ha f]; rfl
    · exact .inl (((action_insert _ f c _).trans (if_neg hc)).trans (ha c))

/-! ## What follows the row of `scores` -/

theorem run_recordMisdispatch (now later : Nat) (e predicted actual : String) (y : Db) :
    ∃ m holds, run (recordMisdispatch now later e predicted actual) (.idle y) = (.ok m, .idle { y with
      misdispatchLog := y.misdispatchLog ++ [⟨e, predicted, actual, now⟩]
      safetyHold := holds }) := by
  let y1 : Db := { y with misdispatchLog := y.misdispatchLog ++ [⟨e, predicted, actual, now⟩] }
  have counted (n : Nat) : ∃ m holds, run (if MISDISPATCH_HOLD_THRESHOLD ≤ n then do
        let existing ← getSafetyHold predicted
        setSafetyHold later predicted true
          (some s!"{n} cross-class misdispatches in the last {MISDISPATCH_HOLD_WINDOW_HOURS}h")
        pure ⟨predicted, actual, n, !existing.active⟩
      else pure ⟨predicted, actual, n, false⟩ : Prog MisdispatchResult) (.idle y1) =
      (.ok m, .idle { y1 with safetyHold := holds }) := by
    split <;> exact ⟨_, _, rfl⟩
  exact counted (y1.recentMisdispatches predicted later)

/-- What `record_outcome` leaves when the episode has an outcome. -/
def outcomeOf (y : Db) (c e : String) (o : Option Bool) : Db :=
  match o with
  | some correct => y.outcome c correct (some e)
  | none => y

/-- What the rest of the recording leaves of `y`. -/
structure Recorded (x : Run) (e : String) (ep : EpisodeRow) (r : Result) (predicted : String) (y y' : Db) : Prop where
  trust : ∀ c, y'.trust c = y.trust c
  misdispatchLog : y'.misdispatchLog = y.misdispatchLog ++
    if Misdispatched ep r predicted then [⟨e, predicted, ep.faultClass, x.misdispatchedAt⟩] else []
  diagnosisLog : y'.llmDiagnosisLog = y.llmDiagnosisLog ++ [diagnosisLogRow e ep.faultClass r]
  diag : ∀ c, y'.diag c = y.diag c ∨ ∃ correct, y'.diag c = (y.diag c).afterResult .stub .llm 5 correct
  action : ∀ c, y'.action c = y.action c ∨
    ∃ correct, y'.action c = (y.action c).afterResult .deterministicFallback .llmCanAct 5 correct

/-- An outcome for a class without a policy is never recorded, and nothing after it. -/
theorem run_recordTrust_error {j : Judged} {ep : EpisodeRow} (hj : j.trustCorrect.isSome = true) (hp : ¬ HasPolicy ep.faultClass)
    (x : Run) (e : String) (r : Result) (predicted : String) (y : Db) :
    ∃ err, run (recordTrust x e ep r predicted j) (.idle y) = (.error err, .idle y) := by
  obtain ⟨correct, hc⟩ := Option.isSome_iff_exists.1 hj
  obtain ⟨err, herr⟩ := run_recordOutcome_error hp correct (some e) (.idle y)
  refine ⟨err, ?_⟩
  unfold recordTrust
  simp only [hc]
  exact run_bind_error herr _

/-- The misdispatch guard writes its log, and may hold the class; then the LLM is graded as ever. -/
theorem run_recordTrust_llm {j : Judged} {ep : EpisodeRow} (hj : j.trustCorrect.isSome = true → HasPolicy ep.faultClass)
    (x : Run) (e : String) (r : Result) (predicted : String) (y : Db) :
    ∃ holds, let y1 := outcomeOf y ep.faultClass e j.trustCorrect
      run (recordTrust x e ep r predicted j) (.idle y) = run (recordLlmTrust x e ep r) (.idle { y1 with
        misdispatchLog := y1.misdispatchLog ++
          if Misdispatched ep r predicted then [⟨e, predicted, ep.faultClass, x.misdispatchedAt⟩] else []
        safetyHold := holds }) := by
  have rest (y1 : Db) : ∃ holds, run (if Misdispatched ep r predicted then do
        ensureMisdispatchTables
        let _ ← recordMisdispatch x.misdispatchedAt x.countedAt e predicted ep.faultClass
        recordLlmTrust x e ep r
      else recordLlmTrust x e ep r : Prog Unit) (.idle y1) = run (recordLlmTrust x e ep r) (.idle { y1 with
        misdispatchLog := y1.misdispatchLog ++
          if Misdispatched ep r predicted then [⟨e, predicted, ep.faultClass, x.misdispatchedAt⟩] else []
        safetyHold := holds }) := by
    by_cases hm : Misdispatched ep r predicted
    · obtain ⟨m, holds, h1⟩ := run_recordMisdispatch x.misdispatchedAt x.countedAt e predicted ep.faultClass y1
      refine ⟨holds, ?_⟩
      rw [if_pos hm, if_pos hm]
      exact run_bind_ok h1 _
    · refine ⟨y1.safetyHold, ?_⟩
      rw [if_neg hm, if_neg hm, List.append_nil]
  unfold recordTrust outcomeOf
  cases hc : j.trustCorrect with
  | none => exact rest y
  | some correct =>
    obtain ⟨t, ht⟩ := run_recordOutcome (hj (by rw [hc]; rfl)) correct (some e) (.idle y)
    obtain ⟨holds, h⟩ := rest (y.outcome ep.faultClass correct (some e))
    exact ⟨holds, (run_bind_ok ht _).trans h⟩

theorem run_recordTrust {j : Judged} {ep : EpisodeRow} (hj : j.trustCorrect.isSome = true → HasPolicy ep.faultClass)
    (x : Run) (e : String) (r : Result) (predicted : String) (y : Db) :
    ∃ res y', run (recordTrust x e ep r predicted j) (.idle y) = (res, .idle y') ∧
      Recorded x e ep r predicted (outcomeOf y ep.faultClass e j.trustCorrect) y' ∧
      (Measured r.diag.toolOutput → res = .ok ()) := by
  obtain ⟨holds, h⟩ := run_recordTrust_llm hj x e r predicted y
  obtain ⟨res, y', h', hl, hres⟩ := run_recordLlmTrust x e ep r _
  exact ⟨res, y', h.trans h', ⟨hl.trust, hl.misdispatchLog, hl.diagnosisLog, hl.diag, hl.action⟩, hres⟩

/-! ## The row of `scores` -/

/-- The database with an episode's two rows. -/
def scored (db : Db) (e : String) (s : ScoresRow) (n : SnapshotRow) : Db :=
  { db with scores := db.scores.insert e s, episodeSnapshots := db.episodeSnapshots.insert e n }

theorem outcomeOf_scored (db : Db) (c e e' : String) (s : ScoresRow) (n : SnapshotRow) (o : Option Bool) :
    outcomeOf (scored db e s n) c e' o = scored (outcomeOf db c e' o) e s n := by
  cases o <;> rfl

theorem run_insertScored {db : Db} {e : String} (h1 : e ∉ db.scores) (h2 : e ∉ db.episodeSnapshots) (s : ScoresRow)
    (n : SnapshotRow) : run (insertScored e s n) (.idle db) = (.ok (), .idle (scored db e s n)) := by
  have hs : (Stmt.insertScores e s).app db = .ok { db with scores := db.scores.insert e s } := by
    simp [Stmt.app, Table.insertNew, h1]
  have hn : (Stmt.insertSnapshot e n).app { db with scores := db.scores.insert e s } = .ok (scored db e s n) := by
    simp [Stmt.app, Table.insertNew, h2, scored]
  unfold insertScored
  simp only [execute_bind]
  rw [run_exec_ok hs, run_exec_ok hn]
  rfl

/-- An episode with a row of either kind cannot be scored again, and nothing of the attempt is committed. -/
theorem run_insertScored_stale {db : Db} {e : String} (h : e ∈ db.scores ∨ e ∈ db.episodeSnapshots) (s : ScoresRow)
    (n : SnapshotRow) : ∃ err k, run (insertScored e s n) (.idle db) = (.error err, k) ∧ k.committed = db := by
  by_cases h1 : e ∈ db.scores
  · exact ⟨_, _, run_exec_error (by simp [Stmt.app, Table.insertNew, h1]; rfl) _, rfl⟩
  · have h2 : e ∈ db.episodeSnapshots := h.resolve_left h1
    refine ⟨.integrityError "episode_snapshots", ⟨db, { db with scores := db.scores.insert e s }⟩, ?_, rfl⟩
    unfold insertScored
    simp only [execute_bind]
    rw [run_exec_ok (v := { db with scores := db.scores.insert e s }) (by simp [Stmt.app, Table.insertNew, h1]),
      run_exec_error (e := .integrityError "episode_snapshots") (by simp [Stmt.app, Table.insertNew, h2])]
    rfl

/-- The rows go in together or not at all. -/
theorem run_insertScored_cases (db : Db) (e : String) (s : ScoresRow) (n : SnapshotRow) :
    run (insertScored e s n) (.idle db) = (.ok (), .idle (scored db e s n)) ∨
      ∃ err k, run (insertScored e s n) (.idle db) = (.error err, k) ∧ k.committed = db := by
  by_cases h : e ∈ db.scores ∨ e ∈ db.episodeSnapshots
  · exact .inr (run_insertScored_stale h s n)
  · obtain ⟨h1, h2⟩ := not_or.1 h
    exact .inl (run_insertScored h1 h2 s n)

/-! ## A run that cannot be recorded -/

/-- The rest of a recording, from the row of `scores` on. -/
def remainder (x : Run) (e : String) (ep : EpisodeRow) (r : Result) (predicted : String) (j : Judged) : Prog Unit := do
  insertScored e (scoresRow ep r predicted (diagnosisMatches predicted ep.faultClass) j) (snapshotRow r j)
  recordTrust x e ep r predicted j

theorem record_eq {r : Result} {predicted : String} (h : r.diag.diagnosis = some predicted) (x : Run) (e : String)
    (ep : EpisodeRow) : record x e ep r =
      judge x e ep r (diagnosisMatches predicted ep.faultClass) >>= remainder x e ep r predicted := by
  unfold record
  rw [h]
  rfl

/-- The agent's answer is recorded; without one, nothing is. -/
theorem run_score_ok {x : Run} {e : String} {ep : EpisodeRow} {r : Result} {db : Db} (h : x.answer db e ep = .ok r) :
    run (score x e ep) (.idle db) = run (record x e ep r) (.idle db) := by
  simp only [score, select_bind, run_read, Conn.idle_view, h]

theorem run_score_error {x : Run} {e : String} {ep : EpisodeRow} {err : PyErr} {db : Db}
    (h : x.answer db e ep = .error err) : run (score x e ep) (.idle db) = (.error err, .idle db) := by
  simp only [score, select_bind, run_read, Conn.idle_view, h]
  rfl

/-- The recording ends normally, and a misdispatch among what it recorded has its one row in each log. -/
def Completes (x : Run) (e : String) (ep : EpisodeRow) (r : Result) (db : Db) : Prop :=
  ∃ y, run (record x e ep r) (.idle db) = (.ok (), .idle y) ∧
    ∀ predicted, r.diag.diagnosis = some predicted → Misdispatched ep r predicted →
      y.misdispatchLog = db.misdispatchLog ++ [⟨e, predicted, ep.faultClass, x.misdispatchedAt⟩] ∧
      y.llmDiagnosisLog = db.llmDiagnosisLog ++ [diagnosisLogRow e ep.faultClass r]

/-- From the judgement on, a recording completes. -/
theorem remainder_completes {x : Run} {e : String} {ep : EpisodeRow} {r : Result} {predicted : String} {j : Judged}
    {db db' : Db} (hm : Measured r.diag.toolOutput) (hj : j.trustCorrect.isSome = true → HasPolicy ep.faultClass)
    (h1 : e ∉ db'.scores) (h2 : e ∉ db'.episodeSnapshots) (h3 : db'.misdispatchLog = db.misdispatchLog)
    (h4 : db'.llmDiagnosisLog = db.llmDiagnosisLog) :
    ∃ y, run (remainder x e ep r predicted j) (.idle db') = (.ok (), .idle y) ∧ (Misdispatched ep r predicted →
      y.misdispatchLog = db.misdispatchLog ++ [⟨e, predicted, ep.faultClass, x.misdispatchedAt⟩] ∧
      y.llmDiagnosisLog = db.llmDiagnosisLog ++ [diagnosisLogRow e ep.faultClass r]) := by
  let y1 := scored db' e (scoresRow ep r predicted (diagnosisMatches predicted ep.faultClass) j) (snapshotRow r j)
  obtain ⟨res, y, hrun, hrec, hres⟩ := run_recordTrust hj x e r predicted y1
  have hsame : (outcomeOf y1 ep.faultClass e j.trustCorrect).misdispatchLog = db.misdispatchLog ∧
      (outcomeOf y1 ep.faultClass e j.trustCorrect).llmDiagnosisLog = db.llmDiagnosisLog := by
    cases j.trustCorrect <;> exact ⟨h3, h4⟩
  refine ⟨y, ?_, fun hmis => ⟨?_, ?_⟩⟩
  · rw [hres hm] at hrun
    exact (run_bind_ok (run_insertScored h1 h2 _ _) _).trans hrun
  · rw [hrec.misdispatchLog, if_pos hmis, hsame.1]
  · rw [hrec.diagnosisLog, hsame.2]

/-- After a judgement on a class without a policy, a recording of an action dies. -/
theorem remainder_dies {x : Run} {e : String} {ep : EpisodeRow} {r : Result} {predicted : String} {j : Judged} {db : Db}
    (hj : j.trustCorrect.isSome = true) (hp : ¬ HasPolicy ep.faultClass) :
    ∃ err k, run (remainder x e ep r predicted j) (.idle db) = (.error err, k) := by
  unfold remainder
  rcases run_insertScored_cases db e (scoresRow ep r predicted (diagnosisMatches predicted ep.faultClass) j)
    (snapshotRow r j) with h | ⟨err, k, h, -⟩
  · obtain ⟨err, herr⟩ := run_recordTrust_error hj hp x e r predicted
      (scored db e (scoresRow ep r predicted (diagnosisMatches predicted ep.faultClass) j) (snapshotRow r j))
    exact ⟨err, _, (run_bind_ok h _).trans herr⟩
  · exact ⟨err, k, run_bind_error h _⟩

/-- An out-of-memory kill on `catalogue`. -/
def killed : EpisodeRow := ⟨"oom", "catalogue", "sock-shop", 0⟩

/-- A slow network on `orders`. -/
def latency : EpisodeRow := ⟨"network-latency", "orders", "sock-shop", 0⟩

/-- The agent's answer where the stub says crash-loop, and crash-loops may be acted on. -/
def restarted : Except PyErr Result := stubbed (replying .failure) none (acting "crash-loop") "ep-1" latency

/-- The scorer works on `e`, and recording `e`'s failure trips the breaker. -/
def TripsOn (x : Run) (db : Db) (e : String) (ep : EpisodeRow) : Prop :=
  (run (pickEpisode x) (.idle db)).1 = .ok (some (e, ep)) ∧ ∃ r predicted j b, x.answer db e ep = .ok r ∧
    r.diag.diagnosis = some predicted ∧
    (run (judge x e ep r (diagnosisMatches predicted ep.faultClass)) (.idle db)).1 = .ok j ∧
    j.breaker = some b ∧ b.tripped = true

/-- No authority is left, and no streak that a trip should have ended. What a
class that could not act had earned in Dimension A is its own. -/
structure Quelled (db : Db) (actual : String) (y : Db) : Prop where
  trust : ∀ c, (y.trust c).state ≠ .canAct
  ended : ∀ c, (db.trust c).state = .canAct → (y.trust c).streak = 0
  earned : ∀ c, (db.trust c).state ≠ .canAct → y.trust c = db.trust c ∨ c = actual ∧ (y.trust c).streak = 0
  diag : ∀ c, c ∈ FAULT_CLASSES ∨ db.diag c = ⟨.stub, 0⟩ → (y.diag c).state = .stub ∧ (y.diag c).streak ≤ 1
  action : ∀ c, c ∈ FAULT_CLASSES ∨ db.action c = ⟨.deterministicFallback, 0⟩ →
    (y.action c).state = .deterministicFallback ∧ (y.action c).streak ≤ 1

/-- The ladders right after a trip. -/
structure Tripped (db y : Db) : Prop where
  trust : ∀ c, y.trust c = if (db.trust c).state = .canAct then ⟨.reportOnly, 0⟩ else db.trust c
  diag : ∀ c, c ∈ FAULT_CLASSES ∨ db.diag c = ⟨.stub, 0⟩ → y.diag c = ⟨.stub, 0⟩
  action : ∀ c, c ∈ FAULT_CLASSES ∨ db.action c = ⟨.deterministicFallback, 0⟩ → y.action c = ⟨.deterministicFallback, 0⟩

theorem tripped_trip (db : Db) (f : FailureRow) : Tripped db (failed db f).trip where
  trust c := trip_trust (failed db f) c
  diag c hc := by
    rw [trip_diag]
    split
    · rfl
    · rename_i h
      exact hc.resolve_left h
  action c hc := by
    rw [trip_action]
    split
    · rfl
    · rename_i h
      exact hc.resolve_left h

theorem Tripped.quelled {db y : Db} (h : Tripped db y) (actual : String) : Quelled db actual y where
  trust c := by
    rw [h.trust c]
    split
    · simp
    · assumption
  ended c hc := by rw [h.trust c, if_pos hc]
  earned c hc := .inl (by rw [h.trust c, if_neg hc])
  diag c hc := by rw [h.diag c hc]; exact ⟨rfl, Nat.zero_le _⟩
  action c hc := by rw [h.action c hc]; exact ⟨rfl, Nat.zero_le _⟩

/-- A wrong outcome and the LLM's two outcomes grant nothing after a trip. -/
theorem Tripped.recorded {db y y' : Db} (h : Tripped db y) {x : Run} {e : String} {ep : EpisodeRow} {r : Result}
    {predicted : String} (hr : Recorded x e ep r predicted (outcomeOf y ep.faultClass e (some false)) y') :
    Quelled db ep.faultClass y' := by
  have hq := h.quelled ep.faultClass
  have htrust (c : String) : y'.trust c = if c = ep.faultClass then ⟨(y.trust c).state, 0⟩ else y.trust c := by
    rw [hr.trust c]
    refine (trust_insert y ep.faultClass c _).trans ?_
    by_cases hc : c = ep.faultClass
    · rw [if_pos hc, if_pos hc, hc]
      simp [Rung.afterOutcome, hq.trust ep.faultClass]
    · rw [if_neg hc, if_neg hc]
  refine ⟨fun c => ?_, fun c hc => ?_, fun c hc => ?_, fun c hc => ?_, fun c hc => ?_⟩
  · rw [htrust c]
    split <;> exact hq.trust c
  · rw [htrust c]
    split
    · rfl
    · exact hq.ended c hc
  · rw [htrust c]
    split
    · rename_i hact
      exact .inr ⟨hact, rfl⟩
    · exact .inl ((hq.earned c hc).resolve_right fun hact => by simp_all)
  -- One right result takes a reset row to a streak of one, short of the threshold.
  · have h0 : (outcomeOf y ep.faultClass e (some false)).diag c = ⟨.stub, 0⟩ := h.diag c hc
    rcases hr.diag c with he | ⟨correct, he⟩ <;> rw [he, h0]
    · exact ⟨rfl, Nat.zero_le _⟩
    · cases correct <;> exact ⟨rfl, by decide⟩
  · have h0 : (outcomeOf y ep.faultClass e (some false)).action c = ⟨.deterministicFallback, 0⟩ := h.action c hc
    rcases hr.action c with he | ⟨correct, he⟩ <;> rw [he, h0]
    · exact ⟨rfl, Nat.zero_le _⟩
    · cases correct <;> exact ⟨rfl, by decide⟩

/-- However the rest of the recording ends, it grants nothing after a trip. -/
theorem remainder_quelled {x : Run} {e : String} {ep : EpisodeRow} {r : Result} {predicted : String} {j : Judged}
    {db y : Db} (hj : j.trustCorrect = some false) (h : Tripped db y) :
    Quelled db ep.faultClass (run (remainder x e ep r predicted j) (.idle y)).2.committed := by
  unfold remainder
  rcases run_insertScored_cases y e (scoresRow ep r predicted (diagnosisMatches predicted ep.faultClass) j)
    (snapshotRow r j) with hs | ⟨err, k, hs, hk⟩
  · let y1 := scored y e (scoresRow ep r predicted (diagnosisMatches predicted ep.faultClass) j) (snapshotRow r j)
    have h1 : Tripped db y1 := ⟨h.trust, h.diag, h.action⟩
    rw [run_bind_ok hs]
    by_cases hp : HasPolicy ep.faultClass
    · obtain ⟨res, y', hrun, hrec, -⟩ := run_recordTrust (j := j) (fun _ => hp) x e r predicted y1
      rw [hj] at hrec
      rw [hrun]
      exact h1.recorded hrec
    · obtain ⟨err, herr⟩ := run_recordTrust_error (by rw [hj]; rfl) hp x e r predicted y1
      rw [herr]
      exact h1.quelled _
  · rw [run_bind_error hs, hk]
    exact h.quelled _

/-- Before the recording, a run alone reads and nothing else. -/
theorem run_main {x : Run} {db : Db} {e : String} {ep : EpisodeRow} {r : Result}
    (hpick : (run (pickEpisode x) (.idle db)).1 = .ok (some (e, ep))) (hans : x.answer db e ep = .ok r) :
    run (main x) (.idle db) = run (record x e ep r) (.idle db) := by
  have hidle : (run (pickEpisode x) (.idle db)).2 = .idle db := by
    unfold pickEpisode
    cases truthy x.episodeId <;> rfl
  have h : run (pickEpisode x) (.idle db) = (.ok (some (e, ep)), .idle db) := Prod.ext hpick hidle
  have hstart : run (main x) (.idle db) = run (pickEpisode x >>= scorePicked x) (.idle db) := rfl
  rw [hstart, run_bind_ok h]
  exact run_score_ok hans

/-- A trip survives the run it happens in. -/
theorem trip_survives (x : Run) (db : Db) (e : String) (ep : EpisodeRow) (h : TripsOn x db e ep) :
    Quelled db ep.faultClass (after (main x) db) := by
  obtain ⟨hpick, r, predicted, j, b, hans, hd, hj, hb, htrip⟩ := h
  unfold after
  rw [run_main hpick hans, record_eq hd]
  rcases judge_cases x e ep r (diagnosisMatches predicted ep.faultClass) with
    ⟨-, -, err, he⟩ | ⟨-, o, d, -, -, he⟩ | ⟨-, reason, d, -, he⟩
  · rw [he] at hj; cases hj
  · rw [he] at hj; cases hj; cases hb
  · obtain ⟨b', hb', -⟩ := run_recordFailure (some e) x.failedAt x.checkedAt reason (some ep.faultClass) db
    have hrun : run (judge x e ep r (diagnosisMatches predicted ep.faultClass)) (.idle db) = _ :=
      he ▸ run_bind_ok hb' _
    rw [hrun] at hj
    cases hj
    cases hb
    rw [htrip, if_pos rfl] at hrun
    rw [run_bind_ok hrun]
    exact remainder_quelled rfl (tripped_trip db _)

/-- Two failures are in the window, and the next episode's restart will not apply. -/
def onTheBrink : Db :=
  { crashed with failureLog := [⟨"fix flapped", some "oom", 0⟩, ⟨"fix flapped", some "oom", 0⟩] }

theorem trip_survives_restart : Quelled onTheBrink "crash-loop" (after (main failing) onTheBrink) :=
  trip_survives failing onTheBrink "ep-1" crashLoop ⟨rfl, _, _, _, _, rfl, rfl, rfl, rfl, rfl⟩

/-- A class on report only keeps a streak of four through the trip. -/
theorem streak_outlives_trip :
    let db := { onTheBrink with trustState := onTheBrink.trustState.insert "oom" ⟨.reportOnly, 4⟩ }
    TripsOn failing db "ep-1" crashLoop ∧ ((after (main failing) db).trust "oom").streak = 4 :=
  ⟨⟨rfl, _, _, _, _, rfl, rfl, rfl, rfl, rfl⟩, rfl⟩

end Wardence.Recording
