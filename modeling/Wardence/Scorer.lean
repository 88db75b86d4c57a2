import Mathlib.Data.List.MinMax
import Wardence.Agent
import Wardence.Operator
/-!
# The scorer

From `p3_scorer.py`, with `trust_gate.py` and the verdict of `verifier.py`: one
run of `main`, from picking an episode to recording its last ladder. What the
agent answers is a parameter; `handle` is the real one.
-/
namespace Wardence

open Keyed Txn Client

def MAX_EPISODE_AGE_MINUTES : Nat := 10

/-- The classes whose fix can be watched, and for how many seconds. -/
def DURABILITY_WINDOWS : List (String × Nat) :=
  [("crash-loop", 120), ("oom", 180), ("disk-full", 120), ("cpu-throttling", 120), ("under-provisioned-replicas", 90),
    ("bad-rollout", 120)]

/-! ## Picking an episode -/

/-- The episodes without a row of `scores`. -/
def Db.unscored (db : Db) : List (String × EpisodeRow) :=
  (db.episodes.entries.map fun r => (r.1, r.2)).filter fun r => r.1 ∉ db.scores

/-- The newest of them, unless it is stale. -/
def getUnscoredEpisode (now : Nat) : Prog (Option (String × EpisodeRow)) := do
  let newest ← select fun db => db.unscored.argmax fun r => r.2.t0
  pure (newest.filter fun r => ¬ r.2.t0 + MAX_EPISODE_AGE_MINUTES * 60 < now)

def getEpisodeById (e : String) : Prog (Option (String × EpisodeRow)) :=
  select fun db => if e ∈ db.scores then none else (db.episodes.lookup e).map (e, ·)

/-! ## Judging -/

/-- `strip().lower()` on both sides; a control episode's diagnosis has two spellings. -/
def diagnosisMatches (predicted actual : String) : Bool :=
  let actual := Py.lower (Py.strip actual)
  let predicted := Py.lower (Py.strip predicted)
  if actual = "none" then predicted ∈ ["no anomaly detected", "none"] else predicted = actual

/-- `_same_diagnosis`. -/
def sameDiagnosis (a b : String) : Bool :=
  a = b || (a ∈ ["none", "no anomaly detected"] && b ∈ ["none", "no anomaly detected"])

def eligibleForTrustLadder (diagnosisTier : Option Tier) : Bool := diagnosisTier = some .primary

def eligibleActionForStreak (actionTier : Option Tier) : Bool := actionTier = some .primary

/-- Is a proposal right for the true class? The tool must be its own, and a
magnitude must be safe for it. -/
def actionIsCorrect (liveCpu : String → String → Option ℚ) (faultClass tool : String) (params : Py.Dict)
    (groundTruthTool : String) (toolOutput : Option Py.Dict) : Except PyErr Bool :=
  if tool ≠ groundTruthTool then .ok false
  else if tool ∉ MAGNITUDE_SENSITIVE_ACTIONS then .ok true
  else Safety.ok <$> checkSafe liveCpu tool params faultClass toolOutput

/-! ## What the agent answers -/

/-- `/diagnose`'s response, updated with that of `/act`. -/
structure Result where
  diag : DiagnoseResponse
  act : ActResponse

def Result.applied (r : Result) : Option Bool := r.act.actionResult.map (·.applied)

/-- Is `/act` worth a call? -/
def worthCallingAct (d : DiagnoseResponse) (actual : String) : Bool :=
  d.eligibleForAction || (d.llmResult.llmDiagnosis.any fun c => (DETERMINISTIC_ACTION_MAP.lookup c).isSome) ||
    (!(d.diagnosis.any fun c => (DETERMINISTIC_ACTION_MAP.lookup c).isSome) &&
      (DETERMINISTIC_ACTION_MAP.lookup actual).isSome)

/-- The request for `/act`. -/
def actRequest (d : DiagnoseResponse) (predicted e actual : String) : ActRequest :=
  { target := d.target
    ns := d.ns
    predicted
    diagnoserModeUsed := d.diagnoserModeUsed
    llmProvider := d.llmResult.provider
    llmModel := d.llmResult.model
    llmDiagnosis := d.llmResult.llmDiagnosis
    toolOutput := d.toolOutput
    episodeId := some e
    actualClass := some actual }

/-- `/diagnose`, then `/act` where it is worth a call, both on the same database.
A request without a diagnosis is refused. -/
def handle (w : World) (stub : StubResult) (llm : LlmResult) (toolOutput : Option Py.Dict) (db : Db) (e : String)
    (ep : EpisodeRow) : Except PyErr Result :=
  let d := diagnose db ep.target ep.ns toolOutput stub llm
  if worthCallingAct d ep.faultClass then
    match d.diagnosis with
    | none => .error (.httpError 422)
    | some predicted =>
      match act w db (actRequest d predicted e ep.faultClass) with
      | .ok acted => .ok ⟨d, acted.response⟩
      | .error _ => .error (.httpError 500)
  else .ok ⟨d, {}⟩

/-! ## Recording -/

/-- One run of the scorer: its argument, its clock and what it is told. -/
structure Run where
  episodeId : Option String
  now : Nat
  failedAt : Nat
  checkedAt : Nat
  misdispatchedAt : Nat
  countedAt : Nat
  answer : Db → String → EpisodeRow → Except PyErr Result
  watch : String → Durability × Nat
  liveCpu : String → String → Option ℚ

def verifyDurability (x : Run) (faultClass : String) : Except PyErr (Durability × Nat) :=
  if (DURABILITY_WINDOWS.lookup faultClass).isSome then .ok (x.watch faultClass)
  else .error (.valueError s!"no durability window defined for fault class '{faultClass}'")

structure Judged where
  trustCorrect : Option Bool
  durability : Option (Durability × Nat)
  breaker : Option BreakerResult

/-- Was the episode handled right? A failure is recorded at once. -/
def judge (x : Run) (e : String) (ep : EpisodeRow) (r : Result) (correct : Bool) : Prog Judged :=
  match r.act.actionTaken with
  | some _ =>
    if correct = false ∨ r.applied ≠ some true then do
      let b ← recordFailure (some e) x.failedAt x.checkedAt "action failed or misdiagnosed" (some ep.faultClass)
      pure ⟨some false, none, some b⟩
    else
      match verifyDurability x ep.faultClass with
      | .error err => throw err
      | .ok (verdict, elapsed) =>
        if verdict = .confirmed then pure ⟨some true, some (verdict, elapsed), none⟩
        else do
          let b ← recordFailure (some e) x.failedAt x.checkedAt "fix flapped" (some ep.faultClass)
          pure ⟨some false, some (verdict, elapsed), some b⟩
  | none => pure ⟨if HasPolicy ep.faultClass then some correct else none, none, none⟩

def scoresRow (ep : EpisodeRow) (r : Result) (predicted : String) (correct : Bool) (j : Judged) : ScoresRow :=
  { predictedClass := predicted
    actualClass := ep.faultClass
    correct
    confidence := r.diag.confidence
    actionTaken := r.act.actionTaken
    actionApplied := r.applied
    durabilityVerdict := j.durability.map (·.1)
    trustCorrect := j.trustCorrect }

def snapshotRow (r : Result) (j : Judged) : SnapshotRow :=
  { reasoning := r.diag.reasoning
    confidence := r.diag.confidence
    actionTaken := r.act.actionTaken
    durabilityVerdict := j.durability.map (·.1)
    durabilityElapsedS := j.durability.map (·.2)
    substituted := r.act.gateSubstitution.isSome
    provider := r.diag.llmResult.provider
    model := r.diag.llmResult.model
    tier := r.diag.llmResult.tier }

/-- A Python `x if x else None`, for a string. -/
def truthy (s : Option String) : Option String := s.filter (· ≠ "")

def diagnosisLogRow (e actual : String) (r : Result) : DiagnosisLogRow :=
  let stub := truthy (some r.diag.stubResult.diagnosis)
  let llm := r.diag.llmResult
  { episodeId := e
    actualClass := actual
    stubPredictedClass := some r.diag.stubResult.diagnosis
    stubCorrect := stub.map fun s => diagnosisMatches s actual
    llmDiagnosis := llm.llmDiagnosis
    llmConfidence := llm.llmConfidence
    provider := llm.provider
    model := llm.model
    tier := llm.tier
    matchesGroundTruth := (truthy llm.llmDiagnosis).map (· == actual)
    matchesStub := do return sameDiagnosis (← truthy llm.llmDiagnosis) (← stub) }

/-- Dimension B: a diagnosis of a primary provider, judged against the truth. -/
def recordDimensionB (e actual : String) (llm : LlmResult) : Prog Unit :=
  if llm.status = .diagnosed ∧ eligibleForTrustLadder llm.tier = true then do
    let _ ← recordDiagnoserOutcome actual (llm.llmDiagnosis == some actual) (some e)
  else pure ()

/-- `log_proposal`, on a connection of its own, while this one has nothing open. -/
def logProposal (e : String) (ep : EpisodeRow) (p : Proposal) (tool : String) : Prog Unit := do
  execute (.insertProposalLog
    ⟨e, p.faultClass, p.source, p.toolName, p.params, p.provider, p.model, p.tier,
      matchesDeterministicAction p.faultClass tool p.params ep.target ep.ns⟩)
  commitNow

/-- Dimension C: a proposal of a primary provider, where the true class has a fix to compare it with. -/
def recordDimensionC (x : Run) (e : String) (ep : EpisodeRow) (r : Result) : Prog Unit :=
  match r.act.llmActionProposal with
  | none => pure ()
  | some p =>
    match p.toolName, DETERMINISTIC_ACTION_MAP.lookup ep.faultClass with
    | some tool, some fix => do
      logProposal e ep p tool
      match actionIsCorrect x.liveCpu ep.faultClass tool (p.params.getD ∅) fix.tool r.diag.toolOutput with
      | .error err => throw err
      | .ok correct =>
        if eligibleActionForStreak p.tier then do
          let _ ← recordActionOutcome ep.faultClass correct (some e)
        else pure ()
    | _, _ => pure ()

def recordLlmTrust (x : Run) (e : String) (ep : EpisodeRow) (r : Result) : Prog Unit := do
  commitNow  -- `ensure_llm_diagnosis_log_table`
  execute (.insertDiagnosisLog (diagnosisLogRow e ep.faultClass r))
  commitNow
  recordDimensionB e ep.faultClass r.diag.llmResult
  recordDimensionC x e ep r

/-- An action was dispatched on the word of an auto-fix class that was not the true one. -/
def Misdispatched (ep : EpisodeRow) (r : Result) (predicted : String) : Prop :=
  r.act.actionTaken.isSome = true ∧ predicted ≠ ep.faultClass ∧ HasPolicy predicted

instance (ep : EpisodeRow) (r : Result) (predicted : String) : Decidable (Misdispatched ep r predicted) :=
  inferInstanceAs (Decidable (_ ∧ _ ∧ _))

/-- What follows the row of `scores`. -/
def recordTrust (x : Run) (e : String) (ep : EpisodeRow) (r : Result) (predicted : String) (j : Judged) :
    Prog Unit := do
  match j.trustCorrect with
  | some correct => do let _ ← recordOutcome ep.faultClass correct (some e)
  | none => pure ()
  if Misdispatched ep r predicted then do
    ensureMisdispatchTables
    let _ ← recordMisdispatch x.misdispatchedAt x.countedAt e predicted ep.faultClass
  recordLlmTrust x e ep r

/-- The row of `scores` and the snapshot, in one transaction. -/
def insertScored (e : String) (s : ScoresRow) (n : SnapshotRow) : Prog Unit := do
  execute (.insertScores e s)
  execute (.insertSnapshot e n)
  commitNow

/-- The recording phase of `main`. -/
def record (x : Run) (e : String) (ep : EpisodeRow) (r : Result) : Prog Unit :=
  match r.diag.diagnosis with
  | none => throw (.attributeError "'NoneType' object has no attribute 'strip'")
  | some predicted => do
    let correct := diagnosisMatches predicted ep.faultClass
    let j ← judge x e ep r correct
    insertScored e (scoresRow ep r predicted correct j) (snapshotRow r j)
    recordTrust x e ep r predicted j

/-- The episode `main` works on: the one it is told to, or the newest. -/
def pickEpisode (x : Run) : Prog (Option (String × EpisodeRow)) :=
  match truthy x.episodeId with
  | some e => getEpisodeById e
  | none => getUnscoredEpisode x.now

/-- The agent's answer for the episode, recorded. -/
def score (x : Run) (e : String) (ep : EpisodeRow) : Prog Unit := do
  match ← select fun db => x.answer db e ep with
  | .error err => throw err
  | .ok r => record x e ep r

/-- What `main` does with what it picked. -/
def scorePicked (x : Run) : Option (String × EpisodeRow) → Prog Unit
  | none => pure ()
  | some (e, ep) => score x e ep

/-- `main`. Each `ensure_*` creates what is missing and commits. -/
def main (x : Run) : Prog Unit := do
  forM [(), (), (), (), ()] fun _ => commitNow
  let episode ← pickEpisode x
  scorePicked x episode

end Wardence
