import Wardence.TrustEngine
/-!
# The diagnoser and action ladders

Dimensions B and C, from `llm_trust_state.py`: which diagnoser and which action
proposer are trusted for a class. Both climb on five correct results in a row
and fall to the bottom on one miss.
-/
namespace Wardence

open Keyed Txn Client

def DIAGNOSER_PROMOTION_STREAK : Nat := 5
def ACTION_PROMOTION_STREAK : Nat := 5

/-- The actions whose parameters carry a magnitude. -/
def MAGNITUDE_SENSITIVE_ACTIONS : List String := ["patch_memory_limit", "patch_cpu_limit", "scale_deployment"]

def Db.diag (db : Db) (c : String) : Rung DiagMode := (db.diagnoserMode.lookup c).getD ⟨.stub, 0⟩

def Db.action (db : Db) (c : String) : Rung ActionTrust :=
  (db.actionTrust.lookup c).getD ⟨.deterministicFallback, 0⟩

def getDiagnoserMode (c : String) : Prog (Rung DiagMode) := select fun db => db.diag c

def getActionTrust (c : String) : Prog (Rung ActionTrust) := select fun db => db.action c

def upsertDiagnoserMode (behalf : Option String) (c : String) (r : Rung DiagMode) : Prog Unit := do
  execute (.upsertDiagnoserMode behalf c r)
  commitNow

def upsertActionTrust (behalf : Option String) (c : String) (r : Rung ActionTrust) : Prog Unit := do
  execute (.upsertActionTrust behalf c r)
  commitNow

/-- Both ladders back to the bottom. Each upsert commits on its own; the history
rows wait for the next commit. -/
def resetToSafeDefaults (c : String) (episodeId : Option String) : Prog Unit := do
  let diagBefore ← getDiagnoserMode c
  if diagBefore ≠ ⟨.stub, 0⟩ then
    upsertDiagnoserMode none c ⟨.stub, 0⟩
  execute (.insertDiagnoserModeHistory ⟨episodeId, c, false, diagBefore.state, .stub, diagBefore.streak, 0⟩)
  let actionBefore ← getActionTrust c
  if actionBefore ≠ ⟨.deterministicFallback, 0⟩ then
    upsertActionTrust none c ⟨.deterministicFallback, 0⟩
  execute (.insertActionTrustHistory
    ⟨episodeId, c, false, actionBefore.state, .deterministicFallback, actionBefore.streak, 0⟩)
  commitNow

/-- The row one result leaves on a ladder from `bottom` to `top`. -/
def Rung.afterResult {τ : Type} (bottom top : τ) (n : Nat) (before : Rung τ) (correct : Bool) : Rung τ :=
  if correct then ⟨if n ≤ before.streak + 1 then top else before.state, before.streak + 1⟩ else ⟨bottom, 0⟩

def recordDiagnoserOutcome (c : String) (correct : Bool) (episodeId : Option String) :
    Prog (Transition DiagMode) := do
  let before ← getDiagnoserMode c
  let after := before.afterResult .stub .llm DIAGNOSER_PROMOTION_STREAK correct
  upsertDiagnoserMode episodeId c after
  execute (.insertDiagnoserModeHistory
    ⟨episodeId, c, correct, before.state, after.state, before.streak, after.streak⟩)
  commitNow
  pure ⟨c, before, after, before.state != .llm && after.state == .llm, before.state == .llm && after.state == .stub⟩

def recordActionOutcome (c : String) (correct : Bool) (episodeId : Option String) :
    Prog (Transition ActionTrust) := do
  let before ← getActionTrust c
  let after := before.afterResult .deterministicFallback .llmCanAct ACTION_PROMOTION_STREAK correct
  upsertActionTrust episodeId c after
  execute (.insertActionTrustHistory
    ⟨episodeId, c, correct, before.state, after.state, before.streak, after.streak⟩)
  commitNow
  pure ⟨c, before, after, before.state != .llmCanAct && after.state == .llmCanAct,
    before.state == .llmCanAct && after.state == .deterministicFallback⟩

end Wardence
