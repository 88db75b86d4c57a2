import Wardence.Lib.Client
import Wardence.Lib.Python
/-!
# The database

The tables of `wardence.db` that the trust engine, the breaker, the misdispatch
guard and the scorer use, and every data-changing statement they execute. Tables
with a `TEXT PRIMARY KEY` are keyed tables; the logs, whose keys are
`AUTOINCREMENT`, are lists, oldest row first. A time is in seconds; only the
times some query compares are kept.
-/
namespace Wardence

open Keyed Txn

/-! ## Vocabulary -/

/-- Dimension A: `report_only`, `can_act`, `demoted`. -/
inductive TrustLevel where
  | reportOnly
  | canAct
  | demoted
  deriving DecidableEq, Repr

/-- Dimension B: `stub`, `llm`. -/
inductive DiagMode where
  | stub
  | llm
  deriving DecidableEq, Repr

/-- Dimension C: `deterministic_fallback`, `llm_can_act`. -/
inductive ActionTrust where
  | deterministicFallback
  | llmCanAct
  deriving DecidableEq, Repr

/-- `verify_durability`'s verdict. -/
inductive Durability where
  | confirmed
  | flapped
  deriving DecidableEq, Repr

/-- A provider's tier in the chain; a deterministic fallback is none of a provider's. -/
inductive Tier where
  | primary
  | fallback
  | deterministicFallback
  deriving DecidableEq, Repr

/-- Where a proposal, or a dispatched action, comes from. -/
inductive Source where
  | llmPrimaryRetry
  | llmEscalated
  | deterministicFallback
  | notAutoFixClass
  | deterministicProduction
  | gateSubstituted
  | groundTruthSafetyNet
  deriving DecidableEq, Repr

/-- The exceptions the modelled code can raise. -/
inductive PyErr where
  | attributeError (msg : String)
  | integrityError (table : String)
  | valueError (msg : String)
  | typeError (msg : String)
  | httpException (status : Nat) (detail : String)
  | httpError (status : Nat)
  deriving DecidableEq, Repr

/-! ## Rows -/

/-- A class's row of one of the three ladders. -/
structure Rung (τ : Type) where
  state : τ
  streak : Nat
  deriving DecidableEq, Repr

/-- A row of a ladder's history. -/
structure HistoryRow (τ : Type) where
  episodeId : Option String
  faultClass : String
  correct : Bool
  stateBefore : τ
  stateAfter : τ
  streakBefore : Nat
  streakAfter : Nat
  deriving DecidableEq, Repr

structure FailureRow where
  reason : String
  faultClass : Option String
  recordedAt : Nat
  deriving DecidableEq, Repr

structure MisdispatchRow where
  episodeId : String
  predictedClass : String
  actualClass : String
  recordedAt : Nat
  deriving DecidableEq, Repr

structure HoldRow where
  active : Bool
  reason : Option String
  heldSince : Option Nat
  deriving DecidableEq, Repr

structure EpisodeRow where
  faultClass : String
  target : String
  ns : String
  t0 : Nat
  deriving DecidableEq, Repr

structure ScoresRow where
  predictedClass : String
  actualClass : String
  correct : Bool
  confidence : Option ℚ
  actionTaken : Option String
  actionApplied : Option Bool
  durabilityVerdict : Option Durability
  trustCorrect : Option Bool
  deriving DecidableEq

structure SnapshotRow where
  reasoning : Option String
  confidence : Option ℚ
  actionTaken : Option String
  durabilityVerdict : Option Durability
  durabilityElapsedS : Option Nat
  substituted : Bool
  provider : Option String
  model : Option String
  tier : Option Tier
  deriving DecidableEq

structure DiagnosisLogRow where
  episodeId : String
  actualClass : String
  stubPredictedClass : Option String
  stubCorrect : Option Bool
  llmDiagnosis : Option String
  llmConfidence : Option ℚ
  provider : Option String
  model : Option String
  tier : Option Tier
  matchesGroundTruth : Option Bool
  matchesStub : Option Bool
  deriving DecidableEq

structure ProposalLogRow where
  episodeId : String
  faultClass : String
  source : Source
  toolName : Option String
  params : Option Py.Dict
  provider : Option String
  model : Option String
  tier : Option Tier
  matchesDeterministic : Option Bool

/-! ## The database and its statements -/

structure Db where
  episodes : Table String EpisodeRow := ∅
  trustState : Table String (Rung TrustLevel) := ∅
  trustHistory : List (HistoryRow TrustLevel) := []
  diagnoserMode : Table String (Rung DiagMode) := ∅
  diagnoserModeHistory : List (HistoryRow DiagMode) := []
  actionTrust : Table String (Rung ActionTrust) := ∅
  actionTrustHistory : List (HistoryRow ActionTrust) := []
  failureLog : List FailureRow := []
  misdispatchLog : List MisdispatchRow := []
  safetyHold : Table String HoldRow := ∅
  scores : Table String ScoresRow := ∅
  episodeSnapshots : Table String SnapshotRow := ∅
  llmDiagnosisLog : List DiagnosisLogRow := []
  llmActionProposalLog : List ProposalLogRow := []

/-- The statements. `behalf` is the episode the caller is recording, kept for
the proofs' accounts: no table has a column for it, and `app` ignores it. -/
inductive Stmt where
  | upsertTrustState (behalf : Option String) (c : String) (r : Rung TrustLevel)
  | updateTrustState (c : String) (r : Rung TrustLevel)
  | insertTrustHistory (h : HistoryRow TrustLevel)
  | upsertDiagnoserMode (behalf : Option String) (c : String) (r : Rung DiagMode)
  | insertDiagnoserModeHistory (h : HistoryRow DiagMode)
  | upsertActionTrust (behalf : Option String) (c : String) (r : Rung ActionTrust)
  | insertActionTrustHistory (h : HistoryRow ActionTrust)
  | insertFailure (behalf : Option String) (f : FailureRow)
  | insertMisdispatch (m : MisdispatchRow)
  | upsertSafetyHold (c : String) (h : HoldRow)
  | insertScores (e : String) (s : ScoresRow)
  | insertSnapshot (e : String) (s : SnapshotRow)
  | insertDiagnosisLog (l : DiagnosisLogRow)
  | insertProposalLog (l : ProposalLogRow)

/-- What a statement does to the database. Only the inserts of a primary key can fail. -/
def Stmt.app : Stmt → Db → Except PyErr Db
  | .upsertTrustState _ c r, db => .ok { db with trustState := db.trustState.insert c r }
  | .updateTrustState c r, db => .ok { db with trustState := Table.update db.trustState c fun _ => r }
  | .insertTrustHistory h, db => .ok { db with trustHistory := db.trustHistory ++ [h] }
  | .upsertDiagnoserMode _ c r, db => .ok { db with diagnoserMode := db.diagnoserMode.insert c r }
  | .insertDiagnoserModeHistory h, db => .ok { db with diagnoserModeHistory := db.diagnoserModeHistory ++ [h] }
  | .upsertActionTrust _ c r, db => .ok { db with actionTrust := db.actionTrust.insert c r }
  | .insertActionTrustHistory h, db => .ok { db with actionTrustHistory := db.actionTrustHistory ++ [h] }
  | .insertFailure _ f, db => .ok { db with failureLog := db.failureLog ++ [f] }
  | .insertMisdispatch m, db => .ok { db with misdispatchLog := db.misdispatchLog ++ [m] }
  | .upsertSafetyHold c h, db => .ok { db with safetyHold := db.safetyHold.insert c h }
  | .insertScores e s, db =>
    match Table.insertNew db.scores e s with
    | some t => .ok { db with scores := t }
    | none => .error (.integrityError "scores")
  | .insertSnapshot e s, db =>
    match Table.insertNew db.episodeSnapshots e s with
    | some t => .ok { db with episodeSnapshots := t }
    | none => .error (.integrityError "episode_snapshots")
  | .insertDiagnosisLog l, db => .ok { db with llmDiagnosisLog := db.llmDiagnosisLog ++ [l] }
  | .insertProposalLog l, db => .ok { db with llmActionProposalLog := db.llmActionProposalLog ++ [l] }

/-- An INSERT that goes through found its key free, and writes its own table alone. -/
theorem app_insertScores {e : String} {r : ScoresRow} {x x' : Db} (h : (Stmt.insertScores e r).app x = .ok x') :
    e ∉ x.scores ∧ x' = { x with scores := x.scores.insert e r } := by
  simp only [Stmt.app] at h
  split at h
  · rename_i t ht
    obtain ⟨hn, rfl⟩ := Table.insertNew_eq_some.1 ht
    exact ⟨hn, (Except.ok.inj h).symm⟩
  · cases h

theorem app_insertSnapshot {e : String} {r : SnapshotRow} {x x' : Db} (h : (Stmt.insertSnapshot e r).app x = .ok x') :
    e ∉ x.episodeSnapshots ∧ x' = { x with episodeSnapshots := x.episodeSnapshots.insert e r } := by
  simp only [Stmt.app] at h
  split at h
  · rename_i t ht
    obtain ⟨hn, rfl⟩ := Table.insertNew_eq_some.1 ht
    exact ⟨hn, (Except.ok.inj h).symm⟩
  · cases h

instance : Store Db Stmt PyErr := ⟨Stmt.app⟩

/-- A program over the database. -/
abbrev Prog (α : Type) := Client Db Stmt PyErr α

@[simp] theorem store_app (s : Stmt) (db : Db) : (Store.app s db : Except PyErr Db) = s.app db := rfl

end Wardence
