import Wardence.Schema
/-!
# The misdispatch guard

From `misdispatch_guard.py`: a log of actions that fired for another class's
fault, and safety holds on the classes it happens to too often.
-/
namespace Wardence

open Keyed Txn Client

def MISDISPATCH_HOLD_THRESHOLD : Nat := 3
def MISDISPATCH_HOLD_WINDOW_HOURS : Nat := 24

/-- `CREATE TABLE IF NOT EXISTS` twice, and a commit. -/
def ensureMisdispatchTables : Prog Unit := commitNow

def Db.hold (db : Db) (c : String) : HoldRow := (db.safetyHold.lookup c).getD ⟨false, none, none⟩

def getSafetyHold (c : String) : Prog HoldRow := select fun db => db.hold c

/-- `held_since` is set when a hold starts, kept while it lasts and cleared with it. -/
def setSafetyHold (now : Nat) (c : String) (active : Bool) (reason : Option String) : Prog Unit := do
  let existing ← getSafetyHold c
  let heldSince := if active && existing.active then existing.heldSince else if active then some now else none
  execute (.upsertSafetyHold c ⟨active, reason, heldSince⟩)
  commitNow

def clearSafetyHold (now : Nat) (c : String) (reason : String) : Prog Unit := setSafetyHold now c false (some reason)

def clearAllSafetyHolds (now : Nat) (reason : String) : Prog Unit := do
  let held ← select fun db => Table.keysWhere db.safetyHold fun h => h.active
  forM held fun c => setSafetyHold now c false (some reason)

structure MisdispatchResult where
  predictedClass : String
  actualClass : String
  recentMisdispatchCount : Nat
  holdTriggered : Bool

/-- The misdispatches of `c` in the window that ends at `now`. -/
def Db.recentMisdispatches (db : Db) (c : String) (now : Nat) : Nat :=
  db.misdispatchLog.countP fun m =>
    m.predictedClass == c && decide (now ≤ m.recordedAt + MISDISPATCH_HOLD_WINDOW_HOURS * 3600)

/-- `now` is the time of the insert, `later` that of the count and of the hold. -/
def recordMisdispatch (now later : Nat) (episodeId predictedClass actualClass : String) :
    Prog MisdispatchResult := do
  execute (.insertMisdispatch ⟨episodeId, predictedClass, actualClass, now⟩)
  commitNow
  let recentCount ← select fun db => db.recentMisdispatches predictedClass later
  if MISDISPATCH_HOLD_THRESHOLD ≤ recentCount then
    let existing ← getSafetyHold predictedClass
    setSafetyHold later predictedClass true
      (some s!"{recentCount} cross-class misdispatches in the last {MISDISPATCH_HOLD_WINDOW_HOURS}h")
    pure ⟨predictedClass, actualClass, recentCount, !existing.active⟩
  else
    pure ⟨predictedClass, actualClass, recentCount, false⟩

end Wardence
