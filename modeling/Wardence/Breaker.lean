import Wardence.LlmTrust
import Wardence.Misdispatch
/-!
# The circuit breaker

From `circuit_breaker.py`: three failures within five minutes take every class's
authority away, in all three dimensions.
-/
namespace Wardence

open Keyed Txn Client

/-- The full taxonomy, from `react_agent.py`. -/
def FAULT_CLASSES : List String :=
  ["crash-loop", "oom", "disk-full", "network-latency", "memory-leak", "connection-pool-exhaustion",
    "network-partition", "init-failure", "session-cart-failure", "cpu-throttling", "under-provisioned-replicas",
    "bad-rollout", "none"]

def FAILURE_WINDOW_S : Nat := 300
def FAILURE_THRESHOLD : Nat := 3

structure BreakerResult where
  tripped : Bool
  recentFailures : Nat
  demotedClasses : List String
  llmTrustResetClasses : List String
  deriving DecidableEq

/-- The failures in the window that ends at `now`. -/
def Db.recentFailures (db : Db) (now : Nat) : Nat :=
  db.failureLog.countP fun f => decide (now ≤ f.recordedAt + FAILURE_WINDOW_S)

def recentFailureCount (now : Nat) : Prog Nat := select fun db => db.recentFailures now

def allFaultClasses : Prog (List String) := select fun db => db.trustState.keys

/-- The body of the trip's first loop: a `can_act` class goes to `report_only`. -/
def demoteClass (c : String) : Prog Bool := do
  let state ← getTrustState c
  if state.state = .canAct then
    execute (.updateTrustState c ⟨.reportOnly, 0⟩)
    execute (.insertTrustHistory ⟨none, c, false, .canAct, .reportOnly, state.streak, 0⟩)
    pure true
  else
    pure false

/-- The trip's first loop; the result is `demoted`. Nothing in it commits. -/
def demoteClasses : List String → Prog (List String)
  | [] => pure []
  | c :: cs => do
    let hit ← demoteClass c
    let rest ← demoteClasses cs
    pure (if hit then c :: rest else rest)

/-- The trip after its first loop. The first reset's commit takes the demotions with it. -/
def tripRest (now : Nat) : Prog Unit := do
  forM FAULT_CLASSES fun c => resetToSafeDefaults c none
  ensureMisdispatchTables
  clearAllSafetyHolds now "circuit breaker global trip"
  commitNow

/-- The trip over a list of classes; the result is `demoted`. -/
def tripOver (now : Nat) (classes : List String) : Prog (List String) := do
  let demoted ← demoteClasses classes
  tripRest now
  pure demoted

def checkCircuitBreaker (now : Nat) : Prog BreakerResult := do
  let recent ← recentFailureCount now
  if recent < FAILURE_THRESHOLD then
    pure ⟨false, recent, [], []⟩
  else
    let classes ← allFaultClasses
    let demoted ← tripOver now classes
    pure ⟨true, recent, demoted, FAULT_CLASSES⟩

/-- `now` is the time of the insert, `later` that of the check. -/
def recordFailure (behalf : Option String) (now later : Nat) (reason : String) (c : Option String) :
    Prog BreakerResult := do
  execute (.insertFailure behalf ⟨reason, c, now⟩)
  commitNow
  checkCircuitBreaker later

end Wardence
