import Wardence.Injector.World
/-!
# The injector's helpers

What the functions of `injector.py` share, and its `_ensure_*` functions: the checks
and resets before a fault. `print` and the texts of commands and queries are left out.
-/
namespace Wardence.Injector

open Threads Code

def MAX_INJECT_ATTEMPTS : Nat := 3
def EFFECT_VERIFY_TIMEOUT_S : Nat := 35
def EFFECT_VERIFY_POLL_S : Nat := 5
def OOM_VERIFY_CEILING_S : Nat := 200
def OOM_VERIFY_POLL_S : Nat := 3
def OOM_BASELINE_MEMORY_REQUEST : String := "100Mi"
def CPU_THROTTLE_BASELINE_CPU_LIMIT : String := "300m"
def FRONT_END_IMAGE_BASELINE : String := "ghcr.io/aayush8392/front-end:0.3.12-wardence1"
def PAYMENT_READINESS_PATH_BASELINE : String := "/health"
def SESSION_FAILURE_SCALE_TIMEOUT_S : Nat := 60
def MEMORY_LEAK_CLEAN_FLOOR_WARN_MIB : Int := 60
def SYSTEM_LOCK_RETRY_S : Nat := 5
def SYSTEM_LOCK_MAX_WAIT_S : Nat := 30

def onlyIf (c : Prop) [Decidable c] (p : Routine Unit) : Routine Unit := if c then p else pure ()

def call (site : Site) (op : Op) : Routine Reply := stmt ⟨op, site⟩

def ask (site : Site) (r : Read) : Routine Reply := call site (.read r)

def command (site : Site) (c : Command) : Routine Unit := do let _ ← call site (.command c)

def sleep (site : Site) (s : Nat) : Routine Unit := command site (.sleep s)

/-- A read that answers yes or no. -/
def check (site : Site) (r : Read) : Routine Bool := do
  let x ← ask site r
  pure x.ok

/-- The command that undoes `f`; what it returns is not looked at. -/
def revert (site : Site) (f : Fault) : Routine Unit := do let _ ← call site (.revert f)

/-- How often `while elapsed <= timeout` runs, with `poll` added each time. -/
def polls (timeout poll : Nat) : Nat := timeout / poll + 1

/-- How often `while elapsed < duration` runs, with `tick` added each time. -/
def ticks (duration : Int) (tick : Nat) : Nat := (duration.toNat + (tick - 1)) / tick

/-- Asks up to `n` times, every `poll` seconds. -/
def pollEvery (site : Site) (poll : Nat) (asked : Routine Bool) : Nat → Routine Bool
  | 0 => pure false
  | n + 1 => do
    let b ← asked
    if b then pure true
    else do
      sleep site poll
      pollEvery site poll asked n

/-- The `_verify_*_effect` functions: until the check holds, for `EFFECT_VERIFY_TIMEOUT_S`. -/
def verifyEffect (site : Site) (asked : Routine Bool) : Routine Bool :=
  pollEvery site EFFECT_VERIFY_POLL_S asked (polls EFFECT_VERIFY_TIMEOUT_S EFFECT_VERIFY_POLL_S)

/-- `stop_file is not None and os.path.exists(stop_file)`. -/
def stopRequested (site : Site) (a : Args) : Routine Bool := if a.stopFile.isSome then check site .stopFile else pure false

/-- `_interruptible_sleep`, with `n` ticks and `remaining` seconds left. -/
def interruptibleTicks (site : Site) (a : Args) : Nat → Nat → Routine Bool
  | 0, _ => pure false
  | n + 1, remaining => do
    let stop ← stopRequested site a
    if stop then pure true
    else do
      sleep site (min 5 remaining)
      interruptibleTicks site a n (remaining - 5)

def interruptibleSleep (site : Site) (a : Args) (remaining : Int) : Routine Unit := do
  let _ ← interruptibleTicks site a (ticks remaining 5) remaining.toNat

def writeEvidenceFileOnce (site : Site) (a : Args) : Routine Unit :=
  onlyIf (a.evidenceFile.isSome) (command site .writeEvidence)

def currentPodName (site : Site) (target : String) : Routine (Option String) := do
  let x ← ask site (.currentPodName target)
  pure x.text

/-- `apply_manifest`: a command that fails raises. -/
def applyManifest (site : Site) (chaosName : String) : Routine Unit := do
  let x ← call site (.inject (.chaos chaosName))
  if x.ok then pure () else raise

def deleteChaosResource (site : Site) (chaosName : String) : Routine Unit := revert site (.chaos chaosName)

/-- A fresh name of a chaos resource. -/
def chaosNameFrom (site : Site) (chaosNamePrefix : String) : Routine String := do
  let x ← ask site .uuid
  pure (chaosNamePrefix ++ "-" ++ x.text.getD "")

/-- `_wait_for_replicas_available`. -/
def waitForReplicasAvailable (site : Site) (target : Int) (timeout : Nat) : Routine Bool :=
  pollEvery site EFFECT_VERIFY_POLL_S (do
    let x ← ask site .replicasAvailable
    pure (x.value = some target)) (polls timeout EFFECT_VERIFY_POLL_S)

/-! ## Before an injection -/

def rollout (site : Site) : Routine Unit := do let _ ← ask site .rolloutStatus

/-- Resets what `r` does not show as `baseline`, and waits for the rollout. -/
def resetUnless (r : Read) (baseline : String) (reset : Routine Unit) : Routine Unit := do
  let x ← ask .clean r
  onlyIf (x.text ≠ some baseline) do
    reset
    rollout .clean

def ensureCatalogueReplicaBaseline : Routine Unit := resetUnless .availableReplicas "1" (command .clean .scaleBaseline)

def ensureFrontEndImageBaseline : Routine Unit :=
  resetUnless .image FRONT_END_IMAGE_BASELINE (command .clean (.patchImage false))

def ensureCpuThrottleProbeBaseline : Routine Unit := resetUnless .probePeriod "3" (revert .clean .probes)

def ensureOomBaseline : Routine Unit := do
  let surge ← ask .clean .surge
  onlyIf (surge.text = some "0") (command .clean .patchStrategy)
  let limit ← ask .clean .memoryLimit
  let request ← ask .clean .memoryRequest
  onlyIf (¬ (limit.text = some OOM_BASELINE_MEMORY_LIMIT ∧ request.text = some OOM_BASELINE_MEMORY_REQUEST)) do
    command .clean .patchMemoryBaseline
    rollout .clean

/-- The rollout is waited for also when the path is the baseline. -/
def ensureInitFailureBaseline : Routine Unit := do
  let x ← ask .clean .readinessPath
  onlyIf (x.text ≠ some PAYMENT_READINESS_PATH_BASELINE) (revert .clean .readinessPath)
  rollout .clean

def ensureSessionFailureBaseline : Routine Unit := do
  let x ← ask .clean .replicasAvailable
  onlyIf (x.value ≠ some 1) do
    revert .clean .replicas
    let _ ← waitForReplicasAvailable .clean 1 SESSION_FAILURE_SCALE_TIMEOUT_S

def ensureCpuThrottleBaseline (a : Args) : Routine Unit := do
  let pod ← currentPodName .clean a.target
  let limit ← (if pod.isSome then (do let x ← ask .clean .cpuLimit; pure x.text) else pure none : Routine (Option String))
  onlyIf (limit ≠ some CPU_THROTTLE_BASELINE_CPU_LIMIT) do
    -- Resources that cannot be parsed fall back to the deployment's patch.
    let resized ← (if pod.isSome then do
        let resources ← ask .clean .resources
        if resources.ok then do
          let x ← call .clean (.command .resizePod)
          pure x.ok
        else pure false
      else pure false : Routine Bool)
    onlyIf (¬ resized) do
      command .clean .patchCpuLimit
      rollout .clean

def cartsPodReady : Routine Bool := do
  let x ← ask .clean .cartsPodReady
  pure (x.text = some "true")

def ensureCrashLoopBaseline : Routine Bool := do
  let selector ← ask .clean .selector
  let healed ← (if selector.text ≠ some "carts" then do
      let ready ← cartsPodReady
      if ready then do
        let x ← call .clean (.command .patchSelector)
        pure x.ok
      else pure false
    else pure true : Routine Bool)
  if healed then cartsPodReady else pure false

def deletePods : List String → Routine Unit
  | [] => pure ()
  | p :: ps => do
    command .clean (.deletePod p)
    deletePods ps

def ensureQueueMasterPodCleanup (a : Args) : Routine Unit := do
  let all ← ask .clean .allPods
  let running ← currentPodName .clean a.target
  deletePods (all.names.filter fun p => some p ≠ running)

/-- `_is_clean`. -/
def Status.isClean (s : Status) : Bool :=
  (s.state = some "IDLE" ∨ s.state = some "READY") ∧ s.allocatedMb ∈ [.missing, .number 0] ∧ s.graphSlots ∈ [.missing, .number 0]

/-- `float(post_gc_heap_mib or -1)`, with -1 for what cannot be read. -/
def Status.postGc (s : Status) : Int :=
  match s.postGcHeapMib with
  | .number n => n
  | _ => -1

/-- Up to `n` readings, one a second, until one is clean. -/
def confirmClean : Nat → Routine Bool
  | 0 => pure false
  | n + 1 => do
    sleep .clean 1
    let x ← ask .clean (.leakStatus .clean)
    if x.status.any (·.isClean) then pure true else confirmClean n

/-- Up to `n` readings until the heap has drained. -/
def confirmDrained : Nat → Routine Unit
  | 0 => pure ()
  | n + 1 => do
    let x ← ask .clean (.leakStatus .clean)
    if x.status.any fun s => s.postGc ≤ MEMORY_LEAK_CLEAN_FLOOR_WARN_MIB then pure ()
    else do
      sleep .clean 1
      confirmDrained n

def ensureMemoryLeakBaseline (a : Args) : Routine Unit := do
  let pod ← currentPodName .clean a.target
  onlyIf pod.isSome do
    let x ← ask .clean (.leakStatus .clean)
    match x.status with
    | none => pure ()
    | some s =>
      onlyIf (¬ (s.isClean ∧ s.postGc ≤ MEMORY_LEAK_CLEAN_FLOOR_WARN_MIB)) do
        revert .clean .leak
        let drained ← confirmClean 10
        onlyIf drained (confirmDrained 10)

/-- A Prometheus request that fails is no reason to restart. -/
def clearStaleOomStickyFlag : Routine Unit := do
  let x ← ask .clean .stickyOom
  onlyIf (x.ok ∧ x.value.isSome) do
    command .clean .rolloutRestart
    rollout .clean

/-- `_acquire_system_lock`, up to `n` times more. -/
def acquireTries : Nat → Routine Unit
  | 0 => do
    let x ← call .clean .acquireSystemLock
    onlyIf (¬ x.ok) do
      let _ ← call .clean .closeConn
      raise
  | n + 1 => do
    let x ← call .clean .acquireSystemLock
    onlyIf (¬ x.ok) do
      sleep .clean SYSTEM_LOCK_RETRY_S
      acquireTries n

def acquireSystemLockOrDie : Routine Unit := do
  let _ ← call .clean (.ensureDb .lock)
  acquireTries (SYSTEM_LOCK_MAX_WAIT_S / SYSTEM_LOCK_RETRY_S)
  let _ ← call .clean .closeConn

def releaseSystemLock : Routine Unit := do
  let _ ← call .clean (.ensureDb .release)
  let _ ← call .clean .releaseSystemLock
  let _ ← call .clean .closeConn

end Wardence.Injector
