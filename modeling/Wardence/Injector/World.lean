import Wardence.Lib.Traces
import Wardence.Constraints
/-!
# What a run of the injector does

The calls of `injector.py` to the cluster, Prometheus, the clock, its files and the
database, and the row that its run leaves in `episodes`. What a call answers is
open: one `Reply`, of which each call reads its own fields.
-/
namespace Wardence.Injector

open Threads Code

inductive FaultClass where
  | crashLoop
  | oom
  | diskFull
  | networkLatency
  | memoryLeak
  | connectionPoolExhaustion
  | networkPartition
  | initFailure
  | sessionCartFailure
  | underProvisionedReplicas
  | badRollout
  | cpuThrottling
  deriving DecidableEq, Repr

def FaultClass.name : FaultClass → String
  | .crashLoop => "crash-loop"
  | .oom => "oom"
  | .diskFull => "disk-full"
  | .networkLatency => "network-latency"
  | .memoryLeak => "memory-leak"
  | .connectionPoolExhaustion => "connection-pool-exhaustion"
  | .networkPartition => "network-partition"
  | .initFailure => "init-failure"
  | .sessionCartFailure => "session-cart-failure"
  | .underProvisionedReplicas => "under-provisioned-replicas"
  | .badRollout => "bad-rollout"
  | .cpuThrottling => "cpu-throttling"

/-- `duration_s` of `FAULT_CONFIG`. -/
def FaultClass.durationS : FaultClass → Int
  | .crashLoop => 40
  | .oom => 90
  | .memoryLeak => 180
  | .underProvisionedReplicas => 20
  | _ => 60

/-- The command line, the environment, and the time of the start. -/
structure Args where
  faultClass : FaultClass
  durationOverride : Option Int
  /-- `--episode-id`: the row exists before the run. -/
  episodeId : Option String
  stopFile : Option String
  evidenceFile : Option String
  t0 : Nat
  /-- `WARDENCE_MEMLEAK_NO_LEAK`. -/
  noLeak : Bool
  deriving DecidableEq, Repr

namespace Args

def target (a : Args) : String := ((FAULT_CONFIG.lookup a.faultClass.name).getD ("", "")).1
def namespaceName (a : Args) : String := ((FAULT_CONFIG.lookup a.faultClass.name).getD ("", "")).2
def durationS (a : Args) : Int := a.durationOverride.getD a.faultClass.durationS

end Args

/-! ## Answers -/

/-- A field of the leak agent's status file: missing, a number, or other text. -/
inductive Field where
  | missing
  | number (n : Int)
  | text
  deriving DecidableEq, Repr

/-- `int(field or 0)`, with 0 for what cannot be read. -/
def Field.toInt : Field → Int
  | .number n => n
  | _ => 0

structure Status where
  state : Option String
  allocatedMb : Field
  graphSlots : Field
  postGcHeapMib : Field
  deriving DecidableEq, Repr

/-- What `_probe_frontend_connectivity` measures. -/
structure Probe where
  attempts : Nat
  connectFailures : Nat
  maxHttpMs : Nat
  deriving DecidableEq, Repr

/-- What a call may answer. -/
structure Reply where
  /-- The return code is 0, the file exists, the check holds, the query went through. -/
  ok : Bool
  value : Option Int
  text : Option String
  names : List String
  now : Nat
  status : Option Status
  probe : Option Probe
  deriving DecidableEq, Repr

/-- A reply that says yes. -/
def yes : Reply := ⟨true, none, none, [], 0, none, none⟩

/-! ## Calls -/

/-- A fault, with the command that brings it about and the one that undoes it. -/
inductive Fault where
  /-- A chaos resource: `apply_manifest`, `delete_chaos_resource`. -/
  | chaos (name : String)
  /-- `payment`'s readiness path: `_patch_payment_readiness_path`. -/
  | readinessPath
  /-- `session-db` scaled to 0, and to 1: `_scale_deployment`. -/
  | replicas
  /-- The connection flood, and `pkill -f "SELECT SLEEP"`. -/
  | flood
  /-- The leak agent's `GRAPH` and `RELEASE`. -/
  | leak
  /-- `user`'s loose and tight probes: `_patch_user_probes`. -/
  | probes
  /-- `catalogue`'s memory limit and rollout strategy: `forced_patch`, `restore_patch`. -/
  | memoryLimit
  deriving DecidableEq, Repr

/-- Why the leak agent's status is read; `ramp` with the readings left after this one. -/
inductive StatusUse where
  | clean
  | baseline
  | ramp (left : Nat)
  | saturation
  deriving DecidableEq, Repr

/-- A call that only reads. -/
inductive Read where
  | time
  | stopFile
  | uuid
  | currentPodName (target : String)
  /-- `_current_pod_name` in `_cleanup_connection_flood`. -/
  | floodPod
  | allPods
  | selector
  | cartsPodReady
  | readinessPath
  | image
  | availableReplicas
  | surge
  | memoryLimit
  | memoryRequest
  | cpuLimit
  | resources
  | probePeriod
  | rollingUpdate
  | podByLabel
  | podReady
  | podRestartCount
  | terminatedReason
  | rolloutStatus
  | stickyOom
  /-- `_restart_count`; with the count it is compared with. -/
  | restartCount (base : Option Int)
  | crashLoopBackoff
  | podEvictedSince
  | heapUsed
  | cfsThrottledPeriods
  | cfsThrottledPeriodsForPod
  | replicasAvailable
  | paymentStuckNotReady
  | imagePullFailing
  | ordersLatency
  | frontendConnectivity
  | burstP95
  | samplerLogs
  | threadsConnected
  | testConnectionFails
  | mysqlReady
  | leakStatus (u : StatusUse)
  | kubectlLogs
  deriving DecidableEq, Repr

/-- A command that no other one undoes. -/
inductive Command where
  | sleep (s : Nat)
  | writeEvidence
  | rolloutRestart
  | patchSelector
  | deletePod (name : String)
  | resizePod
  | patchCpuLimit
  | patchStrategy
  | patchMemoryBaseline
  | scaleBaseline
  | patchImage (broken : Bool)
  | killMainProcess
  | writeLargeFile
  | removeFillFiles
  | createFloodUser
  | createLoginUser
  | launchCheckoutLoadBurst
  | launchLoginLoad
  | launchCatalogueBurst
  | launchSampler
  | killPodNow
  | terminateLoad
  | waitLoad
  | killLoad
  deriving DecidableEq, Repr

/-- What a connection to the database is opened for. -/
inductive DbUse where
  | lock
  | inject
  | record
  | release
  deriving DecidableEq, Repr

inductive Op where
  | read (r : Read)
  | command (c : Command)
  | inject (f : Fault)
  | revert (f : Fault)
  | ensureDb (u : DbUse)
  | closeConn
  | acquireSystemLock
  | releaseSystemLock
  /-- The upsert of `_capture_memory_leak_baseline`, and its commit. -/
  | upsertBaseline (kb : Int)
  /-- The upsert of `_persist_network_probe`, and its commit. -/
  | upsertProbe (p : Probe)
  /-- `record_episode`. -/
  | recordEpisode (chaosName : String)
  deriving DecidableEq, Repr

/-- Where a call stands: with no fault to undo; in a `try` whose `finally` undoes the
fault; or with a fault to undo and nothing that undoes it if the call raises. -/
inductive Site where
  | clean
  | tried
  | bare
  deriving DecidableEq, Repr

structure Call where
  op : Op
  site : Site
  deriving DecidableEq, Repr

abbrev Routine := Code Reply Call

abbrev Trace := List (Did Reply Call)

/-! ## The episode's row -/

structure Row where
  faultClass : FaultClass
  target : String
  namespaceName : String
  t0 : Option Nat
  chaosResourceName : Option String
  memoryLeakBaselineHeapKb : Option Int
  networkProbe : Option Probe
  deriving DecidableEq, Repr

namespace Args

/-- The row before the run: none of a batch run, the one that the API has inserted of a live one. -/
def row (a : Args) : Option Row :=
  a.episodeId.map fun _ => ⟨a.faultClass, a.target, a.namespaceName, none, none, none, none⟩

/-- The placeholder row of the upserts during the injection. -/
def pendingRow (a : Args) : Row := ⟨a.faultClass, a.target, a.namespaceName, some a.t0, some "pending", none, none⟩

/-- What a committed statement makes of the row. -/
def commit (a : Args) (row : Option Row) : Op → Option Row
  | .upsertBaseline kb => some { row.getD a.pendingRow with memoryLeakBaselineHeapKb := some kb }
  | .upsertProbe p => some { row.getD a.pendingRow with networkProbe := some p }
  | .recordEpisode n =>
    some { row.getD a.pendingRow with
      faultClass := a.faultClass
      target := a.target
      namespaceName := a.namespaceName
      t0 := some a.t0
      chaosResourceName := some n }
  | _ => row

def did (a : Args) (row : Option Row) : Did Reply Call → Option Row
  | .ran c _ => a.commit row c.op
  | .raised _ => row

/-- The row after the run. -/
def rowAfter (a : Args) (tr : Trace) : Option Row := tr.foldl a.did a.row

end Args

end Wardence.Injector
