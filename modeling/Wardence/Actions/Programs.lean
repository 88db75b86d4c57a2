import Mathlib.Data.List.Sort
import Wardence.Lib.Traces
import Wardence.Lib.Python
/-!
# What an action asks of the API server

The functions of `ALLOWED_ACTIONS` in `actions.py`, call by call: `Cluster.lean` has what
they make of the cluster, and here each call may succeed, be refused or raise. The
arguments are any JSON values. The texts that are printed are left out.
-/
namespace Wardence.Actions

open Threads Code Py

/-! ## Calls -/

inductive Op where
  | deployment
  | podResize
  | scale
  deriving DecidableEq

/-- A `resources` block, `to_dict()`; `none`: the key is missing. -/
structure Resources where
  limits : Option (Option Dict) := none
  requests : Option (Option Dict) := none
  claims : Option Val := none
  deriving DecidableEq

/-- The body of a patch. -/
inductive Body where
  | restartedAt (stamp : String)
  | limits (container : Val) (resource : String) (limit : Val)
  | resources (container : Val) (resources : Resources)
  | template (template : Val)
  | replicas (replicas : Val)
  deriving DecidableEq

/-- A mutating call, but for its `dry_run`. -/
structure Write where
  op : Op
  name : Val
  namespaceName : Val
  body : Body
  deriving DecidableEq

inductive Call where
  | patch (w : Write) (dryRun : Bool)
  /-- `_apps_v1` and `_core_v1`. -/
  | client
  | listPods (name namespaceName : Val)
  | readDeployment (name namespaceName : Val)
  | listReplicaSets (name namespaceName : Val)
  | clock
  | sleep (s : Nat)
  deriving DecidableEq

structure PodContainer where
  name : String
  resources : Option Resources
  deriving DecidableEq

structure Pod where
  name : String
  phase : Option String
  containers : List PodContainer
  deriving DecidableEq

structure ReplicaSet where
  annotations : Option (List (String × String))
  template : Val
  deriving DecidableEq

/-- What a call returns, of which each reads its own fields; `error`: an `ApiException`. -/
structure Reply where
  error : Option String := none
  pods : List Pod := []
  annotations : Option (List (String × String)) := none
  replicaSets : List ReplicaSet := []
  now : ℚ := 0
  stamp : String := ""
  deriving DecidableEq

abbrev Routine := Code Reply Call

/-- A call whose `ApiException` is not handled. -/
def ask (c : Call) : Routine Reply := do
  let r ← stmt c
  if r.error.isSome then raise else pure r

/-! ## Results -/

structure Applied where
  dryRunOk : Bool
  applied : Bool
  error : Option String
  deriving DecidableEq

structure Scaled extends Applied where
  target : Val
  replicas : Val
  namespaceName : Val
  deriving DecidableEq

structure Progress where
  step : String
  status : String
  detail : Option String
  stamp : String
  deriving DecidableEq

inductive Detail where
  | plain
  | limit (container limit : Val)
  | cpu (container limit : Val) (method : String) (pod : Option String)
  | scale (replicas : Val)
  | restore (scaleDown : Scaled) (scaleUp : Option Scaled) (progressLog : List Progress)
  deriving DecidableEq

/-- The dictionary an action returns; `dryRunOk` is `none` where it has no such key. -/
structure Result where
  action : String
  target : Val
  namespaceName : Val
  dryRunOk : Option Bool
  applied : Bool
  error : Option String
  detail : Detail
  deriving DecidableEq

def Applied.result (o : Applied) (action : String) (name namespaceName : Val) (detail : Detail) : Result :=
  ⟨action, name, namespaceName, some o.dryRunOk, o.applied, o.error, detail⟩

/-! ## The functions -/

/-- A dry-run, and the real call if it succeeds. -/
def dryRunThenApply (w : Write) : Routine Applied := do
  let dry ← stmt (.patch w true)
  match dry.error with
  | some e => pure ⟨false, false, some e⟩
  | none => do
    let real ← stmt (.patch w false)
    match real.error with
    | some e => pure ⟨true, false, some e⟩
    | none => pure ⟨true, true, none⟩

def patchDeployment (name namespaceName : Val) (body : Body) : Routine Applied := do
  let _ ← stmt .client
  dryRunThenApply ⟨.deployment, name, namespaceName, body⟩

def restartDeployment (name namespaceName : Val) : Routine Result := do
  let t ← stmt .clock
  let result ← patchDeployment name namespaceName (.restartedAt t.stamp)
  pure (result.result "restart_deployment" name namespaceName .plain)

def patchMemoryLimit (name container limit namespaceName : Val) : Routine Result := do
  let result ← patchDeployment name namespaceName (.limits container "memory" limit)
  pure (result.result "patch_memory_limit" name namespaceName (.limit container limit))

/-- `resources.setdefault("limits", {})["cpu"] = limit`; `none`: `limits` is there and is `None`. -/
def Resources.withCpu (r : Resources) (limit : Val) : Option Resources :=
  match r.limits with
  | none => some { r with limits := some (some (Dict.set ∅ "cpu" limit)) }
  | some none => none
  | some (some l) => some { r with limits := some (some (l.set "cpu" limit)) }

def running (pods : List Pod) : List Pod := pods.filter fun p => p.phase = some "Running"

/-- The resize of a live pod; `none`: there is no such container, or the API server refused. -/
def resizeInPlace (pod : Pod) (container limit namespaceName : Val) : Routine (Option Applied) :=
  match pod.containers.find? fun c => Val.str c.name = container with
  | none => pure none
  | some c =>
    match (c.resources.getD {}).withCpu limit with
    | none => raise
    | some resources => do
      let o ← dryRunThenApply ⟨.podResize, .str pod.name, namespaceName, .resources container resources⟩
      pure (if o.applied then some o else none)

def resizeFirst (pod : Option Pod) (container limit namespaceName : Val) : Routine (Option Applied) :=
  match pod with
  | some pod => resizeInPlace pod container limit namespaceName
  | none => pure none

def patchCpuLimit (name container limit namespaceName : Val) : Routine Result := do
  let _ ← stmt .client
  let pods ← ask (.listPods name namespaceName)
  let pod := (running pods.pods).head?
  let resized ← resizeFirst pod container limit namespaceName
  match resized with
  | some o => pure (o.result "patch_cpu_limit" name namespaceName (.cpu container limit "in_place_resize" (pod.map (·.name))))
  | none => do
    let result ← patchDeployment name namespaceName (.limits container "cpu" limit)
    pure (result.result "patch_cpu_limit" name namespaceName (.cpu container limit "deployment_patch_fallback" none))

def REVISION : String := "deployment.kubernetes.io/revision"

/-- The digits of an `int(s)`, with single underscores between them. -/
def intDigits (n : Nat) : List Char → Option Nat
  | [] => some n
  | c :: cs =>
    match digit? c with
    | some d => intDigits (10 * n + d) cs
    | none =>
      match c, cs with
      | '_', d :: cs => (digit? d).bind fun d => intDigits (10 * n + d) cs
      | _, _ => none

/-- `int(s)`; `none`: it raises. -/
def int? (s : String) : Option Int :=
  let (negative, cs) := match (strip s).toList with
    | '-' :: cs => (true, cs)
    | '+' :: cs => (false, cs)
    | cs => (false, cs)
  match cs with
  | [] => none
  | c :: cs => (digit? c).bind fun d => (intDigits d cs).map fun n => if negative then -(n : Int) else n

/-- The replica sets with a revision below `current`, each with it; `none`: an `int(..)` raises. -/
def previousCandidates (current : Int) : List ReplicaSet → Option (List (Int × ReplicaSet))
  | [] => some []
  | rs :: rest =>
    match rs.annotations.bind (·.lookup REVISION) with
    | none => previousCandidates current rest
    | some s => (int? s).bind fun n => (previousCandidates current rest).map fun l => if n < current then (n, rs) :: l else l

def rollbackDeployment (name namespaceName : Val) : Routine Result := do
  let refused := fun e => Applied.result ⟨false, false, some e⟩ "rollback_deployment" name namespaceName .plain
  let _ ← stmt .client
  let deployment ← stmt (.readDeployment name namespaceName)
  match deployment.error with
  | some e => pure (refused e)
  | none =>
    match int? (((deployment.annotations.getD []).lookup REVISION).getD "0") with
    | none => raise
    | some currentRevision => do
      let rsList ← stmt (.listReplicaSets name namespaceName)
      match rsList.error with
      | some e => pure (refused e)
      | none =>
        match previousCandidates currentRevision rsList.replicaSets with
        | none => raise
        | some candidates =>
          match (candidates.insertionSort fun a b => a.1 ≤ b.1).getLast? with
          | none => pure (refused "no previous revision found to roll back to")
          | some (_, targetRs) => do
            let result ← patchDeployment name namespaceName (.template targetRs.template)
            pure (result.result "rollback_deployment" name namespaceName .plain)

def scale (name replicas namespaceName : Val) : Routine Scaled := do
  let _ ← stmt .client
  let o ← dryRunThenApply ⟨.scale, name, namespaceName, .replicas replicas⟩
  pure ⟨o, name, replicas, namespaceName⟩

def scaleDeployment (name replicas namespaceName : Val) : Routine Result := do
  let o ← scale name replicas namespaceName
  pure (o.toApplied.result "scale_deployment" name namespaceName (.scale replicas))

def POD_TERMINATE_TIMEOUT_S : Nat := 60
def POD_START_TIMEOUT_S : Nat := 60

def waitForPodCount (name namespaceName expectedCount : Val) (timeoutS : Nat) : Routine Bool := do
  let _ ← stmt .client
  let start ← stmt .clock
  let deadline := start.now + timeoutS
  untilSome do
    let t ← stmt .clock
    if t.now < deadline then do
      let pods ← ask (.listPods name namespaceName)
      if expectedCount.asNum = some ((running pods.pods).length : ℚ) then pure (some true)
      else do
        let _ ← stmt (.sleep 2)
        pure none
    else pure (some false)

/-- `_record_step`, on the log of this run. -/
def recordStep (log : List Progress) (step status : String) (detail : Option String) : Routine (List Progress) := do
  let t ← stmt .clock
  pure (log ++ [⟨step, status, detail, t.stamp⟩])

/-- The second half of `restore_from_disk_full`: up again, and a wait for the new pod. -/
def scaleBackUp (name namespaceName replicas : Val) (log : List Progress) : Routine (Scaled × List Progress) := do
  let log ← recordStep log "scaling_up" "in_progress" none
  let up ← scale name replicas namespaceName
  if up.applied then do
    let log ← recordStep log "scaling_up" "done" none
    let log ← recordStep log "waiting_for_new_pod" "in_progress" none
    let podBack ← waitForPodCount name namespaceName replicas POD_START_TIMEOUT_S
    if podBack then do
      let log ← recordStep log "waiting_for_new_pod" "done" none
      pure (up, log)
    else do
      let log ← recordStep log "waiting_for_new_pod" "timed_out" none
      pure ({ up with applied := false, error := some "timed out waiting for new pod to start Running" }, log)
  else do
    let log ← recordStep log "scaling_up" "failed" up.error
    pure (up, log)

def restoreFromDiskFull (name namespaceName replicas : Val) : Routine Result := do
  let report := fun applied error down up log =>
    (⟨"restore_from_disk_full", name, namespaceName, none, applied, error, .restore down up log⟩ : Result)
  -- the key of `_PROGRESS`
  if name.hashable && namespaceName.hashable then do
    let log ← recordStep [] "scaling_down" "in_progress" none
    let down ← scale name (.int 0) namespaceName
    if down.applied then do
      let log ← recordStep log "scaling_down" "done" none
      let log ← recordStep log "waiting_for_termination" "in_progress" none
      let podGone ← waitForPodCount name namespaceName (.int 0) POD_TERMINATE_TIMEOUT_S
      let log ← recordStep log "waiting_for_termination" (if podGone then "done" else "timed_out") none
      -- up again, also if the old pod was not seen to go
      let (up, log) ← scaleBackUp name namespaceName replicas log
      if podGone then do
        let log ← recordStep log "complete" (if up.applied then "done" else "failed") none
        pure (report up.applied up.error down (some up) log)
      else do
        let log ← recordStep log "complete" "failed" (some "old pod never terminated")
        pure (report false (some ("timed out waiting for old pod to terminate before scaling back up -- " ++
          "the fix cannot be trusted to have cleared the disk (scaled back up anyway to avoid leaving the deployment at 0)"))
          down (some up) log)
    else do
      let log ← recordStep log "scaling_down" "failed" down.error
      pure (report false (some ("scale-to-0 failed: " ++ down.error.getD "None")) down none log)
  else raise

/-- A function of `ALLOWED_ACTIONS` and its arguments. -/
inductive Action where
  | restartDeployment (name namespaceName : Val)
  | patchMemoryLimit (name container limit namespaceName : Val)
  | patchCpuLimit (name container limit namespaceName : Val)
  | scaleDeployment (name replicas namespaceName : Val)
  | rollbackDeployment (name namespaceName : Val)
  | restoreFromDiskFull (name namespaceName replicas : Val)
  deriving DecidableEq

def Action.run : Action → Routine Result
  | .restartDeployment name ns => Actions.restartDeployment name ns
  | .patchMemoryLimit name container limit ns => Actions.patchMemoryLimit name container limit ns
  | .patchCpuLimit name container limit ns => Actions.patchCpuLimit name container limit ns
  | .scaleDeployment name replicas ns => Actions.scaleDeployment name replicas ns
  | .rollbackDeployment name ns => Actions.rollbackDeployment name ns
  | .restoreFromDiskFull name ns replicas => Actions.restoreFromDiskFull name ns replicas

end Wardence.Actions
