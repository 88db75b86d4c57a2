import Mathlib.Data.List.MinMax
import Wardence.Agent
/-!
# The action layer

From `actions.py`: the six actions, on the part of the cluster they read and
write, with the live read of `constraint_checks.py`. What the API server accepts
and how it spells a quantity are parameters. What the controllers make of it
later is left out: they replace pods, and nothing reads a pod after an action.
-/
namespace Wardence

open Keyed

/-- A container, and the limits its resources set. -/
structure Container where
  name : String
  cpu : Option String := none
  memory : Option String := none

structure Deployment where
  template : List Container
  replicas : Int
  revision : Nat
  /-- Those of its ReplicaSets that carry a revision. -/
  replicaSets : List (Nat × List Container)

/-- A workload's namespace and name. -/
abbrev Address := String × String

structure Cluster where
  deployments : Table Address Deployment
  /-- The containers of each pod in phase `Running` with the workload's label. -/
  running : Address → List (List Container)

/-- The body of a Deployment patch. -/
inductive Patch where
  | restartedAt
  | limits (c : Container)
  | template (t : List Container)

inductive Request where
  | patchDeployment (key : Address) (p : Patch) (dryRun : Bool)
  | patchScale (key : Address) (replicas : Int) (dryRun : Bool)
  | patchPodResize (key : Address) (c : Container) (dryRun : Bool)
  | readDeployment (key : Address)
  | listReplicaSets (key : Address)

/-- The API server, and how long the pods take. -/
structure Api where
  accepts : Request → Bool
  canonical : String → String
  /-- `_wait_for_pod_count`. -/
  reaches : Address → Int → Bool

/-! ## Patches -/

/-- A strategic merge: containers go by name, and a limit that the patch leaves out stays. -/
def mergeContainer (t : List Container) (c : Container) : List Container :=
  if t.any (·.name = c.name) then
    t.map fun old => if old.name = c.name then ⟨old.name, c.cpu <|> old.cpu, c.memory <|> old.memory⟩ else old
  else t ++ [c]

/-- The patched template. Limits for a container that is not there are refused: it would have no image. -/
def Patch.merge (api : Api) (t : List Container) : Patch → Option (List Container)
  | .restartedAt => some t
  | .limits c =>
    if t.any (·.name = c.name) then
      some (mergeContainer t ⟨c.name, c.cpu.map api.canonical, c.memory.map api.canonical⟩)
    else none
  | .template new => some (new.foldl mergeContainer t)

/-- `_patch_deployment`. -/
def patchDeployment (api : Api) (k : Cluster) (key : Address) (p : Patch) : ActionResult × Cluster :=
  match (k.deployments.lookup key).bind fun d => (p.merge api d.template).map fun t => { d with template := t } with
  | some d =>
    if api.accepts (.patchDeployment key p true) && api.accepts (.patchDeployment key p false) then
      (⟨true⟩, { k with deployments := k.deployments.insert key d })
    else (⟨false⟩, k)
  | none => (⟨false⟩, k)

/-! ## The actions -/

def restartDeployment (api : Api) (k : Cluster) (key : Address) : ActionResult × Cluster :=
  patchDeployment api k key .restartedAt

def patchMemoryLimit (api : Api) (k : Cluster) (key : Address) (container limit : String) : ActionResult × Cluster :=
  patchDeployment api k key (.limits { name := container, memory := some limit })

/-- Resizes the first running pod in place; `none` is each way that can fail. -/
def resizeInPlace (api : Api) (k : Cluster) (key : Address) (c : Container) : Option Cluster :=
  match k.running key with
  | [] => none
  | pod :: pods =>
    if pod.any (·.name = c.name) && api.accepts (.patchPodResize key c true) && api.accepts (.patchPodResize key c false) then
      let resized := mergeContainer pod { c with cpu := c.cpu.map api.canonical }
      some { k with running := Function.update k.running key (resized :: pods) }
    else none

/-- The live pod is resized where it can be, and the Deployment is patched where it cannot. -/
def patchCpuLimit (api : Api) (k : Cluster) (key : Address) (container limit : String) : ActionResult × Cluster :=
  let c : Container := { name := container, cpu := some limit }
  match resizeInPlace api k key c with
  | some k' => (⟨true⟩, k')
  | none => patchDeployment api k key (.limits c)

/-- The newest revision below the current one. -/
def Deployment.previous (d : Deployment) : Option (Nat × List Container) :=
  (d.replicaSets.filter fun rs => rs.1 < d.revision).reverse.argmax (·.1)

def rollbackDeployment (api : Api) (k : Cluster) (key : Address) : ActionResult × Cluster :=
  match k.deployments.lookup key with
  | some d =>
    if api.accepts (.readDeployment key) && api.accepts (.listReplicaSets key) then
      match d.previous with
      | some rs => patchDeployment api k key (.template rs.2)
      | none => (⟨false⟩, k)
    else (⟨false⟩, k)
  | none => (⟨false⟩, k)

def scaleDeployment (api : Api) (k : Cluster) (key : Address) (replicas : Int) : ActionResult × Cluster :=
  match k.deployments.lookup key with
  | some d =>
    if api.accepts (.patchScale key replicas true) && api.accepts (.patchScale key replicas false) then
      (⟨true⟩, { k with deployments := k.deployments.insert key { d with replicas } })
    else (⟨false⟩, k)
  | none => (⟨false⟩, k)

/-- Down to nothing and up again, whether or not the old pod was seen to go. -/
def restoreFromDiskFull (api : Api) (k : Cluster) (key : Address) (replicas : Int) : ActionResult × Cluster :=
  let down := scaleDeployment api k key 0
  if down.1.applied then
    let gone := api.reaches key 0
    let up := scaleDeployment api down.2 key replicas
    (⟨gone && up.1.applied && api.reaches key replicas⟩, up.2)
  else (⟨false⟩, k)

/-! ## Calls -/

def Call.str (c : Call) (key : String) : Option String := (c.params.lookup key).bind (·.asStr)

/-- An integer argument. -/
def Call.int (c : Call) (key : String) : Option Int :=
  match c.params.lookup key with
  | some (.int n) => some n
  | _ => none

/-- An action function and its own arguments. -/
inductive Action where
  | restartDeployment
  | patchMemoryLimit (container limit : String)
  | patchCpuLimit (container limit : String)
  | scaleDeployment (replicas : Int)
  | rollbackDeployment
  | restoreFromDiskFull (replicas : Int)

def Action.run (api : Api) (k : Cluster) (key : Address) : Action → ActionResult × Cluster
  | .restartDeployment => Wardence.restartDeployment api k key
  | .patchMemoryLimit container limit => Wardence.patchMemoryLimit api k key container limit
  | .patchCpuLimit container limit => Wardence.patchCpuLimit api k key container limit
  | .scaleDeployment replicas => Wardence.scaleDeployment api k key replicas
  | .rollbackDeployment => Wardence.rollbackDeployment api k key
  | .restoreFromDiskFull replicas => Wardence.restoreFromDiskFull api k key replicas

/-- Binds a call's keyword arguments; `none` is a call that raises there. -/
def Call.action (c : Call) : Option Action :=
  if c.tool = "restart_deployment" then some .restartDeployment
  else if c.tool = "patch_memory_limit" then return .patchMemoryLimit (← c.str "container") (← c.str "limit")
  else if c.tool = "patch_cpu_limit" then return .patchCpuLimit (← c.str "container") (← c.str "limit")
  else if c.tool = "scale_deployment" then return .scaleDeployment (← c.int "replicas")
  else if c.tool = "rollback_deployment" then some .rollbackDeployment
  else if c.tool = "restore_from_disk_full" then
    if (c.params.lookup "replicas").isSome then (c.int "replicas").map .restoreFromDiskFull else some (.restoreFromDiskFull 1)
  else none

def Call.address (c : Call) : Option Address := do return (← c.ns.asStr, ← c.str "name")

/-- Calls the action function. -/
def Call.run (api : Api) (k : Cluster) (c : Call) : Option (ActionResult × Cluster) := do
  return (← c.action).run api k (← c.address)

/-- The cluster once `/act` has called what it calls. -/
def Cluster.after (k : Cluster) (api : Api) (call : Option Call) : Cluster :=
  ((call.bind (·.run api k)).map (·.2)).getD k

/-- The CPU limit of a template's first container. -/
def headCpu (t : List Container) : Option String := t.head?.bind (·.cpu)

def Cluster.cpu (k : Cluster) (key : Address) : Option String :=
  (k.deployments.lookup key).bind fun d => headCpu d.template

/-- `_live_cpu_limit_millicores`. -/
def Cluster.liveCpu (k : Cluster) (target ns : String) : Option ℚ :=
  (k.cpu (ns, target)).bind fun s => toMillicores (.str (Py.strip s))

/-- What is outside the code, for an agent on this cluster. -/
def Api.world (api : Api) (k : Cluster) (replies : Nat → Reply) : World where
  replies := replies
  liveCpu := k.liveCpu
  perform tool params := ((Call.run api k ⟨tool, params⟩).map (·.1)).getD ⟨false⟩

/-! ## The CPU limits an action leaves -/

theorem headCpu_mergeContainer {t : List Container} {c : Container} (hc : c.cpu = none) (ht : t.any (·.name = c.name) = true) :
    headCpu (mergeContainer t c) = headCpu t := by
  rw [mergeContainer, if_pos ht]
  cases t with
  | nil => rfl
  | cons old rest =>
    simp only [headCpu, List.map_cons, List.head?_cons, Option.bind_some]
    split
    · rw [hc]; rfl
    · rfl

/-- A patch that says nothing of CPU. -/
def Patch.NoCpu : Patch → Prop
  | .restartedAt => True
  | .limits c => c.cpu = none
  | .template _ => False

theorem headCpu_merge {api : Api} {p : Patch} (hp : p.NoCpu) {t t' : List Container} (h : p.merge api t = some t') :
    headCpu t' = headCpu t := by
  cases p with
  | restartedAt =>
    cases h
    rfl
  | template new => exact hp.elim
  | limits c =>
    simp only [Patch.merge] at h
    split at h
    · rename_i ht
      cases h
      exact headCpu_mergeContainer (by rw [show c.cpu = none from hp]; rfl) ht
    · cases h

/-- The Deployment under `key` gives way to one whose first container has the same limit. -/
theorem cpu_insert {k : Cluster} {key : Address} {d d' : Deployment} (hd : k.deployments.lookup key = some d)
    (h : headCpu d'.template = headCpu d.template) (j : Address) :
    ({ k with deployments := k.deployments.insert key d' } : Cluster).cpu j = k.cpu j := by
  simp only [Cluster.cpu, Table.lookup_upsert]
  by_cases hj : j = key
  · rw [if_pos hj, hj, hd]
    exact h
  · rw [if_neg hj]

theorem cpu_patchDeployment {p : Patch} (hp : p.NoCpu) (api : Api) (k : Cluster) (key j : Address) :
    (patchDeployment api k key p).2.cpu j = k.cpu j := by
  unfold patchDeployment
  split
  · rename_i d' hd'
    obtain ⟨d, hd, hmap⟩ := Option.bind_eq_some_iff.1 hd'
    obtain ⟨t, ht, rfl⟩ := Option.map_eq_some_iff.1 hmap
    split
    · exact cpu_insert hd (headCpu_merge hp ht) j
    · rfl
  · rfl

theorem cpu_scaleDeployment (api : Api) (k : Cluster) (key j : Address) (replicas : Int) :
    (scaleDeployment api k key replicas).2.cpu j = k.cpu j := by
  unfold scaleDeployment
  split
  · rename_i d hd
    split
    · have hsame : headCpu ({ d with replicas } : Deployment).template = headCpu d.template := rfl
      exact cpu_insert hd hsame j
    · rfl
  · rfl

theorem cpu_restoreFromDiskFull (api : Api) (k : Cluster) (key j : Address) (replicas : Int) :
    (restoreFromDiskFull api k key replicas).2.cpu j = k.cpu j := by
  unfold restoreFromDiskFull
  simp only
  split
  · rw [cpu_scaleDeployment, cpu_scaleDeployment]
  · rfl

/-- A resize in place leaves every Deployment as it was. -/
theorem cpu_resizeInPlace {api : Api} {k k' : Cluster} {key : Address} {c : Container}
    (h : resizeInPlace api k key c = some k') (j : Address) : k'.cpu j = k.cpu j := by
  unfold resizeInPlace at h
  split at h
  · cases h
  · split at h
    · cases h
      rfl
    · cases h

theorem cpu_patchCpuLimit {api : Api} {k : Cluster} {key : Address} {container limit : String}
    (h : resizeInPlace api k key { name := container, cpu := some limit } ≠ none) (j : Address) :
    (patchCpuLimit api k key container limit).2.cpu j = k.cpu j := by
  unfold patchCpuLimit
  simp only
  split
  · rename_i k' hk
    exact cpu_resizeInPlace hk j
  · exact absurd ‹_› h

/-- The action patches a CPU limit and cannot resize a pod, or it is a rollback. -/
def Action.MovesCpu (api : Api) (k : Cluster) (key : Address) : Action → Prop
  | .patchCpuLimit container limit => resizeInPlace api k key { name := container, cpu := some limit } = none
  | .rollbackDeployment => True
  | _ => False

theorem cpu_run {api : Api} {k : Cluster} {key : Address} {a : Action} (h : ¬ a.MovesCpu api k key) (j : Address) :
    (a.run api k key).2.cpu j = k.cpu j := by
  cases a with
  | restartDeployment => exact cpu_patchDeployment (p := .restartedAt) trivial api k key j
  | patchMemoryLimit container limit =>
    exact cpu_patchDeployment (p := .limits { name := container, memory := some limit }) rfl api k key j
  | patchCpuLimit container limit => exact cpu_patchCpuLimit h j
  | scaleDeployment replicas => exact cpu_scaleDeployment api k key j replicas
  | rollbackDeployment => exact absurd trivial h
  | restoreFromDiskFull replicas => exact cpu_restoreFromDiskFull api k key j replicas

/-- Only a CPU patch that goes through the Deployment, or a rollback, moves a limit the live read can see. -/
theorem cpu_after {api : Api} {k : Cluster} {call : Option Call}
    (h : ∀ c key a, call = some c → c.address = some key → c.action = some a → ¬ a.MovesCpu api k key) (j : Address) :
    (k.after api call).cpu j = k.cpu j := by
  cases call with
  | none => rfl
  | some c =>
    unfold Cluster.after Call.run
    cases ha : c.action with
    | none => simp [ha]
    | some a =>
      cases hk : c.address with
      | none => simp [ha, hk]
      | some key =>
        simp only [Option.bind_some, ha, hk]
        exact cpu_run (h c key a rfl hk ha) j

end Wardence
