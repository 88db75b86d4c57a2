import Mathlib.Data.List.Infix
import Mathlib.Data.List.Sort
import Wardence.Lib.Python
import Wardence.Lib.Scripts
/-!
# The leak agent's installer

`install_shipping_leak_agent.py`: an install and a rollback act on `shipping`'s Deployment, on the
ConfigMap with the agent's jar, and on the directory with the backups. What every command of a
run comes to is an input, and so is where the run ends. Of the Deployment's spec, what the
installer reads or writes; a list that is missing is empty. `print`, the texts of commands and the
pods' manifests are left out.
-/
namespace Wardence.Installer

open Scripts

/-! ## A Deployment -/

structure EnvVar where
  name : String
  /-- `none`: not with a `value`. -/
  value : Option String
  deriving DecidableEq

structure VolumeMount where
  name : String
  mountPath : String
  deriving DecidableEq

structure Container where
  name : String
  image : String
  env : List EnvVar
  volumeMounts : List VolumeMount
  deriving DecidableEq

structure InitContainer where
  name : String
  image : String
  command : List String
  volumeMounts : List VolumeMount
  deriving DecidableEq

inductive VolumeSource where
  | configMap (name : String)
  | emptyDir (medium sizeLimit : Option String)
  | other (source : String)
  deriving DecidableEq

structure Volume where
  name : String
  source : VolumeSource
  deriving DecidableEq

inductive IntOrString where
  | int (n : Int)
  | str (s : String)
  deriving DecidableEq

structure RollingUpdate where
  maxSurge : IntOrString
  maxUnavailable : IntOrString
  deriving DecidableEq

structure Strategy where
  type : String
  rollingUpdate : Option RollingUpdate
  deriving DecidableEq

structure Spec where
  minReadySeconds : Option Nat
  strategy : Option Strategy
  /-- The template's `restartedAt` annotation. -/
  restartedAt : Option Nat
  containers : List Container
  volumes : List Volume
  initContainers : List InitContainer
  deriving DecidableEq

def CONTAINER : String := "shipping"
def CONFIGMAP_NAME : String := "shipping-leak-agent-jar"
def MIN_READY_SECONDS : Nat := 400
def READY_WAIT_S : Nat := 400

/-- A pod of the Deployment cannot start without the agent's ConfigMap. -/
def Spec.references (d : Spec) : Bool := d.volumes.any (·.source = .configMap CONFIGMAP_NAME)

def updateFirst {α : Type} (p : α → Bool) (f : α → α) : List α → List α
  | [] => []
  | x :: xs => if p x then f x :: xs else x :: updateFirst p f xs

/-- Appended unless there is one of its name. -/
def addNamed {α : Type} (name : α → String) (x : α) (xs : List α) : List α :=
  if xs.any fun y => name y = name x then xs else xs ++ [x]

def contains (s part : String) : Bool := decide (part.toList <:+: s.toList)

/-- `JAVA_OPTS` with the agent. -/
def patchedJavaOpts (orig : String) : String :=
  if contains orig "-javaagent" then orig else Py.strip (Py.strip orig ++ " -javaagent:/agent/leak-agent.jar")

def patchMain (javaOpts : String) (main : Container) : Container :=
  { main with
    env := updateFirst (·.name = "JAVA_OPTS") (fun e => { e with value := some (patchedJavaOpts javaOpts) }) main.env
    volumeMounts := addNamed (·.name) ⟨"agent-ctl", "/agent-ctl"⟩ (addNamed (·.name) ⟨"agent-jar", "/agent"⟩ main.volumeMounts) }

def patchVolumes (volumes : List Volume) : List Volume :=
  addNamed (·.name) ⟨"agent-ctl", .emptyDir (some "Memory") (some "2Mi")⟩
    (addNamed (·.name) ⟨"agent-jar", .emptyDir none none⟩ (addNamed (·.name) ⟨"agent-src", .configMap CONFIGMAP_NAME⟩ volumes))

/-- What `patch_deployment` makes of the live spec; `none`: there is no container or no `JAVA_OPTS` to patch. -/
def patchSpec (d : Spec) : Option Spec := do
  let main ← d.containers.find? (·.name = CONTAINER)
  let javaOptsEnv ← main.env.find? (·.name = "JAVA_OPTS")
  let origJavaOpts ← javaOptsEnv.value
  return { d with
    containers := updateFirst (·.name = CONTAINER) (patchMain origJavaOpts) d.containers
    volumes := patchVolumes d.volumes
    initContainers := addNamed (·.name) ⟨"agent-jar-copy", main.image, ["sh", "-c", "cp /agent-src/leak-agent.jar /agent/leak-agent.jar"],
      [⟨"agent-src", "/agent-src"⟩, ⟨"agent-jar", "/agent"⟩]⟩ d.initContainers
    minReadySeconds := some MIN_READY_SECONDS
    strategy := some ⟨"RollingUpdate", some ⟨.int 1, .int 0⟩⟩ }

/-! ## What the runs act on -/

/-- A backup, with the time in its name. -/
structure Backup where
  ts : Nat
  spec : Spec
  deriving DecidableEq

structure World where
  live : Spec
  /-- The agent's ConfigMap exists. -/
  configMap : Bool
  /-- `BACKUP_DIR`, when it exists. -/
  backups : Option (List Backup)

/-- `backup_path.write_text`. -/
def World.write (ts : Nat) (w : World) : World :=
  { w with backups := some (⟨ts, w.live⟩ :: (w.backups.getD []).filter (·.ts ≠ ts)) }

/-- `sorted(BACKUP_DIR.glob(..))[-1]`: the names sort as their times. -/
def World.latest (w : World) : Option Backup := ((w.backups.getD []).insertionSort (·.ts ≤ ·.ts)).getLast?

/-! ## The script -/

inductive Step where
  -- `build_jar`
  | deleteBuilder
  | builderImage
  | runBuilder
  | builderReady
  | makeSourceDir
  | writeSource
  | writeManifest
  | sourceBytes
  | build
  | catJar
  | jarBytes
  | cleanBuilder
  -- `preflight_validate`
  | deletePreflight
  | preflightImage
  | preflightJavaOpts
  | deleteConfigMap
  | createConfigMap
  | applyPreflight
  | preflightReady
  | preflightStatus (left : Nat)
  | preflightBeat (left : Nat)
  | allocate
  | allocated
  | release
  | cleanPreflight
  -- `backup_current_spec`
  | makeBackupDir
  | getBackup
  | writeBackup
  -- `patch_deployment`
  | getDeployment
  | applyPatch
  | rolloutRestart
  -- `wait_and_verify`
  | rolloutStatus
  | podName
  | podIp
  | inPodBytes
  | frontEnd
  | probe (left : Nat)
  | podStatus (left : Nat)
  | podBeat (left : Nat)
  -- `rollback`
  | applyBackup
  | rollbackStatus
  | dropConfigMap

structure Reply where
  /-- `stdout` -/
  text : String
  /-- `int` of its first word. -/
  number : Option Int
  /-- How many bytes it has. -/
  bytes : Nat

abbrev Environment := Step → Outcome Reply

abbrev Install := Script Step Reply World

def Reply.blank (r : Reply) : Bool := Py.strip r.text = ""

def buildJar (sourceBytes : Nat) : Install Nat := do
  let _ ← look .deleteBuilder
  let image ← look .builderImage
  check (¬ image.reply.blank)
  let _ ← look .runBuilder
  let ready ← look .builderReady
  check ready.ok
  let _ ← look .makeSourceDir
  let writeJava ← look .writeSource
  check writeJava.ok
  let writeManifest ← look .writeManifest
  check writeManifest.ok
  let remote ← look .sourceBytes
  check (remote.reply.number = some (sourceBytes : Int))
  let build ← look .build
  check (build.ok ∧ contains build.reply.text "BUILD_OK")
  let jar ← look .catJar
  check (jar.ok ∧ jar.reply.bytes ≠ 0)
  let remoteJar ← look .jarBytes
  check (remoteJar.reply.number = some (jar.reply.bytes : Int))
  let _ ← look .cleanBuilder
  return jar.reply.bytes

/-- Up to `left` times, until the status and the beat are there. -/
def pollLoaded (status beat : Nat → Step) : Nat → Install Bool
  | 0 => return false
  | left + 1 => do
    let s ← look (status left)
    let b ← look (beat left)
    if ¬ s.reply.blank ∧ ¬ b.reply.blank then return true
    else pollLoaded status beat left

/-- The pre-flight pod goes, and the script with it, unless `c` holds. -/
def preflightCheck (c : Prop) [Decidable c] : Install Unit :=
  if c then return ()
  else do
    let _ ← look .cleanPreflight
    abort

/-- The pre-flight pod runs the agent. -/
def preflightPod : Install Unit := do
  let apply ← look .applyPreflight
  check apply.ok
  let ready ← look .preflightReady
  preflightCheck ready.ok
  let loaded ← pollLoaded .preflightStatus .preflightBeat 10
  preflightCheck loaded
  let _ ← look .allocate
  let allocated ← look .allocated
  let _ ← look .release
  preflightCheck (contains allocated.reply.text "state=ALLOCATING" ∨ contains allocated.reply.text "state=ALLOCATED" ∨
    contains allocated.reply.text "state=GOVERNED_HOLD")
  let _ ← look .cleanPreflight

/-- What `preflight_validate` reads first. -/
def preflightReads : Install Unit := do
  let _ ← look .deletePreflight
  let _ ← look .preflightImage
  let _ ← look .preflightJavaOpts

/-- The ConfigMap, made again. -/
def renewConfigMap : Install Unit := do
  let _ ← step .deleteConfigMap fun w => { w with configMap := false }
  let cm ← step .createConfigMap fun w => { w with configMap := true }
  check cm.ok

def preflightValidate : Install Unit := do
  preflightReads
  renewConfigMap
  preflightPod

def backupCurrentSpec (ts : Nat) : Install Unit := do
  let _ ← step .makeBackupDir fun w => { w with backups := some (w.backups.getD []) }
  let result ← look .getBackup
  check (result.ok ∧ ¬ result.reply.blank)
  let _ ← step .writeBackup (World.write ts)

def patchDeployment (now : Nat) : Install Unit := do
  let got ← look .getDeployment
  check got.ok
  -- what was read is the live spec
  let w ← world
  match patchSpec w.live with
  | none => abort
  | some d => do
    let apply ← step .applyPatch fun w => { w with live := d }
    check apply.ok
    let restart ← step .rolloutRestart fun w => { w with live := { w.live with restartedAt := some now } }
    check restart.ok

/-- Up to `left` times, until the pod answers. -/
def pollReady : Nat → Install Bool
  | 0 => return false
  | left + 1 => do
    let probe ← look (.probe left)
    if probe.ok then return true else pollReady left

def waitAndVerify (jarBytes : Nat) : Install Unit := do
  let rollout ← look .rolloutStatus
  check rollout.ok
  let pod ← look .podName
  let podIp ← look .podIp
  check (¬ pod.reply.blank ∧ ¬ podIp.reply.blank)
  let inPod ← look .inPodBytes
  check (inPod.reply.number = some (jarBytes : Int))
  let frontEnd ← look .frontEnd
  check (¬ frontEnd.reply.blank)
  let ready ← pollReady (READY_WAIT_S / 5)
  check ready
  let loaded ← pollLoaded .podStatus .podBeat 10
  check loaded

/-- An install, with the size of the source, the time in its backup's name and the time of its restart. -/
def install (sourceBytes ts now : Nat) : Install Unit := do
  let jarBytes ← buildJar sourceBytes
  preflightValidate
  backupCurrentSpec ts
  patchDeployment now
  waitAndVerify jarBytes

def rollback : Install Unit := do
  let w ← world
  match w.backups, w.latest with
  | some _, some latest => do
    let apply ← step .applyBackup fun w => { w with live := latest.spec }
    check apply.ok
    let _ ← look .rollbackStatus
    let _ ← step .dropConfigMap fun w => { w with configMap := false }
  | _, _ => abort

end Wardence.Installer
