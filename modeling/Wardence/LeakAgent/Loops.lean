import Wardence.LeakAgent.World
/-!
# The leak agent's loops

One pass of each loop of `LeakAgent.java`. `Config` has the system properties and the
JVM's own values. Heartbeats, garbage collections and the governor's trims may come at any
time: they are moves of the environment.
-/
namespace Wardence.LeakAgent

open Threads Code Passes

abbrev Routine := Code World Stmt

structure Config where
  agentStartMs : Int
  growthMbPerSec : Int
  maxMemory : Int
  unsafeReady : Bool

def CHUNK_BYTES : Int := 256 * 1024
def NATIVE_CHUNK_BYTES : Int := 4 * 1024 * 1024
def CHURN_CHUNK_BYTES : Int := 256 * 1024
def REFLEAK_BATCH : Nat := 4000
def CODELEAK_BATCH : Nat := 20
def WORKER_STALL_ABORT_MS : Int := 30000
def CONTROL_STALL_ABORT_MS : Int := 30000

/-- A read of `f`. -/
def get {α : Type} (f : World → α) : Routine α := do
  let w ← stmt .read
  pure (f w)

def stores : List Stmt → Routine Unit
  | [] => pure ()
  | s :: ss => do
    let _ ← stmt s
    stores ss

/-- A number set to the current time. -/
def stamp (n : Num) : Routine Unit := do
  let now ← get (·.now)
  stores [.setNum n now]

/-- `||` of volatile reads. -/
def anyOf : List (World → Bool) → Routine Bool
  | [] => pure false
  | f :: fs => do
    let b ← get f
    if b then pure true else anyOf fs

def World.nativeAllocatedBytes (w : World) : Int := w.held .nativeChunks * NATIVE_CHUNK_BYTES
def World.churnLiveBytes (w : World) : Int := w.churnRing.length * CHURN_CHUNK_BYTES

/-- Whether anything is held. -/
def anythingHeld : Routine Bool :=
  anyOf [(decide <| 0 < ·.num .allocatedBytes), (decide <| 0 < ·.nativeAllocatedBytes), (decide <| 0 < ·.held .refLeakList),
    (decide <| 0 < ·.held .codeLeakHold), (decide <| 0 < ·.churnLiveBytes), (decide <| 0 < ·.target .graphSlots)]

/-! ## Releases -/

def zeroTargets : List Stmt :=
  [.setTarget .targetMb 0, .setTarget .nativeTargetBytes 0, .setTarget .refLeakTarget 0, .setTarget .codeLeakTarget 0,
    .setTarget .churnTargetBytes 0, .setTarget .graphSlots 0]

def requestRelease (r : Reason) : Routine Unit :=
  stores (.setAbort true :: zeroTargets ++ [.setState .releasing, .setError r])

def forceRelease (r : Reason) : Routine Unit :=
  stores ([.clearChunks, .setNum .allocatedBytes 0] ++ zeroTargets ++ [.setAbort true, .setState .watchdogRelease, .setError r])

/-! ## Commands -/

/-- A fresh target of the worker. -/
def freshTarget : List Stmt :=
  [.setNum .governorCeilingMb 0, .setNum .governorLastReleaseAt 0, .setNum .governorStableLowSinceMs 0,
    .setNum .govPrevStwSampledAt 0]

def readAt (mtime ttlS : Int) : Routine Unit := stores [.setNum .cmdMtimeAtRead mtime, .setNum .cmdTtlS ttlS]

def handleAllocate (reqMb ttlS mtime : Int) : Routine Unit := do
  readAt mtime ttlS
  let now ← get (·.now)
  if ttlS < ageS now mtime then requestRelease .ttlExpired
  else do
    let failed ← get (·.num .lastFailedTargetMb)
    if reqMb = failed then pure ()
    else do
      let current ← get (·.target .targetMb)
      stores [.setAbort false, .setTarget .targetMb reqMb]
      if reqMb ≠ current then stores (freshTarget ++ [.setState .allocating]) else pure ()

def applyStaticCompanion (staticMb : Int) : Routine Unit := do
  if staticMb < 0 then pure ()
  else do
    let reqMb := toInt staticMb
    stores [.setAbort false]
    let current ← get (·.target .targetMb)
    if reqMb ≠ current then stores (freshTarget ++ [.setState .allocating]) else pure ()
    stores [.setTarget .targetMb reqMb]

/-- `Math.max(0L, mb) * 1024L * 1024L`. -/
def bytesOf (mb : Int) : Int := toLong (max 0 mb * 1024 * 1024)

def handleNative (mb ttlS mtime : Int) : Routine Unit := do
  readAt mtime ttlS
  stores [.setTarget .nativeTargetBytes (bytesOf mb)]

def handleRefLeak (count ttlS mtime : Int) : Routine Unit := do
  readAt mtime ttlS
  stores [.setTarget .refLeakTarget (max 0 count)]

def handleCodeLeak (count ttlS mtime : Int) : Routine Unit := do
  readAt mtime ttlS
  stores [.setTarget .codeLeakTarget (max 0 count)]

def handleChurn (mb holdMs ttlS staticMb : Int) (dense : Bool) (mtime : Int) : Routine Unit := do
  readAt mtime ttlS
  stores [.setFlag .churnDense dense, .setTarget .churnTargetBytes (bytesOf mb), .setNum .churnHoldMs (max 250 holdMs)]
  applyStaticCompanion staticMb

/-- `graphSlots` of a command. -/
def slotsOf (slotsK : Int) : Int := max 0 (min 20000000 (toLong (slotsK * 1000)))

def handleGraph (slotsK writesKPerSec edges ttlS staticMb mtime : Int) : Routine Unit := do
  readAt mtime ttlS
  stores [.setNum .graphEdges (max 0 (min 1000 edges)), .setNum .graphWritesPerSec (max 0 (min 2000 writesKPerSec) * 1000),
    .setTarget .graphSlots (slotsOf slotsK)]
  applyStaticCompanion staticMb

def handle (c : Command) (mtime : Int) : Routine Unit :=
  match c with
  | .empty => do
    let held ← anythingHeld
    if held then requestRelease .emptyCommandFile else pure ()
  | .release => do
    let last ← get (·.num .lastReleaseCmdMtime)
    if mtime ≠ last then do
      stores [.setNum .lastReleaseCmdMtime mtime]
      requestRelease .releaseCommand
    else pure ()
  | .allocate reqMb ttlS => handleAllocate reqMb ttlS mtime
  | .native mb ttlS => handleNative mb ttlS mtime
  | .refLeak count ttlS => handleRefLeak count ttlS mtime
  | .codeLeak count ttlS => handleCodeLeak count ttlS mtime
  | .churn mb holdMs ttlS staticMb dense => handleChurn mb holdMs ttlS staticMb dense mtime
  | .graph slotsK writesKPerSec edges ttlS staticMb => handleGraph slotsK writesKPerSec edges ttlS staticMb mtime
  | .ignored => pure ()

/-! ## The loops -/

/-- `boundedIo` of a read: `none` on a timeout or an error. -/
def boundedIo : Routine (Option World) := .act .read (fun w => .done (some w)) (.done none)

def ioStuck (b : Bool) : Routine Unit := stores [.setFlag .ioStuck b]

/-- What the control loop makes of the command file. -/
def readCommand (cfg : Config) : Routine Unit := do
  let mtime ← get fun w => (w.file.map (·.mtime)).getD 0
  if mtime < cfg.agentStartMs then .act .deleteFile (fun _ => .done ()) (.done ())
  else do
    let r ← boundedIo
    match r.bind (·.file) with
    | none => ioStuck true
    | some f => handle f.command mtime

def controlPass (cfg : Config) : Routine Unit := do
  stamp .controlLastRunAt
  let r ← boundedIo
  match r with
  | none => ioStuck true
  | some w =>
    ioStuck false
    if w.file.isSome then readCommand cfg
    else do
      let held ← anythingHeld
      let state ← get (·.currentState)
      if held && state != .releasing then requestRelease .noCommandFile else pure ()

def IDLE_STATES : List Phase := [.idle, .ready, .errorOom, .watchdogRelease]

/-- The state after a chunk, or at rest. -/
def workerState (cfg : Config) (wantBytes ceilBytes : Int) (atRest : Bool) : Routine Unit := do
  let allocated ← get (·.num .allocatedBytes)
  let ceiling ← get (·.num .governorCeilingMb)
  if atRest && 0 < ceiling then stores [.setState .governedHold]
  else if wantBytes ≤ allocated ∧ 0 < cfg.growthMbPerSec then stores [.setState .growing]
  else if wantBytes ≤ allocated then stores [.setState .allocated]
  else if ¬ atRest ∧ ceilBytes ≤ allocated then stores [.setState .governedHold]
  else pure ()

def workerPass (cfg : Config) : Routine Unit := do
  let wantMb ← get (·.target .targetMb)
  let state ← get (·.currentState)
  if state = .releasing ∨ wantMb = 0 then do
    let allocated ← get (·.num .allocatedBytes)
    if 0 < allocated then stores [.clearChunks, .setNum .allocatedBytes 0, .setState .idle]
    else do
      let state ← get (·.currentState)
      if state ∈ IDLE_STATES then pure () else stores [.setState .idle]
    stamp .workerLastProgressAt
  else do
    let ceiling ← get (·.num .governorCeilingMb)
    let wantBytes := wantMb * 1024 * 1024
    let growCapMb := if 0 < cfg.growthMbPerSec then cfg.maxMemory / (1024 * 1024) * 97 / 100 else wantMb
    let effCeilBytes := (if 0 < ceiling then ceiling else max wantMb growCapMb) * 1024 * 1024
    let allocated ← get (·.num .allocatedBytes)
    let aborted ← get (·.abortAllocation)
    if allocated < effCeilBytes ∧ aborted = false then
      .act (.allocate .chunk)
        (fun _ => do
          let allocated ← get (·.num .allocatedBytes)
          stores [.setNum .allocatedBytes (allocated + CHUNK_BYTES), .setNum .lastFailedTargetMb (-1)]
          stamp .workerLastProgressAt
          workerState cfg wantBytes effCeilBytes false)
        (do
          stores [.setNum .lastFailedTargetMb wantMb, .setState .errorOom, .setError .other]
          stamp .workerLastProgressAt)
    else do
      workerState cfg wantBytes effCeilBytes true
      stamp .workerLastProgressAt

/-- A worker that makes no progress. -/
def watchWorker (workerAge : Int) : Routine Unit := do
  let state ← get (·.currentState)
  if state = .allocating ∧ WORKER_STALL_ABORT_MS < workerAge then do
    stores [.setFlag .workerStuck true]
    forceRelease .workerStalled
  else stores [.setFlag .workerStuck false]

/-- A control loop that does not run. -/
def watchControl (ctrlAge hbAge : Int) : Routine Unit :=
  if CONTROL_STALL_ABORT_MS < ctrlAge ∧ hbAge < 5000 then do
    stores [.setFlag .controlStuck true]
    let allocated ← get (·.num .allocatedBytes)
    if 0 < allocated then forceRelease .controlStalled else pure ()
  else stores [.setFlag .controlStuck false]

/-- A command past its ttl. -/
def watchTtl (now : Int) : Routine Unit := do
  let mtime ← get (·.num .cmdMtimeAtRead)
  if 0 < mtime then do
    let mtime ← get (·.num .cmdMtimeAtRead)
    let ttlS ← get (·.num .cmdTtlS)
    if ttlS < ageS now mtime then do
      let held ← anythingHeld
      if held then forceRelease .ttlExpired else pure ()
    else pure ()
  else pure ()

def watchdogPass : Routine Unit := do
  let now ← get (·.now)
  let heartbeatAt ← get (·.num .heartbeatAt)
  let controlLastRunAt ← get (·.num .controlLastRunAt)
  let workerLastProgressAt ← get (·.num .workerLastProgressAt)
  watchWorker (now - workerLastProgressAt)
  watchControl (now - controlLastRunAt) (now - heartbeatAt)
  watchTtl now

/-- Allocates chunks up to the target. -/
def growNative (target : Int) : Routine Unit := untilSome do
  let failed ← get (·.flag .nativeAllocFailed)
  let bytes ← get (·.nativeAllocatedBytes)
  if failed = false ∧ bytes + NATIVE_CHUNK_BYTES ≤ target then
    .act (.allocate (.held .nativeChunks)) (fun _ => pure none) (do
      stores [.setFlag .nativeAllocFailed true, .setError .other]
      pure (some ()))
  else pure (some ())

/-- Frees chunks down to the target. -/
def shrinkNative (target : Int) : Routine Unit := untilSome do
  let bytes ← get (·.nativeAllocatedBytes)
  if 0 < bytes ∧ target ≤ bytes - NATIVE_CHUNK_BYTES then do
    stores [.drop .nativeChunks, .setFlag .nativeAllocFailed false]
    pure none
  else pure (some ())

def nativePass (cfg : Config) : Routine Unit := do
  let target ← get (·.target .nativeTargetBytes)
  if cfg.unsafeReady then do
    growNative target
    shrinkNative target
  else pure ()

/-- Up to `n` more soft references. -/
def growRefLeak (target : Int) : Nat → Routine Unit
  | 0 => pure ()
  | n + 1 => do
    let count ← get (·.held .refLeakList)
    if count < target then
      .act (.allocate (.held .refLeakList)) (fun _ => growRefLeak target n) (stores [.setError .other])
    else pure ()

def shrinkRefLeak (target : Int) : Nat → Routine Unit
  | 0 => pure ()
  | n + 1 => do
    let count ← get (·.held .refLeakList)
    if target < count then do
      stores [.drop .refLeakList]
      shrinkRefLeak target n
    else pure ()

def refLeakPass : Routine Unit := do
  let target ← get (·.target .refLeakTarget)
  growRefLeak target REFLEAK_BATCH
  shrinkRefLeak target REFLEAK_BATCH

/-- Up to `n` more generated classes. -/
def growCodeLeak (target : Int) : Nat → Routine Unit
  | 0 => pure ()
  | n + 1 => do
    let count ← get (·.held .codeLeakHold)
    if count < target then
      .act (.allocate (.held .codeLeakHold)) (fun _ => growCodeLeak target n)
        (stores [.setFlag .codeLeakFailed true, .setError .other])
    else pure ()

def codeLeakPass : Routine Unit := do
  let target ← get (·.target .codeLeakTarget)
  let count ← get (·.held .codeLeakHold)
  let failed ← get (·.flag .codeLeakFailed)
  if count < target ∧ failed = false then growCodeLeak target CODELEAK_BATCH
  else if target = 0 ∧ 0 < count then stores [.dropAll .codeLeakHold, .setFlag .codeLeakFailed false]
  else pure ()

/-- Up to `n` more chunks. -/
def topUpChurn (target : Int) : Nat → Routine Unit
  | 0 => pure ()
  | n + 1 => do
    let live ← get (·.churnLiveBytes)
    if live + CHURN_CHUNK_BYTES ≤ target then
      .act (.allocate .churn) (fun _ => topUpChurn target n) (stores [.setError .other])
    else pure ()

def churnPass : Routine Unit := do
  let target ← get (·.target .churnTargetBytes)
  let holdMs ← get (·.num .churnHoldMs)
  let dense ← get (·.flag .churnDense)
  let now ← get (·.now)
  untilSome do
    let head ← get (·.churnRing.head?)
    match head with
    | none => pure (some ())
    | some createdAt =>
      if target = 0 ∨ holdMs ≤ now - createdAt then do
        stores [.evict]
        pure none
      else pure (some ())
  topUpChurn target (if dense then 48 else 4096)

/-- `n` rewritten nodes. -/
def rewrite : Nat → Routine Unit
  | 0 => pure ()
  | n + 1 => .act (.allocate .graphNode) (fun _ => rewrite n) (stores [.setError .other])

def graphPass : Routine Unit := do
  let slots ← get (·.target .graphSlots)
  if slots ≤ 0 then do
    let backbone ← get (·.graphBackbone)
    if backbone.isSome then stores [.dropBackbone] else pure ()
    stamp .graphLastTick
  else do
    let backbone ← get (·.graphBackbone)
    if backbone = some slots.toNat then pure () else stores [.allocate (.backbone slots.toNat)]
    let now ← get (·.now)
    let lastTick ← get (·.num .graphLastTick)
    stores [.setNum .graphLastTick now]
    let writesPerSec ← get (·.num .graphWritesPerSec)
    rewrite (min 200000 (writesPerSec * max 1 (min 200 (now - lastTick)) / 1000)).toNat

inductive Loop where
  | control
  | worker
  | watchdog
  | native
  | refLeak
  | codeLeak
  | churn
  | graph
  deriving DecidableEq, Repr

def Loop.pass (cfg : Config) : Loop → Routine Unit
  | .control => controlPass cfg
  | .worker => workerPass cfg
  | .watchdog => watchdogPass
  | .native => nativePass cfg
  | .refLeak => refLeakPass
  | .codeLeak => codeLeakPass
  | .churn => churnPass
  | .graph => graphPass

/-- What else happens: time passes, the heartbeat, the governor's trim, a command is written. -/
inductive Event where
  | tick (ms : Nat)
  | heartbeat
  | governor (chunks : Nat) (allocatedBytes ceilingMb : Int)
  | command (f : Option CmdFile)
  deriving DecidableEq, Repr

def Event.effect : Event → World → World
  | .tick ms, w => { w with now := w.now + ms }
  | .heartbeat, w => { w with num := Function.update w.num .heartbeatAt w.now }
  | .governor chunks bytes ceiling, w =>
    { w with
      chunks := min chunks w.chunks
      num := Function.update (Function.update w.num .allocatedBytes bytes) .governorCeilingMb ceiling }
  | .command f, w => { w with file := f }

def agent (cfg : Config) : Process World Stmt Loop Event := ⟨Stmt.effect, Loop.pass cfg, Event.effect⟩

/-! ## What statements a program has -/

section Within
variable {α β : Type} {N : Stmt → Prop}

theorem within_get {f : World → β} {k : β → Routine α} (hr : N .read) (hk : ∀ b, (k b).Within N) : (get f >>= k).Within N :=
  ⟨hr, fun w => hk (f w), trivial⟩

theorem within_stores {ss : List Stmt} (hs : ∀ s ∈ ss, N s) : (stores ss).Within N := by
  induction ss with
  | nil => trivial
  | cons s ss ih => exact ⟨hs s List.mem_cons_self, fun _ => ih fun s' hs' => hs s' (List.mem_cons_of_mem _ hs'), trivial⟩

theorem within_stamp {n : Num} (hr : N .read) (hn : ∀ x, N (.setNum n x)) : (stamp n).Within N :=
  within_get hr fun now => within_stores fun s hs => by
    obtain rfl := List.mem_singleton.1 hs
    exact hn now

theorem within_any (hr : N .read) (fs : List (World → Bool)) : (anyOf fs).Within N := by
  induction fs with
  | nil => trivial
  | cons f fs ih => exact within_get hr fun b => Within.ite trivial ih

/-- The worker's state after growth; it rests in none of them. -/
theorem within_workerState (hr : N .read) (hs : ∀ x, x ≠ .idle → x ≠ .ready → N (.setState x)) (cfg : Config)
    (wantBytes ceilBytes : Int) (atRest : Bool) : (workerState cfg wantBytes ceilBytes atRest).Within N := by
  have hstate : ∀ x, x ≠ .idle → x ≠ .ready → (stores [.setState x]).Within N := fun x hi hx =>
    within_stores fun s hm => by
      obtain rfl := List.mem_singleton.1 hm
      exact hs x hi hx
  refine within_get hr fun _ => within_get hr fun _ => Within.ite (hstate _ (by decide) (by decide)) ?_
  refine Within.ite (hstate _ (by decide) (by decide)) (Within.ite (hstate _ (by decide) (by decide)) ?_)
  exact Within.ite (hstate _ (by decide) (by decide)) trivial

end Within

end Wardence.LeakAgent
