import Wardence.Live.World
/-!
# The live trigger

The functions of `operator_api.py` that a live-triggered episode goes through, as
programs over `World`: the endpoints, the wrapper thread `_run_live_episode`,
`_attempt_resolve`, and the startup reconciliation with `_wait_for_orphan`.
`print` is left out, and so are the arguments of `injector.py`'s command line.
-/
namespace Wardence.Live

open Threads Code EpisodeState

/-- What a thread runs. -/
abbrev Routine := Code World Stmt

/-! ## Constants -/

def IMPLEMENTED_CLASSES : List String :=
  ["crash-loop", "oom", "disk-full", "cpu-throttling", "under-provisioned-replicas", "bad-rollout", "network-latency",
    "memory-leak", "connection-pool-exhaustion", "network-partition", "init-failure", "session-cart-failure"]

def SAFE_DEMO_CLASSES : List String := IMPLEMENTED_CLASSES

def AUTO_FIX_CLASSES : List String :=
  ["crash-loop", "oom", "disk-full", "cpu-throttling", "under-provisioned-replicas", "bad-rollout"]

def HOLDING_CLASSES : List String :=
  ["crash-loop", "cpu-throttling", "network-latency", "network-partition", "memory-leak",
    "connection-pool-exhaustion", "init-failure", "session-cart-failure", "under-provisioned-replicas", "oom"]

def WRAPPER_POLLED_EVIDENCE_CLASSES : List String := ["crash-loop"]

def INJECT_SUBPROCESS_TIMEOUT_S : List (String × Nat) :=
  [("network-partition", 260), ("init-failure", 500), ("session-cart-failure", 260), ("connection-pool-exhaustion", 260),
    ("network-latency", 500), ("crash-loop", 260), ("oom", 500), ("disk-full", 220), ("bad-rollout", 200),
    ("cpu-throttling", 900), ("under-provisioned-replicas", 300), ("memory-leak", 540)]

def DEFAULT_INJECT_SUBPROCESS_TIMEOUT_S : Nat := 300
def COOLDOWN_S : Nat := 60
def DAILY_CAP : Nat := 3
def GLOBAL_DAILY_CAP : Nat := 10
def SETTLE_SECONDS : Nat := 35
def SETTLE_SECONDS_OVERRIDE : List (String × Nat) := [("oom", 150)]
def RESOLVE_SAFETY_BUFFER_S : Nat := 5
def SCORER_TIMEOUT_S : Nat := 400
def ABANDON_CEILING_S : Nat := 300
def LEGACY_EPISODE_IN_FLIGHT_MAX_AGE_MINUTES : Nat := 4
/-- `TARGET_RECENCY_WINDOW_S["memory-leak"]`. -/
def MEMORY_LEAK_RECENCY_WINDOW_S : Nat := 330

/-! ## Statements -/

def exec (s : Stmt) : Routine Unit := do let _ ← stmt s

/-- An `if` without an `else`. -/
def onlyIf (c : Prop) [Decidable c] (p : Routine Unit) : Routine Unit := if c then p else pure ()

/-- A read of the tables, a file, the cluster or the clock. -/
def look : Routine World := stmt .look

/-- The value of `o`; without one, the code that uses it raises. -/
def orRaise {α : Type} (o : Option α) : Routine α := do
  exec (.require o.isSome)
  match o with
  | some a => pure a
  | none => raise

def openConn : Routine Unit := exec .look
def closeConn : Routine Unit := exec .look
def audit : Routine Unit := exec .look

def sleep (d : Nat) : Routine Unit := do
  let w ← look
  exec (.sleepUntil (w.clock + d))

def setLeakCheckoutPaused (b : Bool) : Routine Unit := exec (.setPaused b)

def startThread (j : Job) : Routine Unit := exec (.startThread j)

def setEpisodeState (e : Nat) (s : EpisodeState) (x : Extra) : Routine Unit := do
  exec (.setState e s x)
  onlyIf (s ∈ TERMINAL_EPISODE_STATES) do
    let w ← look
    onlyIf (w.episodes[e]?.any (·.faultClass = "memory-leak")) (setLeakCheckoutPaused false)

/-! ## Resolving -/

namespace World

/-- The evidence file of an episode: its last text. -/
def evidenceOf (w : World) (e : Nat) : Option (Option Nat) := w.evidenceFiles.lookup e

end World

/-- The classes whose snapshot is taken at the time in the evidence file. -/
def evidenceAnchored (c : String) : Bool :=
  c ∈ ["oom", "disk-full", "cpu-throttling", "network-latency", "network-partition", "bad-rollout"]

/-- `snapshot_at`. -/
def snapshotAt (e : Nat) (c : String) (t0 : Nat) : Routine Nat :=
  if evidenceAnchored c then do
    let settleAdd := if c ∈ ["network-latency", "network-partition"] then 0 else SETTLE_SECONDS
    let w ← look
    match w.evidenceOf e with
    | none => pure (t0 + settleAdd)
    | some _ => do
      let w ← look
      let epoch ← orRaise (w.evidenceOf e).join
      pure (epoch + settleAdd)
  else
    pure (t0 + (SETTLE_SECONDS_OVERRIDE.lookup c).getD SETTLE_SECONDS)

/-- `subprocess.run` of the scorer: its return code, or none for `TimeoutExpired`.
Whatever else the wait raises, the child is killed first. -/
def runScorer (e snapshot : Nat) : Routine (Option Int) := do
  let w ← stmt (.startScorer e snapshot)
  let pid := w.procs.length
  (stmt (.waitUntil pid (w.clock + SCORER_TIMEOUT_S))).graft
    (fun w =>
      match w.exitOf pid with
      | some code => pure (some code)
      | none => do
        exec (.kill pid)
        exec (.wait pid)
        pure none)
    (do
      exec (.kill pid)
      raise)

/-- Tries to publish twice. -/
def republishToR2 : Routine Bool :=
  tryCatch (do exec .publish; pure true) (do
    sleep 3
    tryCatch (do exec .publish; pure true) (pure false))

/-- What `_attempt_resolve` does once it has won Gate 2. -/
def resolveWon (e : Nat) (triggeredBy : Trigger) : Routine Unit := do
  exec (.popTimer e)
  let w ← look
  closeConn
  let r ← orRaise w.episodes[e]?
  let t0 ← orRaise r.t0
  let target ← snapshotAt e r.faultClass t0
  let now ← look
  onlyIf (now.clock < target) (sleep (target - now.clock + RESOLVE_SAFETY_BUFFER_S))
  let result ← runScorer e target
  openConn
  if result = some 0 then
    setEpisodeState e resolved ⟨none, some triggeredBy⟩
    closeConn
    let published ← republishToR2
    onlyIf published do
      openConn
      exec (.setRepublished e)
      closeConn
  else
    setEpisodeState e failed ⟨none, some triggeredBy⟩
    closeConn

/-- `_attempt_resolve`. -/
def attemptResolve (e : Nat) (triggeredBy : Trigger) : Routine Bool := do
  openConn
  let w ← stmt (.claim e)
  if w.stateOf e = some awaitingFix then
    resolveWon e triggeredBy
    pure true
  else
    closeConn
    pure false

/-! ## The wrapper thread -/

/-- When the last other memory-leak episode started. -/
def World.lastLeak (w : World) (e : Nat) : Option Nat :=
  ((w.episodes.zipIdx.filter fun x => x.1.faultClass = "memory-leak" ∧ x.2 ≠ e).filterMap (·.1.t0)).max?

/-- `n` seconds, five at a time. -/
def chunks (n : Nat) : List Nat := List.replicate (n / 5) 5 ++ if n % 5 = 0 then [] else [n % 5]

def memoryLeakRecencyWait (e : Nat) : Routine Unit := do
  openConn
  let w ← look
  closeConn
  match w.lastLeak e with
  | none => pure ()
  | some t0 => do
    let now ← look
    (chunks (t0 + MEMORY_LEAK_RECENCY_WINDOW_S - now.clock)).forM sleep

/-- `newly_confirmed`. -/
def World.newlyConfirmed (w : World) (e : Nat) (c : String) (baselineRestarts : Nat) : Bool :=
  if c ∈ WRAPPER_POLLED_EVIDENCE_CLASSES then decide (baselineRestarts < w.restarts) || w.backoff
  else (w.evidenceOf e).isSome

/-- One pass of the tick loop of a holding class: confirm the evidence, and turn
a stop or abandon request into the stop file. -/
def holdTick (e : Nat) (c : String) (baselineRestarts : Nat) : Routine Unit := do
  openConn
  let w ← look
  let r ← orRaise w.episodes[e]?
  onlyIf (¬ r.evidenceConfirmed) do
    let now ← look
    onlyIf (now.newlyConfirmed e c baselineRestarts) (exec (.confirmEvidence e))
  onlyIf (r.stopHoldRequested ∨ r.abandonRequested) do
    let now ← look
    onlyIf (e ∉ now.stopFiles) (exec (.writeStopFile e))
  closeConn

/-- `proc.terminate()`, ten seconds, then `proc.kill()`. -/
def stopInjector (pid : Nat) : Routine Unit := do
  exec (.terminate pid)
  let now ← look
  let w ← stmt (.waitUntil pid (now.clock + 10))
  onlyIf (w.alive pid) do
    exec (.kill pid)
    exec (.wait pid)

/-- One pass of the wait for the injector: whether it timed out, once it is over. -/
def pollInjector (e : Nat) (c : String) (pid deadline baselineRestarts : Nat) : Routine (Option Bool) := do
  let w ← stmt (.poll pid)
  if w.alive pid then
    let now ← look
    if deadline < now.clock then
      stopInjector pid
      pure (some true)
    else
      onlyIf (c ∈ HOLDING_CLASSES) (holdTick e c baselineRestarts)
      sleep 10
      pure none
  else
    pure (some false)

/-- The injector ended well and has filled in its row. -/
def World.injected (w : World) (r : Episode) (pid : Nat) (timedOut : Bool) : Bool :=
  !timedOut && w.exitOf pid = some 0 && r.t0.isSome && r.chaosResourceName.isSome

/-- From the injector's exit on. -/
def wrapperTail (e : Nat) (c : String) (pid : Nat) (timedOut : Bool) : Routine Unit := do
  openConn
  let w ← look
  let r ← orRaise w.episodes[e]?
  if ¬ w.injected r pid timedOut then
    setEpisodeState e failed noExtra
    closeConn
  else
    let w ← look
    if w.episodes[e]?.any (·.abandonRequested) then
      setEpisodeState e failed ⟨none, some .abandoned⟩
      closeConn
    else if c ∉ AUTO_FIX_CLASSES then
      setEpisodeState e awaitingFix noExtra
      closeConn
      let _ ← attemptResolve e .autoResolve
    else
      setEpisodeState e awaitingFix noExtra
      closeConn
      exec (.addTimer e ABANDON_CEILING_S)
      exec (.startTimer e)

def baselineRestarts (c : String) : Routine Nat :=
  if c = "crash-loop" then do
    let w ← look
    pure w.restarts
  else pure 0

/-- The pid goes into the row, which a holding class also moves to `holding`. -/
def recordPid (e : Nat) (c : String) (pid : Nat) : Routine Unit :=
  if c ∈ HOLDING_CLASSES then setEpisodeState e holding ⟨some pid, none⟩ else exec (.setPid e pid)

def runLiveEpisodeInner (e : Nat) (c : String) : Routine Unit := do
  onlyIf (c = "memory-leak") (memoryLeakRecencyWait e)
  let baseline ← baselineRestarts c
  let _ ← look
  let w ← stmt (.startInjector e)
  let pid := w.procs.length
  openConn
  recordPid e c pid
  closeConn
  let now ← look
  let deadline := now.clock + (INJECT_SUBPROCESS_TIMEOUT_S.lookup c).getD DEFAULT_INJECT_SUBPROCESS_TIMEOUT_S
  let timedOut ← untilSome (pollInjector e c pid deadline baseline)
  let _ ← look
  wrapperTail e c pid timedOut

/-- The exception guard of `_run_live_episode` and of `_wait_for_orphan`. -/
def guard (e : Nat) : Routine Unit :=
  tryCatch (do
    openConn
    setEpisodeState e failed noExtra
    closeConn) (pure ())

def runLiveEpisode (e : Nat) (c : String) : Routine Unit := tryCatch (runLiveEpisodeInner e c) (guard e)

/-! ## The endpoints -/

namespace World

/-- The newest start among the rows with neither a state nor a score; a row
without a start sorts last. -/
def legacyT0 (w : World) : Option (Option Nat) :=
  ((w.episodes.zipIdx.filter fun x => x.1.episodeState = none ∧ x.2 ∉ w.scores).map (·.1.t0)).max?

def DAY_S : Nat := 86400

def globalTriggersToday (w : World) : Nat := w.demoTriggerLog.countP fun x => x.2 / DAY_S = w.clock / DAY_S

def triggersToday (w : World) (ip : String) : Nat :=
  w.demoTriggerLog.countP fun x => x.1 = ip ∧ x.2 / DAY_S = w.clock / DAY_S

/-- When `ip` last triggered. -/
def lastTrigger (w : World) (ip : String) : Option Nat :=
  ((w.demoTriggerLog.filter (·.1 = ip)).map (·.2)).max?

end World

/-- `_episode_in_flight`. -/
def episodeInFlight : Routine Bool := do
  let w ← look
  if w.inFlight then pure true
  else
    let w ← look
    match w.legacyT0 with
    | none => pure false
    | some t0 => do
      let t0 ← orRaise t0
      let now ← look
      pure (now.clock - t0 ≤ LEGACY_EPISODE_IN_FLIGHT_MAX_AGE_MINUTES * 60)

/-- A request refused: an `HTTPException`. -/
def refuseUnaudited {α : Type} : Routine α := do
  closeConn
  raise

/-- A request refused, with one audit row. -/
def refuse {α : Type} : Routine α := do
  audit
  refuseUnaudited

/-- `COOLDOWN_S` since the last trigger `w` has of `ip`. -/
def cooldown (w : World) (ip : String) : Routine Unit :=
  match w.lastTrigger ip with
  | none => pure ()
  | some t => do
    let now ← look
    onlyIf (now.clock - t < COOLDOWN_S) refuse

/-- The caps on `demo-trigger`. -/
def demoTriggerChecks (c ip : String) : Routine Unit := do
  onlyIf (c ∉ SAFE_DEMO_CLASSES) refuse
  let w ← look
  onlyIf (GLOBAL_DAILY_CAP ≤ w.globalTriggersToday) refuse
  let w ← look
  cooldown w ip
  let w ← look
  onlyIf (DAILY_CAP ≤ w.triggersToday ip) refuse

/-- The check and the insert, under `_TRIGGER_LOCK`: the new episode. -/
def admitUnderLock (c : String) (role : Role) (username : Option String) (ip : String) : Routine Nat := do
  exec .acquire
  (do
    let busy ← episodeInFlight
    if busy then refuse
    else
      let w ← stmt (.insertEpisode c username)
      onlyIf (role = .demoTrigger) (exec (.insertTrigger ip))
      pure w.episodes.length : Routine Nat).graft
    (fun e => do
      exec .release
      pure e)
    (do
      exec .release
      raise)

def triggerInject (c : String) (role : Role) (username : Option String) (ip : String) : Routine Unit := do
  openConn
  onlyIf (c ∉ IMPLEMENTED_CLASSES) refuse
  onlyIf (c = "crash-loop") do
    let w ← look
    onlyIf (¬ w.cartsReady) refuse
  onlyIf (role = .demoTrigger) (demoTriggerChecks c ip)
  let e ← admitUnderLock c role username ip
  audit
  closeConn
  onlyIf (c = "memory-leak") (setLeakCheckoutPaused true)
  startThread (.runLiveEpisode e c)

def triggerStopHold (e : Nat) (role : Role) (username : Option String) : Routine Unit := do
  openConn
  let w ← look
  match w.episodes[e]? with
  | none => refuseUnaudited
  | some r =>
    if role = .demoTrigger ∧ r.triggeringUsername ≠ username then refuseUnaudited
    else if r.episodeState ≠ some holding ∨ ¬ r.evidenceConfirmed then refuseUnaudited
    else do
      exec (.requestStop e)
      closeConn

def triggerResolve (e : Nat) : Routine Unit := do
  openConn
  let w ← look
  if w.stateOf e = some awaitingFix then
    audit
    closeConn
    startThread (.attemptResolve e .manual)
  else refuse

def logout (username : Option String) : Routine Unit := do
  openConn
  exec (.requestAbandon username)
  closeConn

/-! ## Startup -/

/-- `os.kill(pid, 0)`, with any `OSError` read as a dead process. -/
def pidAlive (pid : Nat) : Routine Bool :=
  tryCatch (do let w ← stmt (.osKill pid); pure (w.alive pid)) (pure false)

def waitForOrphan (pid e : Nat) : Routine Unit :=
  tryCatch (do
    untilSome (do
      let alive ← pidAlive pid
      if alive then
        sleep 10
        pure none
      else pure (some ()))
    openConn
    let w ← look
    let r ← orRaise w.episodes[e]?
    if r.t0.isSome ∧ r.chaosResourceName.isSome then
      setEpisodeState e awaitingFix noExtra
      closeConn
      startThread (.attemptResolve e .autoResolve)
    else
      setEpisodeState e failed noExtra
      closeConn) (guard e)

/-- The injector has ended: what the row says decides. -/
def reconcileEnded (e : Nat) (r : Episode) : Routine Unit := do
  openConn
  if r.t0.isSome ∧ r.chaosResourceName.isSome then
    setEpisodeState e awaitingFix noExtra
    closeConn
    startThread (.attemptResolve e .autoResolve)
  else
    setEpisodeState e failed noExtra
    closeConn

/-- A row in `injecting` or `holding`. -/
def reconcileInjecting (e : Nat) (r : Episode) : Routine Unit :=
  match r.subprocessPid with
  | none => do
    openConn
    setEpisodeState e failed noExtra
    closeConn
  | some pid => do
    let alive ← pidAlive pid
    if alive then startThread (.waitForOrphan pid e) else reconcileEnded e r

/-- A row in `awaiting_fix`, entered `age` seconds ago. -/
def reconcileAwaiting (e age : Nat) : Routine Unit :=
  if ABANDON_CEILING_S ≤ age then startThread (.attemptResolve e .autoResolve)
  else do
    exec (.addTimer e (ABANDON_CEILING_S - age))
    exec (.startTimer e)

/-- A row in `resolving`: its scorer may have scored it before the crash. -/
def reconcileResolving (e : Nat) : Routine Unit := do
  openConn
  let w ← look
  setEpisodeState e (if e ∈ w.scores then resolved else failed) ⟨none, some .autoResolve⟩
  closeConn

def reconcileOneRow (e : Nat) (r : Episode) : Routine Unit := do
  let now ← look
  match r.episodeState with
  | some injecting => reconcileInjecting e r
  | some holding => reconcileInjecting e r
  | some awaitingFix => reconcileAwaiting e (now.clock - r.stateEnteredAt)
  | some resolving => reconcileResolving e
  | _ => pure ()

/-- The rows in a non-terminal state, with their episodes. -/
def World.nonTerminalRows (w : World) : List (Nat × Episode) :=
  (w.episodes.zipIdx.filter fun x => x.1.episodeState.any (· ∈ NON_TERMINAL_EPISODE_STATES)).map fun x => (x.2, x.1)

/-- `_on_startup`: `_reconcile_on_startup`, row by row; then requests come in. -/
def onStartup : Routine Unit := do
  openConn
  let w ← look
  closeConn
  w.nonTerminalRows.forM fun x => tryCatch (reconcileOneRow x.1 x.2) (pure ())
  exec .serve

/-! ## The process -/

def body : Job → Routine Unit
  | .triggerInject c role u ip => triggerInject c role u ip
  | .triggerStopHold e role u => triggerStopHold e role u
  | .triggerResolve e => triggerResolve e
  | .logout u => logout u
  | .onStartup => onStartup
  | .runLiveEpisode e c => runLiveEpisode e c
  | .attemptResolve e t => do let _ ← attemptResolve e t
  | .waitForOrphan pid e => waitForOrphan pid e

/-- The operator API as a machine. -/
def operatorApi : Machine World Stmt Job Env where
  app := app
  spawns := spawns
  body := body
  post := post
  env := env
  killed := killed

end Wardence.Live
