import Wardence.Live.Programs
/-!
# The operator's page

A tab of the operator's page: `Operator/index.jsx`, the cards of `FaultGrid.jsx`, and the two answers of
`operator_api.py` that they live on. A tab asks `/trigger/status` every fifteen seconds, and
`/trigger/live-status` of its episode every four. Its answers come in any order. What is only shown
(messages, panels, countdowns, the trust map) is left out.
-/
namespace Wardence.Live

open EpisodeState

/-! ## What the API answers -/

def LIVE_TRIGGER_DURATION_OVERRIDE_S : List (String × Nat) :=
  [("crash-loop", 180), ("cpu-throttling", 300), ("network-latency", 180), ("network-partition", 180),
    ("connection-pool-exhaustion", 180), ("session-cart-failure", 180), ("memory-leak", 180), ("init-failure", 180),
    ("under-provisioned-replicas", 180), ("oom", 180)]

def EVIDENCE_FILE_CLASSES : List String := HOLDING_CLASSES.filter (· ∉ WRAPPER_POLLED_EVIDENCE_CLASSES)

/-- `inFlight` is the episode in flight and its class, which a row of the batch runner does not give. -/
structure TriggerStatus where
  globalUsedToday : Nat
  globalRemainingToday : Nat
  yourCooldownRemainingS : Nat
  inFlight : Option (Nat × Option String)
  crashLoopReady : Bool
  deriving DecidableEq, Repr

structure LiveStatus where
  episodeState : Option EpisodeState
  elapsedInStateS : Nat
  evidenceConfirmed : Bool
  stopHoldRequested : Bool
  abandonRequested : Bool
  faultClass : String
  t0 : Option Nat
  canStopHoldEarly : Bool
  republishedAt : Option Nat
  holdDurationS : Option Nat
  abandonCeilingS : Nat
  holdStartedAt : Option Nat
  deriving DecidableEq, Repr

namespace World

/-- The row that `legacyT0` is of. -/
def legacyRow (w : World) : Option (Nat × Option Nat) :=
  w.legacyT0.bind fun t0 =>
    (w.episodes.zipIdx.find? fun x => x.1.episodeState = none ∧ x.2 ∉ w.scores ∧ x.1.t0 = t0).map fun x => (x.2, t0)

/-- `_in_flight_episode_row`; none if it raises, as it does on a row without a start. -/
def inFlightEpisodeRow (w : World) : Option (Option (Nat × Option String)) :=
  match w.episodes.zipIdx.find? fun x => x.1.episodeState.any (· ∈ NON_TERMINAL_EPISODE_STATES) with
  | some (r, e) => some (some (e, some r.faultClass))
  | none =>
    match w.legacyRow with
    | none => some none
    | some (_, none) => none
    | some (e, some t0) =>
      some (if w.clock - t0 ≤ LEGACY_EPISODE_IN_FLIGHT_MAX_AGE_MINUTES * 60 then some (e, none) else none)

end World

/-- The cooldown that is left for `ip`. -/
def cooldownRemaining (w : World) (ip : String) : Nat :=
  match w.lastTrigger ip with
  | none => 0
  | some t => COOLDOWN_S - (w.clock - t)

/-- `trigger_status`. -/
def triggerStatus (w : World) (ip : String) : Option TriggerStatus :=
  w.inFlightEpisodeRow.map fun row =>
    ⟨w.globalTriggersToday, GLOBAL_DAILY_CAP - w.globalTriggersToday, cooldownRemaining w ip, row, w.cartsReady⟩

/-- `trigger_live_status`; none is the 404. -/
def triggerLiveStatus (w : World) (e : Nat) : Option LiveStatus :=
  w.episodes[e]?.map fun r =>
    { episodeState := r.episodeState
      elapsedInStateS := w.clock - r.stateEnteredAt
      evidenceConfirmed := r.evidenceConfirmed
      stopHoldRequested := r.stopHoldRequested
      abandonRequested := r.abandonRequested
      faultClass := r.faultClass
      t0 := r.t0
      canStopHoldEarly := r.episodeState = some holding && r.evidenceConfirmed
      republishedAt := r.republishedAt
      holdDurationS := LIVE_TRIGGER_DURATION_OVERRIDE_S.lookup r.faultClass
      abandonCeilingS := ABANDON_CEILING_S
      holdStartedAt :=
        if r.episodeState = some holding ∧ r.faultClass ∈ EVIDENCE_FILE_CLASSES then (w.evidenceOf e).join else none }

/-! ## A tab -/

abbrev User := Role × Option String

inductive Request where
  | triggerStatus
  /-- Of the run number `effect` of the polling effect. -/
  | liveStatus (e effect : Nat)
  | inject (faultClass : String)
  | stopHold (e : Nat)
  /-- `chained`: sent by the poll, not by a click. -/
  | resolve (e : Nat) (chained : Bool)
  | logout (username : Option String)
  deriving DecidableEq, Repr

inductive Answer where
  | status (s : TriggerStatus)
  | live (d : LiveStatus)
  | injected (e : Nat)
  | ok
  deriving DecidableEq, Repr

structure Tab where
  ip : String
  user : Option User
  triggerStatus : Option TriggerStatus
  activeEpisode : Option (Nat × String)
  live : Option LiveStatus
  doneRef : Bool
  autoResolveRequestedRef : Bool
  autoResolveFiredRef : Bool
  fixRequested : Bool
  /-- How often the polling effect has run: the polls of its earlier runs are cancelled. -/
  effect : Nat
  deriving DecidableEq, Repr

/-- A page that has just been loaded. -/
def Tab.load (ip : String) (user : Option User) : Tab × List Request :=
  (⟨ip, user, none, none, none, false, false, false, false, 0⟩, [.triggerStatus])

namespace Tab

/-- `poll`. -/
def poll (t : Tab) : List Request :=
  match t.user, t.activeEpisode with
  | some _, some (e, _) => [.liveStatus e t.effect]
  | _, _ => []

/-- The polling effect runs, for another episode or another session. -/
def rerun (t : Tab) : Tab × List Request :=
  let t := { t with effect := t.effect + 1 }
  ({ t with doneRef := t.doneRef && t.poll.isEmpty }, t.poll)

/-- What `loadTriggerStatus` does with its answer. -/
def loadedTriggerStatus (t : Tab) (s : TriggerStatus) : Tab × List Request :=
  let t := { t with triggerStatus := some s }
  match t.activeEpisode, s.inFlight with
  | none, some (e, some c) => { t with activeEpisode := some (e, c) }.rerun
  | _, _ => (t, [])

end Tab

/-- The episode has come to its end, and a resolved one has been published. -/
def LiveStatus.terminal (d : LiveStatus) : Bool :=
  (d.episodeState = some resolved && d.republishedAt.isSome) || d.episodeState = some failed

namespace Tab

/-- The first terminal answer. -/
def finish (t : Tab) (d : LiveStatus) : Tab × List Request :=
  if d.terminal && !t.doneRef then ({ t with doneRef := true, fixRequested := false }, [.triggerStatus]) else (t, [])

/-- The second half of "Diagnose & Fix", for an episode that was held. -/
def chain (t : Tab) (e : Nat) (d : LiveStatus) : Tab × List Request :=
  if (t.autoResolveRequestedRef || d.stopHoldRequested) && !t.autoResolveFiredRef && d.episodeState = some awaitingFix then
    ({ t with autoResolveFiredRef := true, autoResolveRequestedRef := false }, [.resolve e true])
  else (t, [])

/-- What `poll` does with its answer. -/
def polled (t : Tab) (e : Nat) (d : LiveStatus) : Tab × List Request :=
  let r := { t with live := some d }.finish d
  let r' := r.1.chain e d
  (r'.1, r.2 ++ r'.2)

/-- `handleTrigger`, up to its request. -/
def handleTrigger (t : Tab) (faultClass : String) : Tab × List Request :=
  ({ t with live := none, autoResolveRequestedRef := false, autoResolveFiredRef := false, fixRequested := false },
    [.inject faultClass])

/-- The rest of `handleTrigger`. -/
def injected (t : Tab) (e : Nat) (faultClass : String) : Tab × List Request :=
  let r := { t with activeEpisode := some (e, faultClass) }.rerun
  (r.1, .triggerStatus :: r.2)

/-- `handleDiagnoseAndFix`, with `handleStopHold` and `handleResolve`. -/
def handleDiagnoseAndFix (t : Tab) : Tab × List Request :=
  match t.activeEpisode, t.live with
  | some (e, _), some d =>
    let t := { t with fixRequested := true }
    if d.episodeState = some holding then ({ t with autoResolveRequestedRef := true }, [.stopHold e])
    else if d.episodeState = some awaitingFix then (t, [.resolve e false])
    else (t, [])
  | _, _ => (t, [])

/-- `login`; without a user, an expired session. -/
def setUser (t : Tab) (user : Option User) : Tab × List Request := { t with user := user }.rerun

def logout (t : Tab) : Tab × List Request :=
  match t.user with
  | some (_, username) => let r := t.setUser none; (r.1, .logout username :: r.2)
  | none => t.setUser none

/-- An answer arrives. A poll of an earlier run of the effect is `cancelled`. -/
def receive (t : Tab) : Request → Answer → Tab × List Request
  | .triggerStatus, .status s => t.loadedTriggerStatus s
  | .liveStatus e n, .live d => if n = t.effect then t.polled e d else (t, [])
  | .inject c, .injected e => t.injected e c
  | _, _ => (t, [])

/-! ## A card -/

end Tab

inductive ActionButton where
  | idle (label : String) (disabled : Bool)
  /-- Shown, and disabled. -/
  | waiting (label : String)
  | diagnose
  | revert
  deriving DecidableEq, Repr

/-- `FaultCard`: its label and its button. `injectPending` is the card's own. -/
def Tab.card (t : Tab) (c : String) (injectPending : Bool) : String × ActionButton :=
  let isAutoFix := decide (c ∈ AUTO_FIX_CLASSES)
  let isActive := t.activeEpisode.any (·.2 = c)
  let state := if isActive then t.live.bind (·.episodeState) else none
  let published := t.live.any (·.republishedAt.isSome)
  let fixCommitted := t.fixRequested || isActive && t.live.any fun d => d.stopHoldRequested || d.abandonRequested
  let coolingDown := decide (c = "crash-loop") && t.triggerStatus.any (!·.crashLoopReady)
  if injectPending || state = none || (state = some resolved && published) || state = some failed then
    if !injectPending && coolingDown then ("COOLDOWN", .waiting "TRIGGER")
    else (if injectPending then "INJECTING" else "IDLE",
      .idle (if injectPending then "INJECTING" else "TRIGGER")
        (t.user.isNone || t.triggerStatus.any (·.inFlight.isSome) || injectPending))
  else if state = some resolved then ("PUBLISHING", .waiting "PUBLISHING")
  else if state = some injecting then ("INJECTING", .waiting "INJECTING")
  else if fixCommitted then
    (if isAutoFix then "FIXING" else "REVERTING", .waiting (if isAutoFix then "FIXING" else "REVERTING"))
  else if state = some holding then
    ("LIVE FAULT",
      if t.live.any (·.canStopHoldEarly) then (if isAutoFix then .diagnose else .revert) else .waiting "CONFIRMING")
  else if state = some awaitingFix then
    ("AWAITING FIX", if isAutoFix then .diagnose else .waiting "AWAITING FIX")
  else ("FIXING", .waiting "FIXING")

end Wardence.Live
