import Wardence.Lib.Threads
/-!
# The world of the live trigger

What the live-trigger code of `operator_api.py` reads and writes: the `episodes`
rows and the other tables it looks at, the programs it starts, the files it
shares with them, the cluster's readings, and the memory of the API process.
`app` is what one statement does, with its commit where it has one: SQLite's
write lock is held from the `UPDATE` to the commit, so no other write falls
between the two. A statement that opens, reads or closes something, or writes
the audit log that nothing here reads, is a `look`.

An episode is the index of its row in `episodes`: rows are never deleted, so an
index is as fresh as a `uuid4`. A program is the index of its entry in `procs`.
-/
namespace Wardence.Live

open Threads

inductive EpisodeState where
  | injecting
  | holding
  | awaitingFix
  | resolving
  | resolved
  | failed
  deriving DecidableEq, Repr

open EpisodeState

def NON_TERMINAL_EPISODE_STATES : List EpisodeState := [injecting, holding, awaitingFix, resolving]
def TERMINAL_EPISODE_STATES : List EpisodeState := [resolved, failed]

/-- `triggered_by`. -/
inductive Trigger where
  | manual
  | autoResolve
  | abandoned
  deriving DecidableEq, Repr

/-- The roles that `require_role` lets trigger. -/
inductive Role where
  | admin
  | demoTrigger
  deriving DecidableEq, Repr

/-! ## Data -/

/-- A row of `episodes`; `episodeState` is `NULL` for the batch runner's. -/
structure Episode where
  faultClass : String
  triggeringUsername : Option String
  t0 : Option Nat
  chaosResourceName : Option String
  episodeState : Option EpisodeState
  stateEnteredAt : Nat
  subprocessPid : Option Nat
  evidenceConfirmed : Bool
  stopHoldRequested : Bool
  abandonRequested : Bool
  triggeredBy : Option Trigger
  republishedAt : Option Nat
  deriving DecidableEq, Repr

/-- The program an entry of the process table runs: `injector.py` or `p3_scorer.py`. -/
inductive Program where
  | injector (e : Nat)
  | scorer (e : Nat) (snapshotAt : Nat)
  deriving DecidableEq, Repr

/-- A process; `exit` is its return code once it has ended. -/
structure Proc where
  program : Program
  exit : Option Int
  deriving DecidableEq, Repr

/-- An entry of `_ABANDON_TIMERS`; `due` once it was started, until it fires. -/
structure AbandonTimer where
  episode : Nat
  interval : Nat
  due : Option Nat
  deriving DecidableEq, Repr

/-- The API process: not running, in its startup handler, or accepting requests. -/
inductive Status where
  | down
  | starting
  | serving
  deriving DecidableEq, Repr

structure World where
  episodes : List Episode
  /-- The episodes with a `scores` row. -/
  scores : List Nat
  /-- `demo_trigger_log`: who triggered, and when. -/
  demoTriggerLog : List (String × Nat)
  procs : List Proc
  stopFiles : List Nat
  /-- The evidence files; `none`: one whose text is not a number (yet). -/
  evidenceFiles : List (Nat × Option Nat)
  /-- Seconds. -/
  clock : Nat
  /-- `_restart_count` and `_crash_loop_backoff_now`. -/
  restarts : Nat
  backoff : Bool
  /-- The carts selector is on `carts`, and its pod is ready. -/
  cartsReady : Bool
  /-- `publish_to_r2.main` goes through. -/
  publishes : Bool
  status : Status
  /-- `_TRIGGER_LOCK` is held. -/
  locked : Bool
  abandonTimers : List AbandonTimer
  leakCheckoutPaused : Bool
  deriving DecidableEq, Repr

/-- The threads of the API process, by their target, and its request handlers. -/
inductive Job where
  | triggerInject (faultClass : String) (role : Role) (username : Option String) (ip : String)
  | triggerStopHold (e : Nat) (role : Role) (username : Option String)
  | triggerResolve (e : Nat)
  | logout (username : Option String)
  | onStartup
  | runLiveEpisode (e : Nat) (faultClass : String)
  | attemptResolve (e : Nat) (triggeredBy : Trigger)
  | waitForOrphan (pid : Nat) (e : Nat)
  deriving DecidableEq, Repr

/-- The columns `_set_episode_state` may set besides the state. -/
structure Extra where
  subprocessPid : Option Nat
  triggeredBy : Option Trigger
  deriving DecidableEq, Repr

def noExtra : Extra := ⟨none, none⟩

inductive Stmt where
  | look
  /-- Code that raises unless `b`. -/
  | require (b : Bool)
  /-- `publish_to_r2.main()`. -/
  | publish
  /-- `os.kill(pid, 0)` and `proc.poll()`. -/
  | osKill (pid : Nat)
  | poll (pid : Nat)
  /-- `time.sleep`, up to the time it ends. -/
  | sleepUntil (t : Nat)
  | acquire
  | release
  | insertEpisode (faultClass : String) (username : Option String)
  | insertTrigger (ip : String)
  | setPaused (b : Bool)
  | setState (e : Nat) (s : EpisodeState) (x : Extra)
  /-- Gate 2: `UPDATE ... SET episode_state = 'resolving' ... AND episode_state = 'awaiting_fix'`. -/
  | claim (e : Nat)
  | setPid (e pid : Nat)
  | confirmEvidence (e : Nat)
  | requestStop (e : Nat)
  | requestAbandon (username : Option String)
  | setRepublished (e : Nat)
  | writeStopFile (e : Nat)
  | popTimer (e : Nat)
  | addTimer (e interval : Nat)
  | startTimer (e : Nat)
  | startInjector (e : Nat)
  | startScorer (e snapshotAt : Nat)
  | terminate (pid : Nat)
  | kill (pid : Nat)
  | wait (pid : Nat)
  /-- A wait with a time limit. -/
  | waitUntil (pid t : Nat)
  | startThread (j : Job)
  /-- The startup handler returns. -/
  | serve
  deriving DecidableEq, Repr

/-! ## What a statement does -/

/-- The program, while it runs. -/
def Proc.running (p : Proc) : Option Program := if p.exit = none then some p.program else none

namespace World

def stateOf (w : World) (e : Nat) : Option EpisodeState := w.episodes[e]?.bind (·.episodeState)

def exitOf (w : World) (pid : Nat) : Option Int := w.procs[pid]?.bind (·.exit)

/-- The program of process `pid`, while it runs. -/
def running (w : World) (pid : Nat) : Option Program := w.procs[pid]?.bind (·.running)

/-- Process `pid` runs. -/
def alive (w : World) (pid : Nat) : Bool := (w.running pid).isSome

def setRow (w : World) (e : Nat) (f : Episode → Episode) : World := { w with episodes := w.episodes.modify e f }

def setProc (w : World) (pid : Nat) (f : Proc → Proc) : World := { w with procs := w.procs.modify pid f }

/-- A row is in one of the non-terminal states. -/
def inFlight (w : World) : Bool := w.episodes.any fun r => r.episodeState.any (· ∈ NON_TERMINAL_EPISODE_STATES)

end World

/-- The process ends with `code`, if it has not ended before. -/
def Proc.ended (code : Int) (p : Proc) : Proc := { p with exit := p.exit.or (some code) }

/-- `SIGKILL`'s return code. -/
def SIGKILLED : Int := -9

/-- One statement; `none` while it waits, and where it can only raise. -/
def app (s : Stmt) (w : World) : Option World :=
  match s with
  | .look => some w
  | .require b => if b then some w else none
  | .publish => if w.publishes then some w else none
  | .osKill _ => some w
  | .poll _ => some w
  | .sleepUntil t => if t ≤ w.clock then some w else none
  | .acquire => if w.locked then none else some { w with locked := true }
  | .release => some { w with locked := false }
  | .insertEpisode c u =>
    some { w with episodes := w.episodes ++ [⟨c, u, none, none, some injecting, w.clock, none, false, false, false, none, none⟩] }
  | .insertTrigger ip => some { w with demoTriggerLog := w.demoTriggerLog ++ [(ip, w.clock)] }
  | .setPaused b => some { w with leakCheckoutPaused := b }
  | .setState e s x =>
    some (w.setRow e fun r => { r with
      episodeState := some s
      stateEnteredAt := w.clock
      subprocessPid := x.subprocessPid.or r.subprocessPid
      triggeredBy := x.triggeredBy.or r.triggeredBy })
  | .claim e =>
    some (if w.stateOf e = some awaitingFix then
      w.setRow e fun r => { r with episodeState := some resolving, stateEnteredAt := w.clock } else w)
  | .setPid e pid => some (w.setRow e fun r => { r with subprocessPid := some pid })
  | .confirmEvidence e => some (w.setRow e fun r => { r with evidenceConfirmed := true })
  | .requestStop e => some (w.setRow e fun r => { r with stopHoldRequested := true })
  | .requestAbandon u =>
    some { w with episodes := w.episodes.map fun r =>
      if u ≠ none ∧ r.triggeringUsername = u ∧ r.episodeState.any (· ∈ NON_TERMINAL_EPISODE_STATES)
      then { r with abandonRequested := true } else r }
  | .setRepublished e => some (w.setRow e fun r => { r with republishedAt := some w.clock })
  | .writeStopFile e => some { w with stopFiles := e :: w.stopFiles }
  | .popTimer e => some { w with abandonTimers := w.abandonTimers.filter (·.episode ≠ e) }
  | .addTimer e d => some { w with abandonTimers := ⟨e, d, none⟩ :: w.abandonTimers.filter (·.episode ≠ e) }
  | .startTimer e =>
    some { w with abandonTimers := w.abandonTimers.map fun t =>
      if t.episode = e then { t with due := some (w.clock + t.interval) } else t }
  | .startInjector e => some { w with procs := w.procs ++ [⟨.injector e, none⟩] }
  | .startScorer e t => some { w with procs := w.procs ++ [⟨.scorer e t, none⟩] }
  | .terminate _ => some w
  | .kill pid => some (w.setProc pid (·.ended SIGKILLED))
  | .wait pid => if w.alive pid then none else some w
  | .waitUntil pid t => if w.alive pid ∧ w.clock < t then none else some w
  | .startThread _ => some w
  | .serve => some { w with status := .serving }

/-- What happens around the API process. -/
inductive Env where
  | tick (d : Nat)
  /-- `record_episode`: a running injector fills in its row. -/
  | record (pid t0 : Nat) (chaosName : String)
  /-- A running injector writes its evidence file. -/
  | evidence (pid : Nat) (epoch : Option Nat)
  /-- A running scorer inserts its episode's `scores` row. -/
  | score (pid : Nat)
  | exit (pid : Nat) (code : Int)
  | cluster (restarts : Nat) (backoff cartsReady publishes : Bool)
  /-- A scorer of the batch runner's scores an episode. -/
  | scoreBatch (e : Nat)
  /-- The batch runner's injector records an episode of its own. -/
  | batch (faultClass : String) (t0 : Nat) (chaosName : String)
  deriving DecidableEq, Repr

def env (x : Env) (w : World) : World :=
  match x with
  | .tick d => { w with clock := w.clock + d }
  | .record pid t0 n =>
    match w.running pid with
    | some (.injector e) => w.setRow e fun r => { r with t0 := some t0, chaosResourceName := some n }
    | _ => w
  | .evidence pid v =>
    match w.running pid with
    | some (.injector e) => { w with evidenceFiles := (e, v) :: w.evidenceFiles }
    | _ => w
  | .score pid =>
    match w.running pid with
    | some (.scorer e _) => { w with scores := e :: w.scores }
    | _ => w
  | .scoreBatch e => { w with scores := e :: w.scores }
  | .exit pid code => w.setProc pid (·.ended code)
  | .cluster n b c p => { w with restarts := n, backoff := b, cartsReady := c, publishes := p }
  | .batch c t n => { w with episodes := w.episodes ++ [⟨c, none, some t, some n, none, w.clock, none, false, false, false, none, none⟩] }

/-- Killing the API process takes its memory with it, and nothing else. -/
def killed (w : World) : World :=
  { w with status := .down, locked := false, abandonTimers := [], leakCheckoutPaused := false }

/-- A request handler starts when the API accepts requests, `_on_startup` when it
is started, and a timer's `_attempt_resolve` when the timer is due. -/
def post (j : Job) (w : World) : Option World :=
  match j with
  | .triggerInject .. | .triggerStopHold .. | .triggerResolve .. | .logout .. =>
    if w.status = .serving then some w else none
  | .onStartup => if w.status = .down then some { w with status := .starting } else none
  | .attemptResolve e .autoResolve =>
    if w.abandonTimers.any fun t => t.episode = e ∧ t.due.any (· ≤ w.clock) then
      some { w with abandonTimers := w.abandonTimers.map fun t => if t.episode = e then { t with due := none } else t }
    else none
  | _ => none

def spawns : Stmt → Option Job
  | .startThread j => some j
  | _ => none

theorem eq_of_spawns {s : Stmt} {j : Job} (h : spawns s = some j) : s = .startThread j := by
  cases s with
  | startThread j' => exact congrArg _ (Option.some.inj h)
  | _ => cases h

end Wardence.Live
