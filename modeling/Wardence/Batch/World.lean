import Wardence.Lib.Threads
import Wardence.Constraints
/-!
# The world of the batch runner

What `run_batch_plan.py` reads and writes: its progress file, the `episodes` rows
it shares with the live triggers, and the injectors and scorers it starts in
sessions of their own, which outlive it. `plans` numbers the plans; a row knows
the plan whose injector recorded it, which no column tells.
-/
namespace Wardence.Batch

open Threads

/-- A chunk of a plan. -/
structure Item where
  faultClass : String
  target : Nat
  deriving DecidableEq, Repr

inductive Status where
  | running
  | paused
  | complete
  deriving DecidableEq, Repr

/-- An entry of `gave_up`. -/
structure GaveUp where
  realEpisodesThisChunk : Nat
  targetThisChunk : Nat
  consecutiveRealFailures : Nat
  deriving DecidableEq, Repr

/-- What the progress file says of the plan's chunks; only the script writes it. -/
structure Progress where
  plan : List Item
  completed : List Nat
  gaveUp : List (String × GaveUp)
  sized : completed.length = plan.length
  deriving DecidableEq

/-- The progress file. -/
structure PlanState extends Progress where
  status : Status
  lastFaultTime : List (String × Nat)
  lastFaultClass : List (String × String)
  deriving DecidableEq

/-- A row of `episodes`; `scored` once it has a row of `scores`. -/
structure Episode where
  faultClass : String
  plan : Option Nat
  scored : Bool
  deriving DecidableEq, Repr

inductive Program where
  | injector (faultClass : String) (plan : Nat)
  | scorer
  deriving DecidableEq, Repr

/-- A process; `row` is the episode that an injector has recorded. -/
structure Proc where
  program : Program
  exit : Option Int
  row : Option Nat
  deriving DecidableEq, Repr

structure World where
  file : Option PlanState
  archived : List PlanState
  episodes : List Episode
  procs : List Proc
  plans : Nat
  /-- Seconds: `time.time()`, which may be set, and what `time.sleep` goes by. -/
  clock : Nat
  uptime : Nat
  /-- `_infra_ready`, and what `check_all_baselines.py` finds and, with `--fix`, mends. -/
  infraReady : Bool
  baselinesClean : Bool
  fixWorks : Bool
  /-- `PAUSE_FLAG_PATH` exists; Ctrl+C was caught; somebody presses Enter. -/
  pauseFlag : Bool
  stopRequested : Bool
  enterPressed : Bool
  /-- A batch runner has been started and has neither ended nor been cleared away. -/
  running : Bool
  /-- When the plan under way last stamped a fault on each target, whatever the file says. -/
  stamped : List (String × Nat)
  deriving DecidableEq

inductive Stmt where
  | look
  | sleepUntil (t : Nat)
  /-- `_stop_requested`, read between two chunks of the recency wait. -/
  | checkStop
  /-- `last_fault_time[target] = time.time()`. -/
  | stamp (target : String)
  | infraReady
  /-- A run of `check_all_baselines.py`, without and with `--fix`. -/
  | checkBaselines
  | fixBaselines
  /-- `_pause_requested`. -/
  | pauseRequested
  | unlinkPauseFlag
  | loadPlan
  | newPlan (ps : PlanState)
  | savePlan (ps : PlanState)
  | archivePlan
  /-- `_real_episode_count`, before an attempt and after it; `pid` was its injector. -/
  | countBefore (faultClass : String)
  | countAfter (pid : Nat) (faultClass : String) (before : Nat)
  | startInjector (faultClass : String)
  | startScorer
  | wait (pid : Nat)
  | kill (pid : Nat)
  /-- The script ends. -/
  | finish
  deriving DecidableEq

namespace World

def realEpisodeCount (w : World) (faultClass : String) : Nat := w.episodes.countP (·.faultClass = faultClass)

def exitOf (w : World) (pid : Nat) : Option Int := w.procs[pid]?.bind (·.exit)

/-- The episode that process `pid` has recorded. -/
def rowOf (w : World) (pid : Nat) : Option Nat := w.procs[pid]?.bind (·.row)

def pausing (w : World) : Bool := w.stopRequested || w.pauseFlag || w.enterPressed

end World

/-- Sets a key of a dictionary. -/
def put {α : Type} (d : List (String × α)) (k : String) (v : α) : List (String × α) := (k, v) :: d.filter (·.1 ≠ k)

/-- The process ends with `code`, if it has not ended before. -/
def Proc.ended (code : Int) (p : Proc) : Proc := { p with exit := p.exit.or (some code) }

/-- One statement; `none` while it waits. -/
def app (s : Stmt) (w : World) : Option World :=
  match s with
  | .sleepUntil t => if t ≤ w.uptime then some w else none
  | .stamp target => some { w with stamped := put w.stamped target w.clock }
  | .unlinkPauseFlag => some { w with pauseFlag := false }
  | .newPlan ps => some { w with file := some ps, plans := w.plans + 1, stamped := [] }
  | .savePlan ps => some { w with file := some ps }
  | .archivePlan => some { w with file := none, archived := w.file.toList ++ w.archived }
  | .startInjector c => some { w with procs := w.procs ++ [⟨.injector c w.plans, none, none⟩] }
  | .startScorer => some { w with procs := w.procs ++ [⟨.scorer, none, none⟩] }
  | .wait pid => if (w.exitOf pid).isSome then some w else none
  | .kill pid => some { w with procs := w.procs.modify pid (·.ended (-9)) }
  | .finish => some { w with running := false }
  | _ => some w

/-- What happens around the batch runner. -/
inductive Env where
  | tick (d : Nat)
  | setClock (t : Nat)
  | observe (infraReady baselinesClean fixWorks enterPressed : Bool)
  | sigint
  | touchPauseFlag
  /-- A running injector of the batch inserts its row. -/
  | record (pid : Nat)
  | exit (pid : Nat) (code : Int)
  /-- A scorer inserts the `scores` row of episode `r`. -/
  | score (r : Nat)
  /-- A live trigger's injector records an episode. -/
  | live (faultClass : String)
  deriving DecidableEq

/-- The class and the plan of a process that may yet record its episode. -/
def Proc.recording (p : Proc) : Option (String × Nat) :=
  match p with
  | ⟨.injector c n, none, none⟩ => some (c, n)
  | _ => none

def env (x : Env) (w : World) : World :=
  match x with
  | .tick d => { w with clock := w.clock + d, uptime := w.uptime + d }
  | .setClock t => { w with clock := t }
  | .observe i b f e => { w with infraReady := i, baselinesClean := b, fixWorks := f, enterPressed := e }
  | .sigint => { w with stopRequested := true }
  | .touchPauseFlag => { w with pauseFlag := true }
  | .record pid =>
    match w.procs[pid]?.bind Proc.recording with
    | some (c, n) => { w with
        episodes := w.episodes ++ [⟨c, some n, false⟩]
        procs := w.procs.modify pid ({ · with row := some w.episodes.length }) }
    | none => w
  | .exit pid code => { w with procs := w.procs.modify pid (·.ended code) }
  | .score r => { w with episodes := w.episodes.modify r ({ · with scored := true }) }
  | .live c => { w with episodes := w.episodes ++ [⟨c, none, false⟩] }

end Wardence.Batch
