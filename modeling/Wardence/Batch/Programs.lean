import Wardence.Batch.World
/-!
# The batch runner

The functions of `run_batch_plan.py` and `run_episodes.py` that run a plan, as
programs over `World`. The plan's state is the dictionary `plan_state` in memory.
`print`, the log file, the timing and token statistics and the model-version
checks are statements that nothing here reads.
-/
namespace Wardence.Batch

open Threads Code

abbrev Routine := Code World Stmt

def MAX_CONSECUTIVE_REAL_FAILURES : Nat := 3
def INFRA_WAIT_MAX_S : Nat := 1200
def INFRA_WAIT_POLL_S : Nat := 20
def SETTLE_SECONDS : Nat := 35
def DEFAULT_TARGET_RECENCY_WINDOW_S : Nat := 300
def TARGET_RECENCY_WINDOW_S : List (String × Nat) :=
  [("network-latency", 150), ("network-partition", 150), ("init-failure", 150), ("session-cart-failure", 150),
    ("memory-leak", 330), ("connection-pool-exhaustion", 210), ("crash-loop", 60), ("oom", 60), ("disk-full", 60),
    ("bad-rollout", 60), ("under-provisioned-replicas", 60), ("cpu-throttling", 60)]

def exec (s : Stmt) : Routine Unit := do let _ ← stmt s

def look : Routine World := stmt .look

def sleep (d : Nat) : Routine Unit := do
  let w ← look
  exec (.sleepUntil (w.uptime + d))

/-! ## `run_episodes.py` -/

/-- `wait_for_infra_ready`, with `polls` polls left before `INFRA_WAIT_MAX_S`. -/
def pollInfra : Nat → Routine Bool
  | 0 => do
    let w ← stmt .infraReady
    pure w.infraReady
  | polls + 1 => do
    let w ← stmt .infraReady
    if w.infraReady then
      pure true
    else do
      sleep INFRA_WAIT_POLL_S
      pollInfra polls

def waitForInfraReady : Routine Bool := pollInfra (INFRA_WAIT_MAX_S / INFRA_WAIT_POLL_S)

/-- `run`: the child's process, and whether it ended with 0. An exception kills the child. -/
def runScript (s : Stmt) : Routine (Nat × Bool) := do
  let w ← stmt s
  let pid := w.procs.length
  (stmt (.wait pid)).graft (fun w => pure (pid, w.exitOf pid = some 0)) do
    exec (.kill pid)
    raise

/-! ## One episode -/

/-- The window of the class that is about to be injected. -/
def recencyWindow (faultClass : String) : Nat :=
  (TARGET_RECENCY_WINDOW_S.lookup faultClass).getD DEFAULT_TARGET_RECENCY_WINDOW_S

/-- The wait's loop, with `remaining` seconds to go, in at most `chunks` chunks. -/
def waitChunks : Nat → Nat → Routine Unit
  | 0, _ => pure ()
  | chunks + 1, remaining =>
    if remaining = 0 then
      pure ()
    else do
      let w ← stmt .checkStop
      if w.stopRequested then
        pure ()
      else do
        sleep (min remaining 5)
        waitChunks chunks (remaining - min remaining 5)

/-- A chunk is at least a second, so there are at most as many as there are seconds. -/
def waitForTargetRecency (target faultClass : String) (ps : PlanState) : Routine Unit :=
  match ps.lastFaultTime.lookup target with
  | none => pure ()
  | some last => do
    let w ← look
    let remaining := last + recencyWindow faultClass - w.clock
    waitChunks remaining remaining

/-- What it makes of the state in memory, and its injector's process if it returns `True`. -/
def runOneEpisode (faultClass : String) (ps : PlanState) : Routine (PlanState × Option Nat) :=
  match FAULT_CONFIG.lookup faultClass with
  | none => raise
  | some (target, _) => do
    if !(← waitForInfraReady) then
      pure (ps, none)
    else do
      waitForTargetRecency target faultClass ps
      let (pid, ok) ← runScript (.startInjector faultClass)
      if !ok then
        pure (ps, none)
      else do
        let w ← stmt (.stamp target)
        let ps := { ps with
          lastFaultTime := put ps.lastFaultTime target w.clock
          lastFaultClass := put ps.lastFaultClass target faultClass }
        sleep SETTLE_SECONDS
        let (_, ok) ← runScript .startScorer
        if !ok then pure (ps, none) else pure (ps, some pid)

/-! ## The plan -/

def savePlan (ps : PlanState) : Routine Unit := exec (.savePlan ps)

def Progress.gaveUpOn (p : Progress) (faultClass : String) : Bool := p.gaveUp.any (·.1 = faultClass)

def Progress.done (p : Progress) (idx : Nat) : Nat := p.completed.getD idx 0

/-- `plan_state["status"] = "paused"`, saved. -/
def pause (ps : PlanState) : Routine (PlanState × Bool) := do
  let ps := { ps with status := .paused }
  savePlan ps
  pure (ps, true)

/-- `completed[idx] = n`. -/
def Progress.count (p : Progress) (idx n : Nat) : Progress :=
  { p with completed := p.completed.set idx n, sized := by simp [p.sized] }

/-- `gave_up[item.faultClass] = g`. -/
def Progress.drop (p : Progress) (faultClass : String) (g : GaveUp) : Progress :=
  { p with gaveUp := put p.gaveUp faultClass g }

def PlanState.advance (ps : PlanState) (idx : Nat) : PlanState :=
  { ps with toProgress := ps.toProgress.count idx (ps.done idx + 1) }

def PlanState.skip (ps : PlanState) (idx : Nat) (item : Item) : PlanState :=
  { ps with toProgress := ps.toProgress.count idx item.target }

def PlanState.giveUp (ps : PlanState) (idx : Nat) (item : Item) : PlanState :=
  { ps with toProgress := ps.drop item.faultClass ⟨ps.done idx, item.target, MAX_CONSECUTIVE_REAL_FAILURES⟩ }

/-- A round of the `while` loop of chunk `idx`, with `left` failures left before
the class is given up; `next` is the loop after an episode. The result is the
state in memory and `stopped_early`. -/
def attempt (idx : Nat) (item : Item) (next : PlanState → Routine (PlanState × Bool)) :
    Nat → PlanState → Routine (PlanState × Bool)
  | 0, ps => pure (ps, false)
  | left + 1, ps => do
    let w ← stmt (.countBefore item.faultClass)
    let before := w.realEpisodeCount item.faultClass
    match ← runOneEpisode item.faultClass ps with
    | (ps, none) => pause ps
    | (ps, some pid) => do
      let w ← stmt (.countAfter pid item.faultClass before)
      if w.realEpisodeCount item.faultClass ≤ before then
        match left with
        | 0 => do
          let ps := ps.giveUp idx item
          savePlan ps
          pure (ps, false)
        | left + 1 => attempt idx item next (left + 1) ps
      else do
        exec .look -- _update_timings
        exec .look -- _update_token_usage
        let ps := ps.advance idx
        savePlan ps
        exec .look -- _run_baseline_checks
        let w ← stmt .pauseRequested
        if w.pausing then do
          let (ps, stopped) ← pause ps
          exec .unlinkPauseFlag
          pure (ps, stopped)
        else
          next ps

/-- The `while` loop of chunk `idx`, with `remaining` episodes to its target. -/
def runChunk (idx : Nat) (item : Item) : Nat → PlanState → Routine (PlanState × Bool)
  | 0, ps => pure (ps, false)
  | remaining + 1, ps => attempt idx item (runChunk idx item remaining) MAX_CONSECUTIVE_REAL_FAILURES ps

/-- The `for` loop, from chunk `idx` on. -/
def runPlan : Nat → List Item → PlanState → Routine (PlanState × Bool)
  | _, [], ps => pure (ps, false)
  | idx, item :: rest, ps =>
    if item.target ≤ ps.done idx then
      runPlan (idx + 1) rest ps
    else if ps.gaveUpOn item.faultClass then do
      let ps := ps.skip idx item
      savePlan ps
      runPlan (idx + 1) rest ps
    else do
      let (ps, stopped) ← runChunk idx item (item.target - ps.done idx) ps
      if stopped then pure (ps, true) else runPlan (idx + 1) rest ps

/-! ## The script -/

/-- `_run_baseline_check`. -/
def runBaselineCheck : Routine Bool := do
  let w ← stmt .checkBaselines
  if w.baselinesClean then
    pure true
  else do
    let w ← stmt .fixBaselines
    if !w.fixWorks then
      pure false
    else do
      let w ← stmt .checkBaselines
      pure w.baselinesClean

/-- `main` once it has its plan. -/
def resume (ps : PlanState) : Routine Unit := do
  exec .unlinkPauseFlag
  if !(← runBaselineCheck) then do
    let _ ← pause ps
    exec .finish
  else do
    let (ps, stopped) ← runPlan 0 ps.plan ps
    if stopped then
      exec .finish
    else do
      savePlan { ps with status := .complete }
      exec .archivePlan
      exec .finish

def startOf (items : List Item) : PlanState :=
  { plan := items, completed := List.replicate items.length 0, gaveUp := [], sized := by simp, status := .running,
    lastFaultTime := [], lastFaultClass := [] }

/-- A plan that is there and not complete. -/
def World.unfinished (w : World) : Option PlanState := w.file.filter (·.status ≠ .complete)

/-- `main`, with the plan that the command line gives. -/
def main (given : Option (List Item)) : Routine Unit := do
  exec .look
  let w ← stmt .loadPlan
  match w.unfinished with
  | some ps => resume ps
  | none =>
    match given with
    | none => exec .finish
    | some items => do
      exec (.newPlan (startOf items))
      resume (startOf items)

/-- The batch runner is started by hand, one at a time. A killed one, or one that an
exception ended, leaves its file, its database and its children behind. -/
def batch : Machine World Stmt (Option (List Item)) Env where
  app := app
  spawns _ := none
  body := main
  post _ w := if w.running then none else some { w with running := true, stopRequested := false }
  env := env
  killed w := { w with running := false }

end Wardence.Batch
