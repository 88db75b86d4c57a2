import Wardence.Live.Programs
/-!
# What each thread may do, and when

The typestate discipline of the API's threads. A phase says what a thread has on
its hands: the trigger lock, an episode whose injector it starts or watches, an
episode it resolves, the rows the startup handler still has to reconcile. `Rule`
has one constructor for each kind of statement that changes the state of an
episode, the lock or a process that a phase speaks of; `fault` says what an
exception does to a phase. That the programs keep to the rules is shown in
`Wardence.Live.Discipline`.
-/
namespace Wardence.Live

open Threads EpisodeState

/-- A row that the startup handler has read; `pid` is none once no injector of
the row can be running. -/
structure Pending where
  episode : Nat
  state : EpisodeState
  pid : Option Nat
  deriving DecidableEq, Repr

/-- The injector may still have to end. -/
def EpisodeState.Unsettled (s : EpisodeState) : Prop := s = injecting ∨ s = holding

instance (s : EpisodeState) : Decidable s.Unsettled := by unfold EpisodeState.Unsettled; infer_instance

inductive Phase where
  /-- Touches no episode's state. -/
  | quiet
  /-- An inject request, before it holds the lock, while it does, and once it has
  seen no episode in flight. -/
  | asking
  | admitting
  | admitted
  /-- The row is inserted, its wrapper not yet started. -/
  | launching (e : Nat) (locked : Bool)
  /-- A wrapper before `Popen`, before the pid is in the row, and after that. -/
  | fresh (e : Nat)
  | forked (e pid : Nat)
  | tracked (e pid : Nat)
  /-- The injector is known to have ended. -/
  | reaped (e : Nat)
  /-- An exception while the injector may be running; the guard has yet to write. -/
  | doomed (e : Nat)
  /-- Has written `awaiting_fix`. -/
  | armed (e : Nat)
  /-- An exception when nothing of the episode is left to do; the guard has yet to write. -/
  | late (e : Nat)
  /-- A resolve before Gate 2, after it, and once the scorer is started. -/
  | resolver (e : Nat)
  | owner (e : Nat) (guarded : Bool)
  | scoring (e : Nat) (guarded : Bool)
  /-- An exception in a guarded resolve; the guard has yet to write. -/
  | rescuing (e : Nat)
  /-- Has written the terminal state `s`. -/
  | spent (e : Nat) (s : EpisodeState) (guarded : Bool)
  /-- The startup handler before and after its `SELECT`; `slipped` once it has
  given up on a row that may have been a `resolving` one. -/
  | starting
  | reconciling (rows : List Pending) (slipped : Bool)
  deriving DecidableEq, Repr

/-- The statements that change nothing a phase speaks of. -/
def Stmt.Neutral : Stmt → Prop
  | .look | .require _ | .poll _ | .sleepUntil _ | .insertTrigger _ | .setPaused _ | .confirmEvidence _
  | .requestStop _ | .requestAbandon _ | .setRepublished _ | .writeStopFile _ | .popTimer _ | .addTimer _ _
  | .startTimer _ | .terminate _ | .kill _ | .wait _ | .waitUntil _ _ => True
  | _ => False

/-- The statement finds process `pid` ended, if it finds anything. -/
def Stmt.Probes (s : Stmt) (pid : Nat) : Prop :=
  s = .poll pid ∨ s = .osKill pid ∨ s = .wait pid ∨ ∃ t, s = .waitUntil pid t

/-- No injector of the row runs: its process is not there. -/
def Pending.clear (pid : Nat) (x : Pending) : Pending := if x.pid = some pid then { x with pid := none } else x

@[simp] theorem Pending.clear_episode (pid : Nat) (x : Pending) : (x.clear pid).episode = x.episode := by
  unfold Pending.clear
  split <;> rfl

@[simp] theorem Pending.clear_state (pid : Nat) (x : Pending) : (x.clear pid).state = x.state := by
  unfold Pending.clear
  split <;> rfl

def World.pendings (w : World) : List Pending :=
  w.nonTerminalRows.filterMap fun x => x.2.episodeState.map fun s => ⟨x.1, s, x.2.subprocessPid⟩

/-- The phases that may write `failed`, and whether a guard is around them. -/
def Phase.mayFail (e : Nat) : Phase → Option Bool
  | .fresh e' | .reaped e' | .doomed e' | .late e' | .rescuing e' => if e' = e then some true else none
  | .scoring e' g => if e' = e then some g else none
  | .spent e' failed true => if e' = e then some true else none
  | _ => none

/-- The startup handler is done with the rows of episode `e`. -/
def without (e : Nat) (rows : List Pending) : List Pending := rows.filter (·.episode ≠ e)

inductive Rule : Phase → Stmt → World → Phase → Prop
  | neutral {φ s w} : φ ≠ .starting → s.Neutral → Rule φ s w φ
  | resolve {φ e t w} : φ ≠ .starting → Rule φ (.startThread (.attemptResolve e t)) w φ
  | probe {φ pid w} : φ ≠ .starting → Rule φ (.osKill pid) w φ
  -- an inject request
  | acquire {w} : Rule .asking .acquire w .admitting
  | free {w} : w.inFlight = false → Rule .admitting .look w .admitted
  | insert {c u w} : Rule .admitted (.insertEpisode c u) w (.launching w.episodes.length true)
  | release {e w} : Rule (.launching e true) .release w (.launching e false)
  | giveUp {φ w} : φ = .admitting ∨ φ = .admitted → Rule φ .release w .quiet
  | launch {e c w} : Rule (.launching e false) (.startThread (.runLiveEpisode e c)) w .quiet
  -- an episode's wrapper, or its watcher
  | popen {e w} : Rule (.fresh e) (.startInjector e) w (.forked e w.procs.length)
  | hold {e pid w} : Rule (.forked e pid) (.setState e holding ⟨some pid, none⟩) w (.tracked e pid)
  | setPid {e pid w} : Rule (.forked e pid) (.setPid e pid) w (.tracked e pid)
  | reap {e pid s w} : s.Probes pid → w.alive pid = false → Rule (.tracked e pid) s w (.reaped e)
  | kill {e pid w} : Rule (.tracked e pid) (.kill pid) w (.reaped e)
  | arm {e x w} : Rule (.reaped e) (.setState e awaitingFix x) w (.armed e)
  | fail {φ e g x w} : φ.mayFail e = some g → Rule φ (.setState e failed x) w (.spent e failed g)
  -- a resolve
  | claimArmed {e w} : w.stateOf e = some awaitingFix → Rule (.armed e) (.claim e) w (.owner e true)
  | claim {e w} : w.stateOf e = some awaitingFix → Rule (.resolver e) (.claim e) w (.owner e false)
  | lose {φ e w} : φ = .armed e ∨ φ = .resolver e → w.stateOf e ≠ some awaitingFix → Rule φ (.claim e) w φ
  | score {e g t w} : Rule (.owner e g) (.startScorer e t) w (.scoring e g)
  | resolved {e g x w} : Rule (.scoring e g) (.setState e resolved x) w (.spent e resolved g)
  | publish {e s g w} : Rule (.spent e s g) .publish w (.spent e s g)
  -- the startup handler
  | connect {w} : Rule .starting .look w .starting
  | select {w} : Rule .starting .look w (.reconciling w.pendings false)
  | gone {rows b pid w} : w.alive pid = false →
    Rule (.reconciling rows b) (.osKill pid) w (.reconciling (rows.map (·.clear pid)) b)
  | settle {rows b x s y w} : y ∈ rows → y.state.Unsettled → y.pid = none → s = failed ∨ s = awaitingFix →
    Rule (.reconciling rows b) (.setState y.episode s x) w (.reconciling (without y.episode rows) b)
  | close {rows b x s y w} : y ∈ rows → y.state = resolving → s = resolved ∨ s = failed →
    Rule (.reconciling rows b) (.setState y.episode s x) w (.reconciling (without y.episode rows) b)
  | watch {rows b y pid w} : y ∈ rows → y.state.Unsettled → y.pid = none ∨ y.pid = some pid →
    Rule (.reconciling rows b) (.startThread (.waitForOrphan pid y.episode)) w (.reconciling (without y.episode rows) b)
  | serve {rows b w} : b = true ∨ (∀ y ∈ rows, y.state ≠ resolving) → Rule (.reconciling rows b) .serve w .quiet

/-- What an exception at `s` does to a phase. -/
def fault (φ : Phase) (s : Stmt) : Phase :=
  match φ, s with
  | .forked e _, _ => .doomed e
  -- `_wait_for_orphan` reads an error of its `os.kill` as the injector's end
  | .tracked e _, .osKill _ => .reaped e
  | .tracked e _, _ => .doomed e
  | .armed e, _ => .late e
  | .owner e true, _ => .rescuing e
  | .scoring e true, _ => .rescuing e
  -- nothing catches what an unguarded resolve raises
  | .owner _ false, _ => .quiet
  | .scoring _ false, _ => .quiet
  | .rescuing e, .kill _ => .rescuing e
  | .rescuing _, _ => .quiet
  | .spent e resolved true, .publish => .spent e resolved true
  | .spent e resolved true, _ => .late e
  | .reconciling rows b, .osKill pid => .reconciling (rows.map (·.clear pid)) b
  | .reconciling rows b, _ => .reconciling rows (b || rows.any (·.state = resolving))
  | φ, _ => φ

/-- The episode whose state a thread's exception guard writes. -/
def Job.guarded : Job → Option Nat
  | .runLiveEpisode e _ => some e
  | .waitForOrphan _ e => some e
  | _ => none

def Job.isInject : Job → Bool
  | .triggerInject .. => true
  | _ => false

/-- The job of a thread that is or is not under a guard. -/
def Job.Resolves (j : Job) (e : Nat) (guarded : Bool) : Prop :=
  if guarded then j.guarded = some e else ∃ t, j = .attemptResolve e t

/-- The phases of a job. -/
def Phase.Within (j : Job) : Phase → Prop
  | .quiet => True
  | .asking | .admitting | .admitted | .launching _ _ => j.isInject = true
  | .fresh e | .forked e _ | .tracked e _ | .reaped e | .doomed e | .armed e | .late e | .rescuing e => j.guarded = some e
  | .resolver e => ∃ t, j = .attemptResolve e t
  | .owner e g | .scoring e g | .spent e _ g => j.Resolves e g
  | .starting | .reconciling _ _ => j = .onStartup

/-- A resolve that won Gate 2 does not end before its terminal write. -/
def Phase.Rests : Phase → Prop
  | .owner _ _ | .scoring _ _ | .rescuing _ => False
  | _ => True

def Job.entry : Job → Phase
  | .triggerInject .. => .asking
  | .triggerStopHold .. | .triggerResolve _ | .logout _ => .quiet
  | .onStartup => .starting
  | .runLiveEpisode e _ => .fresh e
  | .attemptResolve e _ => .resolver e
  | .waitForOrphan pid e => .tracked e pid

theorem Phase.within_entry (j : Job) : j.entry.Within j := by
  cases j <;> simp [Job.entry, Phase.Within, Job.isInject, Job.guarded]

theorem Phase.mayFail_within {j : Job} {φ : Phase} {e : Nat} {g : Bool} (hm : φ.Within j) (h : φ.mayFail e = some g) :
    j.Resolves e g := by
  cases φ <;> simp only [Phase.mayFail, Option.ite_none_right_eq_some, Option.some.injEq, reduceCtorEq] at h
  case scoring =>
    obtain ⟨rfl, rfl⟩ := h
    exact hm
  case spent e' s g' =>
    cases s <;> cases g' <;> simp only [Option.ite_none_right_eq_some, Option.some.injEq, reduceCtorEq] at h
    obtain ⟨rfl, rfl⟩ := h
    exact hm
  all_goals
    obtain ⟨rfl, rfl⟩ := h
    exact hm

theorem Phase.within_rule {j : Job} {φ φ' : Phase} {s : Stmt} {w : World} (hm : φ.Within j) (h : Rule φ s w φ') :
    φ'.Within j := by
  cases h with
  | neutral | resolve | probe | lose | publish | connect => exact hm
  | fail hf => exact Phase.mayFail_within hm hf
  | giveUp | launch | serve => trivial
  | claim =>
    obtain ⟨t, rfl⟩ := hm
    exact ⟨t, rfl⟩
  | _ => exact hm

theorem Phase.within_fault {j : Job} {φ : Phase} (s : Stmt) (hm : φ.Within j) : (fault φ s).Within j := by
  unfold fault
  split <;> first | exact hm | trivial

/-- The discipline of the API's threads. -/
def discipline : Typestate World Stmt Job Phase where
  entry := Job.entry
  rule := Rule
  fault := fault
  rests := Phase.Rests
  mine j φ := φ.Within j
  mine_entry := Phase.within_entry
  mine_rule := Phase.within_rule
  mine_fault s := Phase.within_fault s

end Wardence.Live
