import Wardence.Live.Programs
/-!
# What most programs leave alone

Only an inject request inserts an episode or a trigger, pauses the checkout or starts a
wrapper: every other program of the API is `Mild`. Most of them start no scorer and write
no terminal state either, and are `Modest`.
-/
namespace Wardence.Live

open Threads Code

/-- The statements of no inject request alone. -/
def Stmt.Mild : Stmt → Prop
  | .insertEpisode _ _ | .insertTrigger _ | .setPaused true | .startThread (.runLiveEpisode _ _) => False
  | _ => True

/-- Nor a start of a scorer or a terminal write. -/
def Stmt.Modest : Stmt → Prop
  | .startScorer _ _ | .setState _ .resolved _ | .setState _ .failed _ => False
  | s => s.Mild

theorem Stmt.Modest.mild {s : Stmt} (h : s.Modest) : s.Mild := by
  cases s with
  | setState _ t _ => trivial
  | startScorer => exact h.elim
  | _ => exact h

section Within
variable {α β : Type} {N : Stmt → Prop}

theorem within_exec {s : Stmt} (h : N s) : (exec s).Within N := ⟨h, fun _ => trivial, trivial⟩

theorem within_onlyIf {c : Prop} {_ : Decidable c} {p : Routine Unit} (hp : p.Within N) : (onlyIf c p).Within N :=
  Within.ite hp trivial

theorem within_forM {l : List α} {f : α → Routine Unit} (hf : ∀ a, (f a).Within N) : (l.forM f).Within N := by
  induction l with
  | nil => trivial
  | cons a l ih => exact Within.bind (hf a) fun _ => ih

end Within

section Programs
variable {α : Type} {e : Nat}

abbrev Mild (p : Routine α) : Prop := p.Within Stmt.Mild
abbrev Modest (p : Routine α) : Prop := p.Within Stmt.Modest

theorem Modest.mild {p : Routine α} (h : Modest p) : Mild p := h.mono fun _ => Stmt.Modest.mild

theorem modest_look : Modest look := Within.stmt trivial
theorem modest_openConn : Modest openConn := within_exec trivial
theorem modest_closeConn : Modest closeConn := modest_openConn
theorem modest_audit : Modest audit := modest_openConn

theorem modest_sleep (d : Nat) : Modest (sleep d) := Within.bind modest_look fun _ => within_exec trivial

theorem modest_orRaise (o : Option α) : Modest (orRaise o) :=
  Within.bind (within_exec trivial) fun _ => by cases o <;> trivial

theorem modest_refuseUnaudited : Modest (refuseUnaudited : Routine α) := Within.bind modest_closeConn fun _ => trivial

theorem modest_refuse : Modest (refuse : Routine α) := Within.bind modest_audit fun _ => modest_refuseUnaudited

theorem modest_snapshotAt {c : String} {t : Nat} : Modest (snapshotAt e c t) := by
  refine Within.ite (Within.bind modest_look fun w => ?_) trivial
  split
  · trivial
  · exact Within.bind modest_look fun _ => Within.bind (modest_orRaise _) fun _ => trivial

theorem modest_publish : Modest (do exec .publish; pure true : Routine Bool) :=
  Within.bind (within_exec trivial) fun _ => trivial

theorem modest_republishToR2 : Modest republishToR2 :=
  Within.tryCatch modest_publish (Within.bind (modest_sleep 3) fun _ => Within.tryCatch modest_publish trivial)

theorem modest_memoryLeakRecencyWait : Modest (memoryLeakRecencyWait e) := by
  refine Within.bind modest_openConn fun _ => Within.bind modest_look fun w => Within.bind modest_closeConn fun _ => ?_
  split
  · trivial
  · exact Within.bind modest_look fun _ => within_forM modest_sleep

theorem modest_holdTick {c : String} {n : Nat} : Modest (holdTick e c n) := by
  refine Within.bind modest_openConn fun _ => Within.bind modest_look fun w => Within.bind (modest_orRaise _) fun r => ?_
  refine Within.bind (within_onlyIf (Within.bind modest_look fun _ => within_onlyIf (within_exec trivial))) fun _ => ?_
  refine Within.bind (within_onlyIf (Within.bind modest_look fun _ => within_onlyIf (within_exec trivial))) fun _ => ?_
  exact modest_closeConn

theorem modest_stopInjector {pid : Nat} : Modest (stopInjector pid) := by
  refine Within.bind (within_exec trivial) fun _ => Within.bind modest_look fun _ => Within.bind (Within.stmt trivial) fun _ => ?_
  exact within_onlyIf (Within.bind (within_exec trivial) fun _ => within_exec trivial)

theorem modest_pollInjector {c : String} {pid d n : Nat} : Modest (pollInjector e c pid d n) := by
  refine Within.bind (Within.stmt trivial) fun w => Within.ite (Within.bind modest_look fun _ => ?_) trivial
  refine Within.ite (Within.bind modest_stopInjector fun _ => trivial) ?_
  exact Within.bind (within_onlyIf modest_holdTick) fun _ => Within.bind (modest_sleep 10) fun _ => trivial

theorem modest_triggerStopHold {role : Role} {u : Option String} : Modest (triggerStopHold e role u) := by
  refine Within.bind modest_openConn fun _ => Within.bind modest_look fun w => ?_
  split
  · exact modest_refuseUnaudited
  · refine Within.ite modest_refuseUnaudited (Within.ite modest_refuseUnaudited ?_)
    exact Within.bind (within_exec trivial) fun _ => modest_closeConn

theorem modest_startThread {j : Job} (h : Stmt.Modest (.startThread j)) : Modest (startThread j) := within_exec h

theorem modest_triggerResolve : Modest (triggerResolve e) :=
  Within.bind modest_openConn fun _ => Within.bind modest_look fun _ =>
    Within.ite (Within.bind modest_audit fun _ => Within.bind modest_closeConn fun _ => modest_startThread trivial) modest_refuse

theorem modest_episodeInFlight : Modest episodeInFlight := by
  refine Within.bind modest_look fun w => Within.ite trivial (Within.bind modest_look fun w' => ?_)
  split
  · trivial
  · exact Within.bind (modest_orRaise _) fun _ => Within.bind modest_look fun _ => trivial

theorem modest_cooldown {w : World} {ip : String} : Modest (cooldown w ip) := by
  unfold cooldown
  split
  · trivial
  · exact Within.bind modest_look fun _ => within_onlyIf modest_refuse

theorem modest_demoTriggerChecks {c ip : String} : Modest (demoTriggerChecks c ip) := by
  refine Within.bind (within_onlyIf modest_refuse) fun _ => Within.bind modest_look fun _ => ?_
  refine Within.bind (within_onlyIf modest_refuse) fun _ => Within.bind modest_look fun _ => ?_
  exact Within.bind modest_cooldown fun _ => Within.bind modest_look fun _ => within_onlyIf modest_refuse

theorem modest_logout {u : Option String} : Modest (logout u) :=
  Within.bind modest_openConn fun _ => Within.bind (within_exec trivial) fun _ => modest_closeConn

theorem modest_pidAlive {pid : Nat} : Modest (pidAlive pid) :=
  Within.tryCatch (Within.bind (Within.stmt trivial) fun _ => trivial) trivial

theorem mild_setEpisodeState {s : EpisodeState} {x : Extra} : Mild (setEpisodeState e s x) :=
  Within.bind (within_exec trivial) fun _ => within_onlyIf <| Within.bind modest_look.mild fun _ =>
    within_onlyIf (within_exec trivial)

theorem mild_setAndClose {s : EpisodeState} {x : Extra} : Mild (do setEpisodeState e s x; closeConn) :=
  Within.bind mild_setEpisodeState fun _ => modest_closeConn.mild

theorem mild_runScorer {t : Nat} : Mild (runScorer e t) := by
  refine Within.bind (Within.stmt trivial) fun w => ?_
  refine Code.Within.graft (Within.stmt trivial) (fun w' => ?_) (Within.bind (within_exec trivial) fun _ => trivial)
  split
  · trivial
  · exact Within.bind (within_exec trivial) fun _ => Within.bind (within_exec trivial) fun _ => trivial

theorem mild_attemptResolve {t : Trigger} : Mild (attemptResolve e t) := by
  refine Within.bind modest_openConn.mild fun _ => Within.bind (Within.stmt trivial) fun w => ?_
  refine Within.ite (Within.bind ?_ fun _ => trivial) (Within.bind modest_closeConn.mild fun _ => trivial)
  refine Within.bind (within_exec trivial) fun _ => Within.bind modest_look.mild fun _ => ?_
  refine Within.bind modest_closeConn.mild fun _ => Within.bind (modest_orRaise _).mild fun _ => Within.bind (modest_orRaise _).mild fun _ => ?_
  refine Within.bind modest_snapshotAt.mild fun _ => Within.bind modest_look.mild fun _ => Within.bind (within_onlyIf (modest_sleep _).mild) fun _ => ?_
  refine Within.bind mild_runScorer fun _ => Within.bind modest_openConn.mild fun _ => Within.ite ?_ mild_setAndClose
  refine Within.bind mild_setEpisodeState fun _ => Within.bind modest_closeConn.mild fun _ => ?_
  refine Within.bind modest_republishToR2.mild fun _ => within_onlyIf (Within.bind modest_openConn.mild fun _ => ?_)
  exact Within.bind (within_exec trivial) fun _ => modest_closeConn.mild

theorem mild_guard : Mild (guard e) := Within.tryCatch (Within.bind modest_openConn.mild fun _ => mild_setAndClose) trivial

theorem mild_wrapperTail {c : String} {pid : Nat} {b : Bool} : Mild (wrapperTail e c pid b) := by
  refine Within.bind modest_openConn.mild fun _ => Within.bind modest_look.mild fun w => Within.bind (modest_orRaise _).mild fun r => ?_
  refine Within.ite mild_setAndClose (Within.bind modest_look.mild fun w' => Within.ite mild_setAndClose (Within.ite ?_ ?_))
  · exact Within.bind mild_setEpisodeState fun _ => Within.bind modest_closeConn.mild fun _ => Within.bind mild_attemptResolve fun _ => trivial
  · refine Within.bind mild_setEpisodeState fun _ => Within.bind modest_closeConn.mild fun _ => ?_
    exact Within.bind (within_exec trivial) fun _ => within_exec trivial

theorem mild_runLiveEpisode {c : String} : Mild (runLiveEpisode e c) := by
  refine Within.tryCatch (Within.bind (within_onlyIf modest_memoryLeakRecencyWait.mild) fun _ => ?_) mild_guard
  refine Within.bind (Within.ite (Within.bind modest_look.mild fun _ => trivial) trivial) fun _ => Within.bind modest_look.mild fun _ => ?_
  refine Within.bind (Within.stmt trivial) fun w => Within.bind modest_openConn.mild fun _ => ?_
  refine Within.bind (Within.ite mild_setEpisodeState (within_exec trivial)) fun _ => ?_
  refine Within.bind modest_closeConn.mild fun _ => Within.bind modest_look.mild fun _ => ?_
  exact Within.bind (Within.untilSome modest_pollInjector.mild) fun _ => Within.bind modest_look.mild fun _ => mild_wrapperTail

theorem mild_awaiting {t : Trigger} :
    Mild (do setEpisodeState e .awaitingFix noExtra; closeConn; startThread (.attemptResolve e t)) :=
  Within.bind mild_setEpisodeState fun _ => Within.bind modest_closeConn.mild fun _ => within_exec trivial

theorem mild_waitForOrphan {pid : Nat} : Mild (waitForOrphan pid e) := by
  refine Within.tryCatch (Within.bind (Within.untilSome (Within.bind modest_pidAlive.mild fun _ => ?_)) fun _ => ?_) mild_guard
  · exact Within.ite (Within.bind (modest_sleep 10).mild fun _ => trivial) trivial
  · refine Within.bind modest_openConn.mild fun _ => Within.bind modest_look.mild fun w => Within.bind (modest_orRaise _).mild fun r => ?_
    exact Within.ite mild_awaiting mild_setAndClose

theorem mild_reconcileOneRow {r : Episode} : Mild (reconcileOneRow e r) := by
  have hinj : Mild (reconcileInjecting e r) := by
    unfold reconcileInjecting
    split
    · exact Within.bind modest_openConn.mild fun _ => mild_setAndClose
    · refine Within.bind modest_pidAlive.mild fun _ => Within.ite (within_exec trivial) ?_
      exact Within.bind modest_openConn.mild fun _ => Within.ite mild_awaiting mild_setAndClose
  refine Within.bind modest_look.mild fun w => ?_
  split
  · exact hinj
  · exact hinj
  · refine Within.ite (within_exec trivial) ?_
    exact Within.bind (within_exec trivial) fun _ => within_exec trivial
  · exact Within.bind modest_openConn.mild fun _ => Within.bind modest_look.mild fun _ => mild_setAndClose
  · trivial

theorem mild_onStartup : Mild onStartup := by
  refine Within.bind modest_openConn.mild fun _ => Within.bind modest_look.mild fun w => Within.bind modest_closeConn.mild fun _ => ?_
  exact Within.bind (within_forM fun x => Within.tryCatch mild_reconcileOneRow trivial) fun _ => within_exec trivial

end Programs

end Wardence.Live
