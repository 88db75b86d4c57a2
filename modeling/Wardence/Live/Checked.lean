import Wardence.Live.Bystanders
import Wardence.Live.Discipline
/-!
# What a wrapper has checked

A discipline beside those of `Wardence.Live.Phases` and `Wardence.Live.Knowledge`: the wrapper of an
episode writes `awaiting_fix` only after it has seen its own injector return 0 with the row filled
in, and then no request to abandon the episode. What the other threads write is left open.
-/
namespace Wardence.Live

/-- The injection is in the row. -/
def Episode.Recorded (r : Episode) : Prop := r.t0.isSome = true ∧ r.chaosResourceName.isSome = true

instance (r : Episode) : Decidable r.Recorded := inferInstanceAs (Decidable (_ ∧ _))

namespace Checked

open Threads Code EpisodeState

/-- What a wrapper does while it watches its injector. -/
def Watching : Stmt → Prop
  | .setPid _ _ | .setState _ .holding _ => True
  | s => s.Neutral

/-- Neither the start of an injector nor a write of `awaiting_fix`. -/
def Apart : Stmt → Prop
  | .startInjector _ | .setState _ .awaitingFix _ => False
  | _ => True

inductive Phase where
  /-- No wrapper. -/
  | other
  /-- The wrapper of `e` before the start of its injector, or after its verdict. -/
  | away (e : Nat)
  /-- Its injector is process `pid`. -/
  | watches (e pid : Nat)
  /-- The injector has returned 0, and the row is filled in. -/
  | injected (e pid : Nat)
  /-- Nor is the episode abandoned. -/
  | clear (e pid : Nat)
  deriving DecidableEq

inductive Rule : Phase → Stmt → World → Phase → Prop
  | other {s w} : Rule .other s w .other
  | away {e s w} : Apart s → Rule (.away e) s w (.away e)
  | start {e w} : Rule (.away e) (.startInjector e) w (.watches e w.procs.length)
  | watch {e pid s w} : Watching s → Rule (.watches e pid) s w (.watches e pid)
  | inject {e pid r w} : w.exitOf pid = some 0 → w.episodes[e]? = some r → r.Recorded →
    Rule (.watches e pid) .look w (.injected e pid)
  | wait {e pid s w} : s.Neutral → Rule (.injected e pid) s w (.injected e pid)
  | spare {e pid w} : (w.episodes[e]?).any (·.abandonRequested) = false → Rule (.injected e pid) .look w (.clear e pid)
  | fail {e pid x w} {φ : Phase} : φ = .watches e pid ∨ φ = .injected e pid → Rule φ (.setState e .failed x) w (.away e)
  | arm {e pid x w} : Rule (.clear e pid) (.setState e .awaitingFix x) w (.away e)

/-- An exception ends the watch. -/
def fault : Phase → Stmt → Phase
  | .other, _ => .other
  | .away e, _ | .watches e _, _ | .injected e _, _ | .clear e _, _ => .away e

/-- The phases of a job. -/
def Phase.Within : Job → Phase → Prop
  | .runLiveEpisode e _, .away e' | .runLiveEpisode e _, .watches e' _ | .runLiveEpisode e _, .injected e' _
  | .runLiveEpisode e _, .clear e' _ => e' = e
  | .runLiveEpisode _ _, .other => False
  | _, φ => φ = .other

def entry : Job → Phase
  | .runLiveEpisode e _ => .away e
  | _ => .other

def discipline : Typestate World Stmt Job Phase where
  entry := entry
  rule := Rule
  fault := fault
  rests _ := True
  mine j φ := φ.Within j
  mine_entry j := by cases j <;> rfl
  mine_rule {j φ s w φ'} hm hr := by
    cases hr with
    | other | away | start | watch | inject | wait | spare | arm => cases j <;> first | exact hm | cases hm
    | fail h => rcases h with rfl | rfl <;> cases j <;> first | exact hm | cases hm
  mine_fault {j φ} s hm := by cases φ <;> cases j <;> first | exact hm | cases hm

/-! ## The programs -/

theorem within_true {α : Type} (p : Routine α) : p.Within fun _ => True := by
  induction p with
  | done | raise => trivial
  | act s k h ihk ihh => exact ⟨trivial, ihk, ihh⟩
  | loop b k h ihb ihk ihh => exact ⟨ihb, ihk, ihh⟩

section Programs
variable {α β : Type} {φ : Phase} {e pid : Nat} {Q : α → Phase → Prop} {X : Phase → Prop}

abbrev Keeps (p : Routine α) (φ : Phase) (Q : α → Phase → Prop) (X : Phase → Prop) : Prop :=
  Obeys operatorApi discipline p φ Q X

theorem keeps_bind {p : Routine α} {f : α → Routine β} {Q : β → Phase → Prop}
    (h : Keeps p φ (fun a ψ => Keeps (f a) ψ Q X) X) : Keeps (p >>= f) φ Q X := Obeys.graft h

theorem keeps_stmt {s : Stmt} {Q : World → Phase → Prop} (h : ∀ w, ∃ φ', Rule φ s w φ' ∧ Q w φ') (hx : X (fault φ s)) :
    Keeps (stmt s) φ Q X := ⟨fun w _ _ => h w, hx⟩

theorem keeps_exec {s : Stmt} {Q : Unit → Phase → Prop} (h : ∀ w, ∃ φ', Rule φ s w φ' ∧ Q () φ') (hx : X (fault φ s)) :
    Keeps (exec s) φ Q X := ⟨fun w _ _ => h w, hx⟩

/-- A plain program, and then another. -/
theorem keeps_plain {p : Routine α} {f : α → Routine β} {Q : β → Phase → Prop} (hp : Plain p)
    (hr : ∀ s w, s.Neutral → Rule φ s w φ) (hx : ∀ s, X (fault φ s)) (hf : ∀ a, Keeps (f a) φ Q X) :
    Keeps (p >>= f) φ Q X := by
  refine keeps_bind ?_
  induction p with
  | done a => exact hf a
  | raise => exact hp.elim
  | act s k h ihk _ =>
    obtain ⟨hn, hk, rfl⟩ := hp
    exact ⟨fun w w' hw => ⟨φ, hr s w hn, ihk w (hk w w' hw) hf⟩, hx s⟩
  | loop => exact hp.elim

/-! ### Away from the injector -/

theorem keeps_apart {p : Routine α} (hp : p.Within Apart) : Keeps p (.away e) (fun _ ψ => ψ = .away e) (· = .away e) :=
  hp.obeys (T := discipline) (fun _ _ hs => Rule.away hs) fun _ _ => rfl

theorem apart_of_neutral {s : Stmt} (h : s.Neutral) : Apart s := by
  cases s <;> trivial

theorem watching_of_neutral {s : Stmt} (h : s.Neutral) : Watching s := by
  cases s <;> trivial

theorem injected_recorded {w : World} {r : Episode} {b : Bool} (h : w.injected r pid b = true) :
    w.exitOf pid = some 0 ∧ r.Recorded := by
  simp only [World.injected, Bool.and_eq_true, decide_eq_true_eq] at h
  exact ⟨h.1.1.2, h.1.2, h.2⟩

theorem apart_look : look.Within Apart := Within.stmt trivial
theorem apart_openConn : openConn.Within Apart := within_exec trivial
theorem apart_closeConn : closeConn.Within Apart := apart_openConn

theorem apart_sleep (d : Nat) : (sleep d).Within Apart := Within.bind apart_look fun _ => within_exec trivial

theorem apart_orRaise (o : Option α) : (orRaise o).Within Apart :=
  Within.bind (within_exec trivial) fun _ => by cases o <;> trivial

theorem apart_terminal {s : EpisodeState} : (onlyIf (s ∈ TERMINAL_EPISODE_STATES) do
    let w ← look
    onlyIf (w.episodes[e]?.any (·.faultClass = "memory-leak")) (setLeakCheckoutPaused false)).Within Apart :=
  within_onlyIf <| Within.bind apart_look fun _ => within_onlyIf (within_exec trivial)

theorem apart_setAndClose {s : EpisodeState} {x : Extra} (hs : s ≠ .awaitingFix) :
    (do setEpisodeState e s x; closeConn : Routine Unit).Within Apart := by
  refine Within.bind (Within.bind (within_exec ?_) fun _ => apart_terminal) fun _ => apart_closeConn
  cases s <;> trivial

theorem apart_guard : (guard e).Within Apart :=
  Within.tryCatch (Within.bind apart_openConn fun _ => apart_setAndClose (by decide)) trivial

theorem apart_snapshotAt {c : String} {t : Nat} : (snapshotAt e c t).Within Apart := by
  refine Within.ite (Within.bind apart_look fun w => ?_) trivial
  split
  · trivial
  · exact Within.bind apart_look fun _ => Within.bind (apart_orRaise _) fun _ => trivial

theorem apart_runScorer {t : Nat} : (runScorer e t).Within Apart := by
  refine Within.bind (Within.stmt trivial) fun w => ?_
  refine Code.Within.graft (Within.stmt trivial) (fun w' => ?_) (Within.bind (within_exec trivial) fun _ => trivial)
  split
  · trivial
  · exact Within.bind (within_exec trivial) fun _ => Within.bind (within_exec trivial) fun _ => trivial

theorem apart_republishToR2 : republishToR2.Within Apart := by
  have hpublish : (do exec .publish; pure true : Routine Bool).Within Apart := Within.bind (within_exec trivial) fun _ => trivial
  exact Within.tryCatch hpublish (Within.bind (apart_sleep 3) fun _ => Within.tryCatch hpublish trivial)

theorem apart_attemptResolve {t : Trigger} : (attemptResolve e t).Within Apart := by
  refine Within.bind apart_openConn fun _ => Within.bind (Within.stmt trivial) fun w => ?_
  refine Within.ite (Within.bind ?_ fun _ => trivial) (Within.bind apart_closeConn fun _ => trivial)
  refine Within.bind (within_exec trivial) fun _ => Within.bind apart_look fun _ => Within.bind apart_closeConn fun _ => ?_
  refine Within.bind (apart_orRaise _) fun _ => Within.bind (apart_orRaise _) fun _ => Within.bind apart_snapshotAt fun _ => ?_
  refine Within.bind apart_look fun _ => Within.bind (within_onlyIf (apart_sleep _)) fun _ => Within.bind apart_runScorer fun _ => ?_
  refine Within.bind apart_openConn fun _ => Within.ite ?_ (apart_setAndClose (by decide))
  refine Within.bind (Within.bind (within_exec trivial) fun _ => apart_terminal) fun _ => Within.bind apart_closeConn fun _ => ?_
  refine Within.bind apart_republishToR2 fun _ => within_onlyIf (Within.bind apart_openConn fun _ => ?_)
  exact Within.bind (within_exec trivial) fun _ => apart_closeConn

/-! ### The wrapper -/

theorem plain_stopInjector : Plain (stopInjector pid) := by
  refine Plain.bind (plain_exec trivial) fun _ => plain_look.bind fun now => ?_
  refine Plain.bind ⟨trivial, fun _ _ _ => trivial, rfl⟩ fun w => ?_
  exact plain_onlyIf (Plain.bind (plain_exec trivial) fun _ => plain_exec trivial)

theorem plain_pollInjector {c : String} {d n : Nat} : Plain (pollInjector e c pid d n) := by
  refine Plain.bind ⟨trivial, fun _ _ _ => trivial, rfl⟩ fun w => plain_ite (plain_look.bind fun now => ?_) (plain_pure _)
  refine plain_ite (plain_stopInjector.bind fun _ => plain_pure _) ?_
  exact (plain_onlyIf (plain_holdTick e c n)).bind fun _ => (plain_sleep 10).bind fun _ => plain_pure _

/-- The row that is there goes on; without one the rest raises. -/
theorem keeps_orRaise {γ : Type} {o : Option γ} {f : γ → Routine β} {Q : β → Phase → Prop}
    (hr : ∀ b w, Rule φ (.require b) w φ) (hx : X (fault φ (.require o.isSome))) (hf : ∀ a, o = some a → Keeps (f a) φ Q X) : Keeps (orRaise o >>= f) φ Q X := by
  cases o with
  | some a => exact ⟨fun w _ _ => ⟨φ, hr true w, hf a rfl⟩, hx⟩
  | none => exact ⟨fun w w' hw => by simp [operatorApi, app] at hw, hx⟩

/-- The write of `failed` ends the watch. -/
theorem keeps_fail {x : Extra} (h : φ = .watches e pid ∨ φ = .injected e pid) :
    Keeps (do setEpisodeState e .failed x; closeConn) φ (fun _ _ => True) (· = .away e) := by
  have hx : ∀ s, fault φ s = .away e := by rcases h with rfl | rfl <;> exact fun _ => rfl
  refine keeps_bind (keeps_bind (keeps_exec (fun _ => ⟨_, .fail h, ?_⟩) (hx _)))
  refine (keeps_apart apart_terminal).mono ?_ fun _ h => h
  rintro _ _ rfl
  exact (keeps_apart apart_closeConn).mono (fun _ _ _ => trivial) fun _ h => h

/-- What follows the write of `awaiting_fix`. -/
theorem keeps_arm {p : Routine Unit} (hp : p.Within Apart) :
    Keeps (do setEpisodeState e .awaitingFix noExtra; closeConn; p) (.clear e pid) (fun _ _ => True) (· = .away e) := by
  refine keeps_bind (keeps_bind (keeps_exec (fun _ => ⟨_, .arm, ?_⟩) rfl))
  refine (keeps_apart apart_terminal).mono ?_ fun _ h => h
  rintro _ _ rfl
  exact (keeps_apart (Within.bind apart_closeConn fun _ => hp)).mono (fun _ _ _ => trivial) fun _ h => h

theorem keeps_wrapperTail {c : String} {b : Bool} :
    Keeps (wrapperTail e c pid b) (.watches e pid) (fun _ _ => True) (· = .away e) := by
  refine keeps_plain plain_openConn (fun _ _ hs => .watch (watching_of_neutral hs)) (fun _ => rfl) fun _ => keeps_bind ?_
  refine keeps_stmt (fun w => ?_) rfl
  by_cases hgood : ∃ r, w.episodes[e]? = some r ∧ w.injected r pid b = true
  · obtain ⟨r, hr, hin⟩ := hgood
    obtain ⟨hexit, hrec⟩ := injected_recorded hin
    refine ⟨_, .inject hexit hr hrec, keeps_orRaise (fun _ _ => .wait trivial) rfl fun r' hr' => ?_⟩
    obtain rfl : r = r' := Option.some.inj (hr.symm.trans hr')
    rw [if_neg (by simp [hin])]
    refine keeps_bind (keeps_stmt (fun w' => ?_) rfl)
    cases hflag : (w'.episodes[e]?).any (·.abandonRequested) with
    | true => exact ⟨_, .wait trivial, keeps_fail (.inr rfl)⟩
    | false =>
      refine ⟨_, .spare hflag, ?_⟩
      rw [if_neg (by simp)]
      split
      · exact keeps_arm (Within.bind apart_attemptResolve fun _ => trivial)
      · exact keeps_arm (Within.bind (within_exec trivial) fun _ => within_exec trivial)
  · refine ⟨_, .watch trivial, keeps_orRaise (fun _ _ => .watch trivial) rfl fun r hr => ?_⟩
    rw [if_pos fun hin => hgood ⟨r, hr, hin⟩]
    exact keeps_fail (.inl rfl)

theorem keeps_recordPid {c : String} :
    Keeps (recordPid e c pid) (.watches e pid) (fun _ ψ => ψ = .watches e pid) (· = .away e) := by
  unfold recordPid
  split
  · refine keeps_bind (keeps_exec (fun _ => ⟨_, .watch trivial, ?_⟩) rfl)
    rw [onlyIf, if_neg (by decide)]
    exact rfl
  · exact keeps_exec (fun _ => ⟨_, .watch trivial, rfl⟩) rfl

theorem keeps_runLiveEpisode {c : String} : Keeps (runLiveEpisode e c) (.away e) (fun _ _ => True) fun _ => True := by
  have haway : ∀ s w, s.Neutral → Rule (.away e) s w (.away e) := fun _ _ hs => .away (apart_of_neutral hs)
  refine Obeys.graft (Obeys.mono (Q := fun _ _ => True) (X := (· = .away e)) ?_ (fun _ _ _ => trivial) ?_)
  · refine keeps_plain (plain_onlyIf (plain_memoryLeakRecencyWait e)) haway (fun _ => rfl) fun _ => ?_
    refine keeps_plain (plain_baselineRestarts c) haway (fun _ => rfl) fun n => ?_
    refine keeps_plain plain_look haway (fun _ => rfl) fun _ => ?_
    refine keeps_bind (keeps_stmt (fun w => ⟨_, .start, ?_⟩) rfl)
    have hwatch : ∀ s w', s.Neutral → Rule (.watches e w.procs.length) s w' (.watches e w.procs.length) :=
      fun _ _ hs => .watch (watching_of_neutral hs)
    refine keeps_plain plain_openConn hwatch (fun _ => rfl) fun _ => keeps_bind ?_
    refine keeps_recordPid.mono ?_ fun _ h => h
    rintro _ _ rfl
    refine keeps_plain plain_closeConn hwatch (fun _ => rfl) fun _ => ?_
    refine keeps_plain plain_look hwatch (fun _ => rfl) fun now => keeps_bind ?_
    -- the loop's invariant: the wrapper watches its injector
    refine ⟨(· = .watches e w.procs.length), rfl, ?_⟩
    rintro _ rfl
    rw [← Code.graft_self (pollInjector e c _ _ n)]
    refine keeps_plain plain_pollInjector hwatch (fun _ => rfl) fun o => ⟨fun _ => rfl, fun b _ => ?_⟩
    exact keeps_plain plain_look hwatch (fun _ => rfl) fun _ => keeps_wrapperTail
  · rintro _ rfl
    exact (keeps_apart apart_guard).mono (fun _ _ _ => trivial) fun _ _ => trivial

theorem keeps_other {p : Routine α} : Keeps p .other (fun _ _ => True) fun _ => True :=
  ((within_true p).obeys (T := discipline) (fun _ _ _ => Rule.other) fun _ _ => rfl).mono (fun _ _ _ => trivial) fun _ _ => trivial

theorem operatorApi_checks : Sound operatorApi discipline := by
  intro j
  cases j with
  | runLiveEpisode => exact keeps_runLiveEpisode
  | _ => exact keeps_other

end Programs

end Checked

end Wardence.Live
