import Wardence.Live.Bystanders
import Wardence.Live.Discipline
/-!
# What a thread knows of the scores

A second discipline beside that of `Wardence.Live.Phases`: a resolve writes `resolved` only after
its scorer has returned 0 and `failed` only after it has not, and the startup handler closes a
`resolving` row by the scores it has read since it read the row.
-/
namespace Wardence.Live.Scored

open Threads Code EpisodeState

/-- Neither the start of a scorer nor a write of `resolved`. -/
def Scoreless : Stmt → Prop
  | .startScorer _ _ | .setState _ .resolved _ => False
  | _ => True

/-- Nor a claim, a kill or a write of `failed`. -/
def Calm : Stmt → Prop
  | .startScorer _ _ | .setState _ .resolved _ | .claim _ | .kill _ | .setState _ .failed _ => False
  | _ => True

inductive Phase where
  /-- Has no scorer. -/
  | idle
  /-- Its scorer is process `pid`, which it waits for, or is to kill. -/
  | waits (e pid : Nat)
  | kills (e pid : Nat)
  /-- Its scorer is over; `ok` when it returned 0. -/
  | knows (e : Nat) (ok : Bool)
  /-- The startup handler, with the states and the scores it has read. -/
  | startup (rows : Nat → Option EpisodeState) (scores : List Nat)

inductive Rule : Phase → Stmt → World → Phase → Prop
  | idle {s w} : Scoreless s → Rule .idle s w .idle
  | start {e t w} : Rule .idle (.startScorer e t) w (.waits e w.procs.length)
  | ended {e pid t c w} : w.exitOf pid = some c → Rule (.waits e pid) (.waitUntil pid t) w (.knows e (decide (c = 0)))
  | overdue {e pid t w} : w.exitOf pid = none → Rule (.waits e pid) (.waitUntil pid t) w (.kills e pid)
  | kill {e pid w} : Rule (.kills e pid) (.kill pid) w (.knows e false)
  | know {e ok s w} : Calm s → Rule (.knows e ok) s w (.knows e ok)
  | resolved {e x w} : Rule (.knows e true) (.setState e .resolved x) w .idle
  | failed {e x w} : Rule (.knows e false) (.setState e .failed x) w .idle
  -- the startup handler
  | look {rows l rows' w} : rows' = rows ∨ rows' = w.stateOf → Rule (.startup rows l) .look w (.startup rows' w.scores)
  | pass {rows l s w} : Calm s → s ≠ .look → Rule (.startup rows l) s w (.startup rows l)
  | fail {rows l e x w} : (rows e).any (·.Unsettled) = true ∨ e ∉ l →
    Rule (.startup rows l) (.setState e .failed x) w (.startup rows l)
  | close {rows l e x w} : e ∈ l → Rule (.startup rows l) (.setState e .resolved x) w (.startup rows l)

/-- An exception of the wait leads to the kill. -/
def fault : Phase → Stmt → Phase
  | .waits e pid, _ => .kills e pid
  | .kills e pid, s => if s = .kill pid then .idle else .kills e pid
  | .startup rows l, _ => .startup rows l
  | .idle, _ | .knows _ _, _ => .idle

def entry : Job → Phase
  | .onStartup => .startup (fun _ => none) []
  | _ => .idle

def discipline : Typestate World Stmt Job Phase where
  entry := entry
  rule := Rule
  fault := fault
  rests _ := True
  mine _ _ := True
  mine_entry _ := trivial
  mine_rule _ _ := trivial
  mine_fault _ _ := trivial

/-! ## The programs -/

section Programs
variable {α β : Type} {φ : Phase} {e : Nat} {Q : α → Phase → Prop} {X : Phase → Prop}

abbrev Keeps (p : Routine α) (φ : Phase) (Q : α → Phase → Prop) (X : Phase → Prop) : Prop :=
  Obeys operatorApi discipline p φ Q X

theorem keeps_bind {p : Routine α} {f : α → Routine β} {Q : β → Phase → Prop}
    (h : Keeps p φ (fun a ψ => Keeps (f a) ψ Q X) X) : Keeps (p >>= f) φ Q X := Obeys.graft h

theorem keeps_stmt {s : Stmt} {Q : World → Phase → Prop} (h : ∀ w, ∃ φ', Rule φ s w φ' ∧ Q w φ') (hx : X (fault φ s)) :
    Keeps (stmt s) φ Q X := ⟨fun w _ _ => h w, hx⟩

theorem keeps_exec {s : Stmt} {Q : Unit → Phase → Prop} (h : ∀ w, ∃ φ', Rule φ s w φ' ∧ Q () φ') (hx : X (fault φ s)) :
    Keeps (exec s) φ Q X := ⟨fun w _ _ => h w, hx⟩

/-! ### What needs no scorer -/

theorem keeps_scoreless {p : Routine α} (hp : p.Within Scoreless) (hq : ∀ a, Q a .idle) (hx : X .idle) : Keeps p .idle Q X := by
  refine (hp.obeys (T := discipline) (φ := .idle) (fun _ _ hs => Rule.idle hs) fun _ _ => rfl).mono ?_ ?_
  · rintro a _ rfl
    exact hq a
  · rintro _ rfl
    exact hx

theorem scoreless_of_modest {s : Stmt} (h : s.Modest) : Scoreless s := by
  cases s with
  | startScorer => exact h
  | setState e t x => cases t <;> first | exact h | trivial
  | _ => trivial

theorem modest_scoreless {p : Routine α} (h : Modest p) : p.Within Scoreless := h.mono fun _ => scoreless_of_modest

theorem scoreless_setEpisodeState {s : EpisodeState} {x : Extra} (hs : s ≠ .resolved) : (setEpisodeState e s x).Within Scoreless := by
  refine Within.bind (within_exec ?_) fun _ => within_onlyIf <| Within.bind (modest_scoreless modest_look) fun _ => ?_
  · cases s <;> first | exact absurd rfl hs | trivial
  · exact within_onlyIf (within_exec trivial)

theorem scoreless_setAndClose {s : EpisodeState} {x : Extra} (hs : s ≠ .resolved) :
    (do setEpisodeState e s x; closeConn : Routine Unit).Within Scoreless :=
  Within.bind (scoreless_setEpisodeState hs) fun _ => modest_scoreless modest_closeConn

theorem scoreless_guard : (guard e).Within Scoreless :=
  Within.tryCatch (Within.bind (modest_scoreless modest_openConn) fun _ => scoreless_setAndClose (by decide)) trivial

theorem scoreless_admitUnderLock {c ip : String} {role : Role} {u : Option String} :
    (admitUnderLock c role u ip).Within Scoreless := by
  refine Within.bind (within_exec trivial) fun _ => Code.Within.graft ?_ (fun _ => ?_) ?_
  · refine Within.bind (modest_scoreless modest_episodeInFlight) fun busy => Within.ite (modest_scoreless modest_refuse) ?_
    exact Within.bind (Within.stmt trivial) fun _ => Within.bind (within_onlyIf (within_exec trivial)) fun _ => trivial
  · exact Within.bind (within_exec trivial) fun _ => trivial
  · exact Within.bind (within_exec trivial) fun _ => trivial

theorem scoreless_triggerInject {c ip : String} {role : Role} {u : Option String} : (triggerInject c role u ip).Within Scoreless := by
  have hrefuse : (refuse : Routine Unit).Within Scoreless := modest_scoreless modest_refuse
  have hlook : look.Within Scoreless := modest_scoreless modest_look
  refine Within.bind (modest_scoreless modest_openConn) fun _ => Within.bind (within_onlyIf hrefuse) fun _ => ?_
  refine Within.bind (within_onlyIf (Within.bind hlook fun _ => within_onlyIf hrefuse)) fun _ => ?_
  refine Within.bind (within_onlyIf (modest_scoreless modest_demoTriggerChecks)) fun _ => ?_
  refine Within.bind scoreless_admitUnderLock fun _ => Within.bind (modest_scoreless modest_audit) fun _ => ?_
  refine Within.bind (modest_scoreless modest_closeConn) fun _ => Within.bind (within_onlyIf (within_exec trivial)) fun _ => ?_
  exact within_exec trivial

theorem scoreless_waitForOrphan {pid : Nat} : (waitForOrphan pid e).Within Scoreless := by
  have hopen : openConn.Within Scoreless := modest_scoreless modest_openConn
  refine Within.tryCatch (Within.bind (Within.untilSome (Within.bind (modest_scoreless modest_pidAlive) fun _ => ?_)) fun _ => ?_)
    scoreless_guard
  · exact Within.ite (Within.bind (modest_scoreless (modest_sleep 10)) fun _ => trivial) trivial
  · refine Within.bind hopen fun _ => Within.bind (modest_scoreless modest_look) fun w => ?_
    refine Within.bind (modest_scoreless (modest_orRaise _)) fun r => Within.ite ?_ (scoreless_setAndClose (by decide))
    exact Within.bind (scoreless_setEpisodeState (by decide)) fun _ => Within.bind hopen fun _ => within_exec trivial

/-! ### Resolving -/

/-- Where an exception leaves a thread that resolves `e`. -/
def Caught (e : Nat) (φ : Phase) : Prop := φ = .idle ∨ φ = .knows e false

/-- The scorer's run ends with its return code known, if it was not killed. -/
theorem keeps_runScorer {t : Nat} {Q : Option Int → Phase → Prop} (hq : ∀ r, Q r (.knows e (decide (r = some 0)))) :
    Keeps (runScorer e t) .idle Q (Caught e) := by
  refine keeps_bind (keeps_stmt (fun w => ⟨_, .start, ?_⟩) (.inl rfl))
  refine Obeys.graft (keeps_stmt (fun w' => ?_) ?_)
  · cases hx : w'.exitOf w.procs.length with
    | some c =>
      have hknown : decide (some c = some 0) = decide (c = 0) := by simp
      exact ⟨_, .ended hx, hknown ▸ hq (some c)⟩
    | none =>
      refine ⟨_, .overdue hx, keeps_bind (keeps_exec (fun _ => ⟨_, .kill, ?_⟩) ?_)⟩
      · exact keeps_bind (keeps_exec (fun _ => ⟨_, .know trivial, hq none⟩) (.inl rfl))
      · exact .inl (if_pos rfl)
  · -- the handler: the child is killed, and the exception goes on
    refine keeps_bind (keeps_exec (fun _ => ⟨_, .kill, .inr rfl⟩) ?_)
    exact .inl (if_pos rfl)

theorem keeps_resolveWon {t : Trigger} {Q : Unit → Phase → Prop} (hq : Q () .idle) : Keeps (resolveWon e t) .idle Q (Caught e) := by
  have hidle : Caught e .idle := .inl rfl
  refine keeps_bind (keeps_scoreless (within_exec trivial) (fun _ => ?_) hidle)
  refine keeps_bind (keeps_scoreless (modest_scoreless modest_look) (fun w => ?_) hidle)
  refine keeps_bind (keeps_scoreless (modest_scoreless modest_closeConn) (fun _ => ?_) hidle)
  refine keeps_bind (keeps_scoreless (modest_scoreless (modest_orRaise _)) (fun r => ?_) hidle)
  refine keeps_bind (keeps_scoreless (modest_scoreless (modest_orRaise _)) (fun t0 => ?_) hidle)
  refine keeps_bind (keeps_scoreless (modest_scoreless modest_snapshotAt) (fun target => ?_) hidle)
  refine keeps_bind (keeps_scoreless (modest_scoreless modest_look) (fun now => ?_) hidle)
  refine keeps_bind (keeps_scoreless (modest_scoreless (within_onlyIf (modest_sleep _))) (fun _ => ?_) hidle)
  refine keeps_bind (keeps_runScorer fun result => ?_)
  refine keeps_bind (keeps_exec (fun _ => ⟨_, .know trivial, ?_⟩) hidle)
  have hrest : ∀ s : EpisodeState, (onlyIf (s ∈ TERMINAL_EPISODE_STATES) do
      let w ← look
      onlyIf (w.episodes[e]?.any (·.faultClass = "memory-leak")) (setLeakCheckoutPaused false)).Within Scoreless :=
    fun s => within_onlyIf <| Within.bind (modest_scoreless modest_look) fun _ => within_onlyIf (within_exec trivial)
  by_cases hr : result = some 0
  -- returned 0
  · rw [if_pos hr, decide_eq_true hr]
    refine keeps_bind (keeps_bind (keeps_exec (fun _ => ⟨_, .resolved, ?_⟩) hidle))
    refine keeps_scoreless (hrest _) (fun _ => ?_) hidle
    refine keeps_bind (keeps_scoreless (modest_scoreless modest_closeConn) (fun _ => ?_) hidle)
    refine keeps_bind (keeps_scoreless (modest_scoreless modest_republishToR2) (fun _ => ?_) hidle)
    refine keeps_scoreless (within_onlyIf ?_) (fun _ => hq) hidle
    refine Within.bind (modest_scoreless modest_openConn) fun _ => Within.bind (within_exec trivial) fun _ => ?_
    exact modest_scoreless modest_closeConn
  -- returned something else, or was killed
  · rw [if_neg hr, decide_eq_false hr]
    refine keeps_bind (keeps_bind (keeps_exec (fun _ => ⟨_, .failed, ?_⟩) hidle))
    refine keeps_scoreless (hrest _) (fun _ => ?_) hidle
    exact keeps_scoreless (modest_scoreless modest_closeConn) (fun _ => hq) hidle

theorem keeps_attemptResolve {t : Trigger} {Q : Bool → Phase → Prop} (hq : ∀ b, Q b .idle) :
    Keeps (attemptResolve e t) .idle Q (Caught e) := by
  refine keeps_bind (keeps_scoreless (modest_scoreless modest_openConn) (fun _ => ?_) (.inl rfl))
  refine keeps_bind (keeps_scoreless (Within.stmt trivial) (fun w => ?_) (.inl rfl))
  split
  · exact keeps_bind (keeps_resolveWon (hq true))
  · exact keeps_bind (keeps_scoreless (modest_scoreless modest_closeConn) (fun _ => hq false) (.inl rfl))

/-! ### The wrapper -/

theorem keeps_guard (h : Caught e φ) : Keeps (guard e) φ (fun _ _ => True) fun _ => True := by
  rcases h with rfl | rfl
  · exact keeps_scoreless scoreless_guard (fun _ => trivial) trivial
  · refine Obeys.graft (keeps_bind (keeps_exec (fun _ => ⟨_, .know trivial, ?_⟩) trivial))
    refine keeps_bind (keeps_bind (keeps_exec (fun _ => ⟨_, .failed, ?_⟩) trivial))
    refine keeps_scoreless (within_onlyIf ?_) (fun _ => ?_) trivial
    · exact Within.bind (modest_scoreless modest_look) fun _ => within_onlyIf (within_exec trivial)
    · exact keeps_scoreless (modest_scoreless modest_closeConn) (fun _ => trivial) trivial

theorem keeps_wrapperTail {c : String} {pid : Nat} {b : Bool} :
    Keeps (wrapperTail e c pid b) .idle (fun _ _ => True) (Caught e) := by
  have hidle : Caught e .idle := .inl rfl
  have hfail : ∀ x, Keeps (do setEpisodeState e .failed x; closeConn) .idle (fun _ _ => True) (Caught e) :=
    fun x => keeps_scoreless (scoreless_setAndClose (by decide)) (fun _ => trivial) hidle
  have hfix : (setEpisodeState e .awaitingFix noExtra).Within Scoreless := scoreless_setEpisodeState (by decide)
  refine keeps_bind (keeps_scoreless (modest_scoreless modest_openConn) (fun _ => ?_) hidle)
  refine keeps_bind (keeps_scoreless (modest_scoreless modest_look) (fun w => ?_) hidle)
  refine keeps_bind (keeps_scoreless (modest_scoreless (modest_orRaise _)) (fun r => ?_) hidle)
  split
  · exact hfail _
  refine keeps_bind (keeps_scoreless (modest_scoreless modest_look) (fun w' => ?_) hidle)
  split
  · exact hfail _
  split
  · refine keeps_bind (keeps_scoreless hfix (fun _ => ?_) hidle)
    refine keeps_bind (keeps_scoreless (modest_scoreless modest_closeConn) (fun _ => ?_) hidle)
    exact keeps_bind (keeps_attemptResolve fun _ => trivial)
  · refine keeps_scoreless (Within.bind hfix fun _ => Within.bind (modest_scoreless modest_closeConn) fun _ => ?_) (fun _ => trivial) hidle
    exact Within.bind (within_exec trivial) fun _ => within_exec trivial

theorem keeps_runLiveEpisode {c : String} : Keeps (runLiveEpisode e c) .idle (fun _ _ => True) fun _ => True := by
  have hidle : Caught e .idle := .inl rfl
  refine Obeys.graft (Obeys.mono (Q := fun _ _ => True) (X := Caught e) ?_ (fun _ _ _ => trivial) fun _ h => keeps_guard h)
  refine keeps_bind (keeps_scoreless (within_onlyIf (modest_scoreless modest_memoryLeakRecencyWait)) (fun _ => ?_) hidle)
  refine keeps_bind (keeps_scoreless (Within.ite (Within.bind (modest_scoreless modest_look) fun _ => trivial) trivial) (fun n => ?_) hidle)
  refine keeps_bind (keeps_scoreless (modest_scoreless modest_look) (fun _ => ?_) hidle)
  refine keeps_bind (keeps_scoreless (Within.stmt trivial) (fun w => ?_) hidle)
  refine keeps_bind (keeps_scoreless (modest_scoreless modest_openConn) (fun _ => ?_) hidle)
  refine keeps_bind (keeps_scoreless (Within.ite (scoreless_setEpisodeState (by decide)) (within_exec trivial)) (fun _ => ?_) hidle)
  refine keeps_bind (keeps_scoreless (modest_scoreless modest_closeConn) (fun _ => ?_) hidle)
  refine keeps_bind (keeps_scoreless (modest_scoreless modest_look) (fun _ => ?_) hidle)
  refine keeps_bind (keeps_scoreless (Within.untilSome (modest_scoreless modest_pollInjector)) (fun b => ?_) hidle)
  exact keeps_bind (keeps_scoreless (modest_scoreless modest_look) (fun _ => keeps_wrapperTail) hidle)

/-! ### Startup -/

/-- The startup handler, which has read the states `rows`. -/
def Reads (rows : Nat → Option EpisodeState) (φ : Phase) : Prop := ∃ l, φ = .startup rows l

variable {rows : Nat → Option EpisodeState} {l : List Nat} {r : Episode}

theorem keeps_calm {p : Routine α} (hp : p.Within Calm) : Keeps p (.startup rows l) (fun _ => Reads rows) (Reads rows) := by
  refine hp.obeys_among (T := discipline) ⟨l, rfl⟩ ?_ ?_
  · rintro _ s w ⟨l, rfl⟩ hs
    by_cases hlook : s = .look
    · subst hlook
      exact ⟨_, .look (.inl rfl), _, rfl⟩
    · exact ⟨_, .pass hs hlook, _, rfl⟩
  · rintro _ s ⟨l, rfl⟩ _
    exact ⟨l, rfl⟩

/-- Calm statements, and what comes after them. -/
theorem keeps_calm_bind {p : Routine α} {f : α → Routine β} (hp : p.Within Calm)
    (hf : ∀ a l, Keeps (f a) (.startup rows l) (fun _ => Reads rows) (Reads rows)) :
    Keeps (p >>= f) (.startup rows l) (fun _ => Reads rows) (Reads rows) := by
  refine keeps_bind ((keeps_calm hp).mono ?_ fun _ h => h)
  rintro a _ ⟨l, rfl⟩
  exact hf a l

theorem calm_look : look.Within Calm := Within.stmt trivial

/-- A terminal write, and what follows it. -/
theorem keeps_settle {s : EpisodeState} {x : Extra} (hr : ∀ w, Rule (.startup rows l) (.setState e s x) w (.startup rows l)) :
    Keeps (do setEpisodeState e s x; closeConn) (.startup rows l) (fun _ => Reads rows) (Reads rows) := by
  refine keeps_bind (keeps_bind (keeps_exec (fun w => ⟨_, hr w, ?_⟩) ⟨l, rfl⟩))
  refine Obeys.mono (keeps_calm ?_) ?_ fun _ h => h
  · exact within_onlyIf <| Within.bind calm_look fun _ => within_onlyIf (within_exec trivial)
  · rintro _ _ ⟨l, rfl⟩
    exact keeps_calm (within_exec trivial)

theorem keeps_reconcileInjecting (hu : (rows e).any (·.Unsettled) = true) :
    Keeps (reconcileInjecting e r) (.startup rows l) (fun _ => Reads rows) (Reads rows) := by
  unfold reconcileInjecting
  split
  · exact keeps_calm_bind (within_exec trivial) fun _ l => keeps_settle fun _ => .fail (.inl hu)
  · refine keeps_calm_bind (Within.tryCatch (Within.bind (Within.stmt trivial) fun _ => trivial) trivial) fun alive l => ?_
    split
    · exact keeps_calm (within_exec trivial)
    · refine keeps_calm_bind (within_exec trivial) fun _ l => ?_
      split
      · refine keeps_calm (Within.bind ?_ fun _ => Within.bind (within_exec trivial) fun _ => within_exec trivial)
        exact Within.bind (within_exec trivial) fun _ => within_onlyIf <| Within.bind calm_look fun _ => within_onlyIf (within_exec trivial)
      · exact keeps_settle fun _ => .fail (.inl hu)

theorem keeps_reconcileOneRow (hr : rows e = r.episodeState) :
    Keeps (reconcileOneRow e r) (.startup rows l) (fun _ => Reads rows) (Reads rows) := by
  refine keeps_calm_bind calm_look fun now l => ?_
  split
  · rename_i hs
    exact keeps_reconcileInjecting (by rw [hr, hs]; rfl)
  · rename_i hs
    exact keeps_reconcileInjecting (by rw [hr, hs]; rfl)
  · refine keeps_calm (Within.ite (within_exec trivial) ?_)
    exact Within.bind (within_exec trivial) fun _ => within_exec trivial
  · refine keeps_calm_bind (within_exec trivial) fun _ l => ?_
    -- the scores read here are those the write goes by
    refine keeps_bind (keeps_stmt (fun w => ⟨_, .look (.inl rfl), ?_⟩) ⟨l, rfl⟩)
    by_cases hw : e ∈ w.scores
    · rw [if_pos hw]
      exact keeps_settle fun _ => .close hw
    · rw [if_neg hw]
      exact keeps_settle fun _ => .fail (.inr hw)
  · exact ⟨l, rfl⟩

theorem keeps_reconcileRows {xs : List (Nat × Episode)} (hxs : ∀ x ∈ xs, rows x.1 = x.2.episodeState) :
    Keeps (xs.forM fun x => tryCatch (reconcileOneRow x.1 x.2) (pure ())) (.startup rows l) (fun _ => Reads rows) (Reads rows) := by
  induction xs generalizing l with
  | nil => exact ⟨l, rfl⟩
  | cons x xs ih =>
    refine keeps_bind (Obeys.graft ((keeps_reconcileOneRow (hxs x (.head _))).mono ?_ ?_))
    · rintro _ _ ⟨l, rfl⟩
      exact ih fun y hy => hxs y (.tail _ hy)
    · rintro _ ⟨l, rfl⟩
      exact ih fun y hy => hxs y (.tail _ hy)

theorem keeps_onStartup : Keeps onStartup (entry .onStartup) (fun _ _ => True) fun _ => True := by
  refine keeps_bind (keeps_exec (fun w => ⟨_, .look (.inl rfl), ?_⟩) trivial)
  refine keeps_bind (keeps_stmt (fun w => ⟨_, .look (.inr rfl), ?_⟩) trivial)
  refine Obeys.mono (Q := fun _ => Reads w.stateOf) (X := Reads w.stateOf) ?_ (fun _ _ _ => trivial) fun _ _ => trivial
  refine keeps_calm_bind (within_exec trivial) fun _ l => keeps_bind ?_
  refine (keeps_reconcileRows fun x hx => ?_).mono ?_ fun _ h => h
  · simp only [World.stateOf, (nonTerminalRows_mem hx).1, Option.bind_some]
  · rintro _ _ ⟨l, rfl⟩
    exact keeps_calm (within_exec trivial)

theorem operatorApi_knows : Sound operatorApi discipline := by
  intro j
  have hscoreless : ∀ p : Routine Unit, p.Within Scoreless → Keeps p .idle (fun _ _ => True) fun _ => True :=
    fun p hp => keeps_scoreless hp (fun _ => trivial) trivial
  cases j with
  | triggerInject => exact hscoreless _ scoreless_triggerInject
  | triggerStopHold => exact hscoreless _ (modest_scoreless modest_triggerStopHold)
  | triggerResolve => exact hscoreless _ (modest_scoreless modest_triggerResolve)
  | logout => exact hscoreless _ (modest_scoreless modest_logout)
  | onStartup => exact keeps_onStartup
  | runLiveEpisode => exact keeps_runLiveEpisode
  | attemptResolve e t => exact keeps_bind ((keeps_attemptResolve (e := e) fun _ => trivial).mono (fun _ _ h => h) fun _ _ => trivial)
  | waitForOrphan => exact hscoreless _ scoreless_waitForOrphan

end Programs

end Wardence.Live.Scored
