import Wardence.Live.Phases
/-!
# The programs keep to the rules

Every job of the API keeps to the discipline of `Wardence.Live.Phases`: one lemma
for each function, in the order the functions call each other.
-/
namespace Wardence.Live

open Threads Code EpisodeState

variable {α β : Type}

/-- `p` keeps to the rules from phase `φ`. -/
abbrev Keeps (p : Routine α) (φ : Phase) (Q : α → Phase → Prop) (X : Phase → Prop) : Prop :=
  Obeys operatorApi discipline p φ Q X

section Rules
variable {φ φ' : Phase} {s : Stmt} {Q : α → Phase → Prop} {X : Phase → Prop}

@[simp] theorem keeps_done (a : α) : Keeps (done a) φ Q X ↔ Q a φ := Iff.rfl
@[simp] theorem keeps_pure (a : α) : Keeps (pure a) φ Q X ↔ Q a φ := Iff.rfl
@[simp] theorem keeps_raise : Keeps (raise : Routine α) φ Q X ↔ X φ := Iff.rfl

theorem keeps_bind {p : Routine α} {f : α → Routine β} {Q : β → Phase → Prop}
    (h : Keeps p φ (fun a ψ => Keeps (f a) ψ Q X) X) : Keeps (p >>= f) φ Q X := Obeys.graft h

theorem keeps_try {p g : Routine α} (h : Keeps p φ Q fun ψ => Keeps g ψ Q X) : Keeps (tryCatch p g) φ Q X :=
  Obeys.graft h

theorem keeps_stmt {Q : World → Phase → Prop} (h : ∀ w w', app s w = some w' → ∃ φ', Rule φ s w φ' ∧ Q w φ')
    (hx : X (fault φ s)) : Keeps (stmt s) φ Q X := ⟨h, hx⟩

theorem keeps_exec {Q : Unit → Phase → Prop} (h : ∀ w w', app s w = some w' → ∃ φ', Rule φ s w φ' ∧ Q () φ')
    (hx : X (fault φ s)) : Keeps (exec s) φ Q X := ⟨h, hx⟩

theorem keeps_ite {c : Prop} {_ : Decidable c} {p q : Routine α} (hp : c → Keeps p φ Q X) (hq : ¬ c → Keeps q φ Q X) :
    Keeps (if c then p else q) φ Q X := by
  split
  · exact hp ‹_›
  · exact hq ‹_›

end Rules

/-! ## Plain programs -/

/-- Only neutral statements, and no handler of its own; never raises by itself. -/
def Plain : {α : Type} → Routine α → Prop
  | _, .done _ => True
  | _, .raise => False
  | _, .act s k h => s.Neutral ∧ (∀ w w', app s w = some w' → Plain (k w)) ∧ h = .raise
  | _, .loop .. => False

theorem Plain.bind {p : Routine α} {f : α → Routine β} (hp : Plain p) (hf : ∀ a, Plain (f a)) : Plain (p >>= f) := by
  induction p with
  | done a => exact hf a
  | raise => exact hp.elim
  | act s k h ihk _ =>
    obtain ⟨hs, hk, rfl⟩ := hp
    exact ⟨hs, fun w w' hw => ihk w (hk w w' hw) hf, rfl⟩
  | loop => exact hp.elim

@[simp] theorem plain_pure (a : α) : Plain (pure a : Routine α) := trivial
@[simp] theorem plain_look : Plain look := ⟨trivial, fun _ _ _ => trivial, rfl⟩
theorem plain_exec {s : Stmt} (h : s.Neutral) : Plain (exec s) := ⟨h, fun _ _ _ => trivial, rfl⟩
@[simp] theorem plain_openConn : Plain openConn := plain_exec trivial
@[simp] theorem plain_closeConn : Plain closeConn := plain_exec trivial
@[simp] theorem plain_audit : Plain audit := plain_exec trivial
@[simp] theorem plain_setPaused (b : Bool) : Plain (setLeakCheckoutPaused b) := plain_exec trivial

theorem plain_ite {c : Prop} {_ : Decidable c} {p q : Routine α} (hp : Plain p) (hq : Plain q) :
    Plain (if c then p else q) := by
  split
  · exact hp
  · exact hq

theorem plain_onlyIf {c : Prop} {_ : Decidable c} {p : Routine Unit} (hp : Plain p) : Plain (onlyIf c p) :=
  plain_ite hp (plain_pure ())

@[simp] theorem plain_sleep (d : Nat) : Plain (sleep d) := plain_look.bind fun _ => plain_exec trivial

@[simp] theorem plain_orRaise (o : Option α) : Plain (orRaise o) := by
  refine ⟨trivial, fun w w' hw => ?_, rfl⟩
  cases o with
  | some a => trivial
  | none => simp [app] at hw

theorem plain_forM {l : List α} {f : α → Routine Unit} (hf : ∀ a, Plain (f a)) : Plain (l.forM f) := by
  induction l with
  | nil => trivial
  | cons a l ih => exact (hf a).bind fun _ => ih

/-- A plain program leaves the phase as it is. -/
theorem Plain.keeps {p : Routine α} {φ : Phase} {Q : α → Phase → Prop} {X : Phase → Prop} (hp : Plain p)
    (hs : φ ≠ .starting) (hq : ∀ a, Q a φ) (hx : ∀ s, s.Neutral → X (fault φ s)) : Keeps p φ Q X := by
  induction p with
  | done a => exact hq a
  | raise => exact hp.elim
  | act s k h ihk _ =>
    obtain ⟨hn, hk, rfl⟩ := hp
    exact ⟨fun w w' hw => ⟨φ, .neutral hs hn, ihk w (hk w w' hw) hq⟩, hx s hn⟩
  | loop => exact hp.elim

/-- A plain program, and then another. -/
theorem Plain.then {p : Routine α} {f : α → Routine β} {φ : Phase} {Q : β → Phase → Prop} {X : Phase → Prop}
    (hp : Plain p) (hs : φ ≠ .starting) (hx : ∀ s, s.Neutral → X (fault φ s)) (hf : ∀ a, Keeps (f a) φ Q X) :
    Keeps (p >>= f) φ Q X := keeps_bind (hp.keeps hs hf hx)

/-! ## Resolving -/

/-- Where the exception guard of episode `e` may be entered. -/
inductive Guardable (e : Nat) : Phase → Prop
  | fresh : Guardable e (.fresh e)
  | reaped : Guardable e (.reaped e)
  | doomed : Guardable e (.doomed e)
  | late : Guardable e (.late e)
  | rescuing : Guardable e (.rescuing e)
  | spent : Guardable e (.spent e failed true)

/-- What an exception may leave: something the guard can handle, or nothing. -/
def Caught (e : Nat) (guarded : Bool) (φ : Phase) : Prop :=
  if guarded then Guardable e φ else φ.Rests ∧ φ ≠ .starting

@[simp] theorem caught_true {e : Nat} {φ : Phase} : Caught e true φ ↔ Guardable e φ := by simp [Caught]
@[simp] theorem caught_false {e : Nat} {φ : Phase} : Caught e false φ ↔ φ.Rests ∧ φ ≠ .starting := by simp [Caught]

/-- A terminal write of the thread's own. -/
theorem keeps_setTerminal {φ : Phase} {e : Nat} {s : EpisodeState} {x : Extra} {g : Bool} {X : Phase → Prop}
    {Q : Unit → Phase → Prop} (hr : ∀ w, Rule φ (.setState e s x) w (.spent e s g)) (h0 : X (fault φ (.setState e s x)))
    (hx : ∀ t, t.Neutral → X (fault (.spent e s g) t)) (hq : Q () (.spent e s g)) :
    Keeps (setEpisodeState e s x) φ Q X := by
  refine keeps_bind (keeps_exec (fun w _ _ => ⟨_, hr w, ?_⟩) h0)
  refine Plain.keeps (plain_onlyIf ?_) (by simp) (fun _ => hq) hx
  exact plain_look.bind fun w => plain_onlyIf (plain_setPaused false)

/-- A write that is not terminal. -/
theorem keeps_setState {φ φ' : Phase} {e : Nat} {s : EpisodeState} {x : Extra} {X : Phase → Prop}
    {Q : Unit → Phase → Prop} (hs : s ∉ TERMINAL_EPISODE_STATES) (hr : ∀ w, Rule φ (.setState e s x) w φ')
    (h0 : X (fault φ (.setState e s x))) (hq : Q () φ') : Keeps (setEpisodeState e s x) φ Q X := by
  refine keeps_bind (keeps_exec (fun w _ _ => ⟨_, hr w, ?_⟩) h0)
  rw [onlyIf, if_neg hs]
  exact hq

theorem plain_snapshotAt (e : Nat) (c : String) (t0 : Nat) : Plain (snapshotAt e c t0) := by
  apply plain_ite
  · refine plain_look.bind fun w => ?_
    split
    · trivial
    · exact plain_look.bind fun w => (plain_orRaise _).bind fun _ => trivial
  · trivial

attribute [local simp] fault Phase.Rests

/-- The scorer's run: started once, by the thread that won Gate 2. -/
theorem keeps_runScorer {e t : Nat} {g : Bool} {Q : Option Int → Phase → Prop} (hq : ∀ r, Q r (.scoring e g)) :
    Keeps (runScorer e t) (.owner e g) Q (Caught e g) := by
  have hfault : ∀ s : Stmt, Caught e g (fault (.scoring e g) s) := by
    intro s
    cases g
    · simp
    · simpa using Guardable.rescuing
  refine keeps_bind (keeps_stmt (fun w _ _ => ⟨_, .score, ?_⟩) ?_)
  · refine Obeys.graft (keeps_stmt (fun w' _ _ => ⟨_, .neutral (by simp) trivial, ?_⟩) ?_)
    · split
      · exact hq _
      · refine Plain.then (plain_exec trivial) (by simp) (fun s _ => hfault s) fun _ => ?_
        exact Plain.then (plain_exec trivial) (by simp) (fun s _ => hfault s) fun _ => hq _
    · -- the handler: the child is killed, and the exception goes on
      cases g
      · refine Plain.then (plain_exec trivial) (by simp) (by simp) fun _ => ?_
        simp [Keeps, Obeys]
      · refine keeps_bind (keeps_exec (fun w _ _ => ⟨_, .neutral (by simp) trivial, ?_⟩) ?_)
        · simpa [Keeps, Obeys] using Guardable.rescuing
        · simpa using Guardable.rescuing
  · cases g
    · simp
    · simpa using Guardable.rescuing

/-- An exception after the terminal write. -/
theorem caught_spent {e : Nat} {s : EpisodeState} {g : Bool} (hs : s = resolved ∨ s = failed) {t : Stmt} (ht : t.Neutral) :
    Caught e g (fault (.spent e s g) t) := by
  cases g
  · cases t <;> rcases hs with rfl | rfl <;> simp
  · rcases hs with rfl | rfl
    · have hl : fault (.spent e resolved true) t = .late e := by
        cases t <;> first | rfl | exact ht.elim
      rw [hl]
      exact caught_true.2 .late
    · simpa using Guardable.spent

/-- What publishing raises is caught. -/
theorem keeps_publish {e : Nat} {g : Bool} {Q : Bool → Phase → Prop} {X : Phase → Prop}
    (hq : ∀ b, Q b (.spent e resolved g)) (hx : X (.spent e resolved g)) :
    Keeps (do exec .publish; pure true) (.spent e resolved g) Q X := by
  refine keeps_bind (keeps_exec (fun w _ _ => ⟨_, .publish, hq true⟩) ?_)
  cases g <;> exact hx

theorem keeps_republishToR2 {e : Nat} {g : Bool} {Q : Bool → Phase → Prop} (hq : ∀ b, Q b (.spent e resolved g)) :
    Keeps republishToR2 (.spent e resolved g) Q (Caught e g) := by
  refine keeps_try (keeps_publish hq ?_)
  refine Plain.then (plain_sleep 3) (by simp) (fun t => caught_spent (.inl rfl)) fun _ => ?_
  exact keeps_try (keeps_publish hq (hq false))

theorem keeps_resolveWon {e : Nat} {t : Trigger} {g : Bool} {Q : Unit → Phase → Prop}
    (hq : ∀ s, Q () (.spent e s g)) : Keeps (resolveWon e t) (.owner e g) Q (Caught e g) := by
  have hown : ∀ s : Stmt, s.Neutral → Caught e g (fault (.owner e g) s) := by
    intro s _
    cases g
    · simp
    · simpa using Guardable.rescuing
  have hscore : ∀ s : Stmt, Caught e g (fault (.scoring e g) s) := by
    intro s
    cases g
    · simp
    · simpa using Guardable.rescuing
  refine Plain.then (plain_exec trivial) (by simp) hown fun _ => ?_
  refine plain_look.then (by simp) hown fun w => ?_
  refine plain_closeConn.then (by simp) hown fun _ => ?_
  refine (plain_orRaise _).then (by simp) hown fun r => ?_
  refine (plain_orRaise _).then (by simp) hown fun t0 => ?_
  refine (plain_snapshotAt e _ t0).then (by simp) hown fun target => ?_
  refine plain_look.then (by simp) hown fun now => ?_
  refine Plain.then (plain_onlyIf (plain_sleep _)) (by simp) hown fun _ => ?_
  refine keeps_bind (keeps_runScorer fun result => ?_)
  refine plain_openConn.then (by simp) (fun s _ => hscore s) fun _ => ?_
  apply keeps_ite
  -- scored in time: the terminal write, then the publisher, twice at most
  · intro _
    refine keeps_bind (keeps_setTerminal (fun w => .resolved) (hscore _) (fun t => caught_spent (.inl rfl)) ?_)
    refine plain_closeConn.then (by simp) (fun t => caught_spent (.inl rfl)) fun _ => ?_
    refine keeps_bind (keeps_republishToR2 fun published => ?_)
    refine Plain.keeps (plain_onlyIf ?_) (by simp) (fun _ => hq resolved) fun t => caught_spent (.inl rfl)
    exact plain_openConn.bind fun _ => Plain.bind (plain_exec trivial) fun _ => plain_closeConn
  -- not scored: `failed`
  · intro _
    refine keeps_bind (keeps_setTerminal (fun w => .fail (by simp [Phase.mayFail])) (hscore _)
      (fun t => caught_spent (.inr rfl)) ?_)
    exact plain_closeConn.keeps (by simp) (fun _ => hq failed) fun t => caught_spent (.inr rfl)

/-- Where a resolve starts: in a wrapper that has written `awaiting_fix`, or in a
thread of its own. -/
def resolveFrom (e : Nat) (guarded : Bool) : Phase := if guarded then .armed e else .resolver e

theorem keeps_attemptResolve {e : Nat} {t : Trigger} {g : Bool} {Q : Bool → Phase → Prop}
    (hw : ∀ s, Q true (.spent e s g)) (hl : Q false (resolveFrom e g)) :
    Keeps (attemptResolve e t) (resolveFrom e g) Q (Caught e g) := by
  have hs : resolveFrom e g ≠ .starting := by cases g <;> simp [resolveFrom]
  have hx : ∀ s : Stmt, Caught e g (fault (resolveFrom e g) s) := by
    intro s
    cases g
    · simp [resolveFrom]
    · simpa [resolveFrom] using Guardable.late
  refine plain_openConn.then hs (fun s _ => hx s) fun _ => ?_
  refine keeps_bind (keeps_stmt (fun w w' hw' => ?_) (hx _))
  by_cases hst : w.stateOf e = some awaitingFix
  · refine ⟨.owner e g, ?_, ?_⟩
    · cases g
      · exact .claim hst
      · exact .claimArmed hst
    · rw [if_pos hst]
      exact keeps_bind (keeps_resolveWon hw)
  · refine ⟨resolveFrom e g, .lose (by cases g <;> simp [resolveFrom]) hst, ?_⟩
    rw [if_neg hst]
    exact plain_closeConn.then hs (fun s _ => hx s) fun _ => hl

/-! ## The guard and the wrapper -/

theorem keeps_guard {e : Nat} {φ : Phase} (h : Guardable e φ) :
    Keeps (guard e) φ (fun _ => Phase.Rests) Phase.Rests := by
  have hf : φ.mayFail e = some true := by cases h <;> simp [Phase.mayFail]
  have hs : φ ≠ .starting := by cases h <;> simp
  have hx : ∀ s : Stmt, (fault φ s).Rests ∨ ∃ p, s = .kill p := by
    intro s
    by_cases hk : ∃ p, s = .kill p
    · exact .inr hk
    · left
      cases h <;> cases s <;> simp_all
  refine keeps_try (keeps_bind (keeps_exec (fun w _ _ => ⟨φ, .neutral hs trivial, ?_⟩) (by simpa using hx .look)))
  refine keeps_bind (keeps_setTerminal (fun w => .fail hf) (by simpa using hx (.setState e failed noExtra)) ?_ ?_)
  · intro t _
    simp
  · exact plain_closeConn.keeps (by simp) (fun _ => trivial) fun t _ => by simp

theorem plain_memoryLeakRecencyWait (e : Nat) : Plain (memoryLeakRecencyWait e) := by
  refine plain_openConn.bind fun _ => plain_look.bind fun w => plain_closeConn.bind fun _ => ?_
  split
  · exact plain_pure ()
  · exact plain_look.bind fun now => plain_forM plain_sleep

theorem plain_holdTick (e : Nat) (c : String) (n : Nat) : Plain (holdTick e c n) := by
  refine plain_openConn.bind fun _ => plain_look.bind fun w => (plain_orRaise _).bind fun r => ?_
  refine Plain.bind (plain_onlyIf (plain_look.bind fun now => plain_onlyIf (plain_exec trivial))) fun _ => ?_
  exact Plain.bind (plain_onlyIf (plain_look.bind fun now => plain_onlyIf (plain_exec trivial))) fun _ => plain_closeConn

/-- An exception while the injector may be running. -/
theorem guardable_tracked (e pid : Nat) (s : Stmt) : Guardable e (fault (.tracked e pid) s) := by
  cases s <;> first | exact .doomed | exact .reaped

theorem keeps_stopInjector {e pid : Nat} {Q : Unit → Phase → Prop} (hq : Q () (.reaped e)) :
    Keeps (stopInjector pid) (.tracked e pid) Q (Guardable e) := by
  have hx : ∀ s : Stmt, s.Neutral → Guardable e (fault (.tracked e pid) s) := fun s _ => guardable_tracked e pid s
  refine Plain.then (plain_exec trivial) (by simp) hx fun _ => ?_
  refine plain_look.then (by simp) hx fun now => ?_
  refine keeps_bind (keeps_stmt (fun w _ _ => ?_) (guardable_tracked ..))
  by_cases ha : w.alive pid = true
  · refine ⟨.tracked e pid, .neutral (by simp) trivial, ?_⟩
    rw [onlyIf, if_pos ha]
    refine keeps_bind (keeps_exec (fun _ _ _ => ⟨_, .kill, ?_⟩) (guardable_tracked ..))
    exact Plain.keeps (plain_exec trivial) (by simp) (fun _ => hq) fun _ _ => .reaped
  · refine ⟨.reaped e, .reap (.inr (.inr (.inr ⟨_, rfl⟩))) (by simpa using ha), ?_⟩
    rw [onlyIf, if_neg ha]
    exact hq

/-- One pass of the wait: the injector is still watched, or it has ended. -/
theorem keeps_pollInjector {e pid d n : Nat} {c : String} :
    Keeps (pollInjector e c pid d n) (.tracked e pid)
      (fun o ψ => (o = none → ψ = .tracked e pid) ∧ ∀ x, o = some x → ψ = .reaped e) (Guardable e) := by
  have hx : ∀ s : Stmt, s.Neutral → Guardable e (fault (.tracked e pid) s) := fun s _ => guardable_tracked e pid s
  refine keeps_bind (keeps_stmt (fun w _ _ => ?_) (guardable_tracked ..))
  by_cases ha : w.alive pid = true
  · refine ⟨.tracked e pid, .neutral (by simp) trivial, ?_⟩
    rw [if_pos ha]
    refine plain_look.then (by simp) hx fun now => ?_
    apply keeps_ite
    · intro _
      exact keeps_bind (keeps_stopInjector (by simp))
    · intro _
      refine Plain.then (plain_onlyIf (plain_holdTick e c n)) (by simp) hx fun _ => ?_
      exact (plain_sleep 10).then (by simp) hx fun _ => by simp
  · refine ⟨.reaped e, .reap (.inl rfl) (by simpa using ha), ?_⟩
    rw [if_neg ha]
    simp

theorem keeps_wrapperTail {e pid : Nat} {c : String} {b : Bool} :
    Keeps (wrapperTail e c pid b) (.reaped e) (fun _ => Phase.Rests) (Guardable e) := by
  have hx : ∀ s : Stmt, s.Neutral → Guardable e (fault (.reaped e) s) := fun _ _ => .reaped
  have hspent : ∀ s : Stmt, s.Neutral → Guardable e (fault (.spent e failed true) s) := fun _ _ => .spent
  have harmed : ∀ s : Stmt, s.Neutral → Guardable e (fault (.armed e) s) := fun _ _ => .late
  refine plain_openConn.then (by simp) hx fun _ => ?_
  refine plain_look.then (by simp) hx fun w => ?_
  refine (plain_orRaise _).then (by simp) hx fun r => ?_
  apply keeps_ite
  -- the injection did not go through
  · intro _
    refine keeps_bind (keeps_setTerminal (fun w => .fail (by simp [Phase.mayFail])) .reaped hspent ?_)
    exact plain_closeConn.keeps (by simp) (fun _ => trivial) hspent
  -- it did, but somebody has asked to abandon the episode
  · intro _
    refine plain_look.then (by simp) hx fun w => ?_
    apply keeps_ite
    · intro _
      refine keeps_bind (keeps_setTerminal (fun w => .fail (by simp [Phase.mayFail])) .reaped hspent ?_)
      exact plain_closeConn.keeps (by simp) (fun _ => trivial) hspent
    · intro _
      apply keeps_ite
      · -- report-only: the wrapper resolves the episode itself
        intro _
        refine keeps_bind (keeps_setState (by decide) (fun w => .arm) .reaped ?_)
        refine plain_closeConn.then (by simp) harmed fun _ => keeps_bind ?_
        refine (keeps_attemptResolve (g := true) ?_ ?_).mono (fun _ _ h => h) fun _ h => caught_true.1 h
        · exact fun s => trivial
        · trivial
      · intro _
        refine keeps_bind (keeps_setState (by decide) (fun w => .arm) .reaped ?_)
        refine plain_closeConn.then (by simp) harmed fun _ => ?_
        refine Plain.then (plain_exec trivial) (by simp) harmed fun _ => ?_
        exact Plain.keeps (plain_exec trivial) (by simp) (fun _ => trivial) harmed

theorem plain_baselineRestarts (c : String) : Plain (baselineRestarts c) :=
  plain_ite (plain_look.bind fun _ => plain_pure _) (plain_pure 0)

theorem keeps_recordPid {e pid : Nat} {c : String} {Q : Unit → Phase → Prop} (hq : Q () (.tracked e pid)) :
    Keeps (recordPid e c pid) (.forked e pid) Q (Guardable e) := by
  apply keeps_ite
  · intro _
    exact keeps_setState (by decide) (fun w => .hold) .doomed hq
  · intro _
    exact keeps_exec (fun w _ _ => ⟨_, .setPid, hq⟩) .doomed

theorem keeps_runLiveEpisodeInner {e : Nat} {c : String} :
    Keeps (runLiveEpisodeInner e c) (.fresh e) (fun _ => Phase.Rests) (Guardable e) := by
  have hx : ∀ s : Stmt, s.Neutral → Guardable e (fault (.fresh e) s) := fun _ _ => .fresh
  refine Plain.then (plain_onlyIf (plain_memoryLeakRecencyWait e)) (by simp) hx fun _ => ?_
  refine (plain_baselineRestarts c).then (by simp) hx fun n => ?_
  refine plain_look.then (by simp) hx fun _ => ?_
  refine keeps_bind (keeps_stmt (fun w _ _ => ⟨_, .popen, ?_⟩) .fresh)
  have htracked : ∀ s : Stmt, s.Neutral → Guardable e (fault (.tracked e w.procs.length) s) :=
    fun s _ => guardable_tracked e _ s
  refine plain_openConn.then (by simp) (fun _ _ => .doomed) fun _ => ?_
  refine keeps_bind (keeps_recordPid ?_)
  refine plain_closeConn.then (by simp) htracked fun _ => ?_
  refine plain_look.then (by simp) htracked fun now => keeps_bind ?_
  -- the loop's invariant: the thread is still watching the injector
  refine ⟨fun ψ => ψ = .tracked e w.procs.length, rfl, ?_⟩
  rintro ψ rfl
  refine keeps_pollInjector.mono (fun o χ ho => ⟨ho.1, fun b hb => ?_⟩) fun _ h => h
  rw [ho.2 b hb]
  exact plain_look.then (by simp) (fun _ _ => .reaped) fun _ => keeps_wrapperTail

theorem keeps_runLiveEpisode {e : Nat} {c : String} :
    Keeps (runLiveEpisode e c) (.fresh e) (fun _ => Phase.Rests) Phase.Rests :=
  keeps_try (keeps_runLiveEpisodeInner.mono (fun _ _ h => h) fun _ h => keeps_guard h)

/-! ## The watcher of an orphan -/

/-- A probe of `pid`: whether the watcher goes on watching. -/
theorem keeps_pidAlive {e pid : Nat} {X : Phase → Prop} :
    Keeps (pidAlive pid) (.tracked e pid) (fun b ψ => ψ = if b then .tracked e pid else .reaped e) X := by
  refine keeps_try (keeps_bind (keeps_stmt (fun w _ _ => ?_) (by simp)))
  cases ha : w.alive pid with
  | true => exact ⟨_, .probe (by simp), by simp⟩
  | false => exact ⟨_, .reap (.inr (.inl rfl)) ha, by simp⟩

theorem keeps_startThread {φ : Phase} {e : Nat} {t : Trigger} {Q : Unit → Phase → Prop} {X : Phase → Prop}
    (hs : φ ≠ .starting) (hq : Q () φ) (hx : X (fault φ (.startThread (.attemptResolve e t)))) :
    Keeps (startThread (.attemptResolve e t)) φ Q X :=
  keeps_exec (fun _ _ _ => ⟨φ, .resolve hs, hq⟩) hx

theorem keeps_waitForOrphan {e pid : Nat} :
    Keeps (waitForOrphan pid e) (.tracked e pid) (fun _ => Phase.Rests) Phase.Rests := by
  have hguard : Keeps (do
      untilSome (do
        let alive ← pidAlive pid
        if alive then
          sleep 10
          pure none
        else pure (some ()))
      openConn
      let w ← look
      let r ← orRaise w.episodes[e]?
      if r.t0.isSome ∧ r.chaosResourceName.isSome then
        setEpisodeState e awaitingFix noExtra
        closeConn
        startThread (.attemptResolve e .autoResolve)
      else
        setEpisodeState e failed noExtra
        closeConn) (.tracked e pid) (fun _ => Phase.Rests) (Guardable e) := by
    refine keeps_bind ⟨fun ψ => ψ = .tracked e pid, rfl, ?_⟩
    rintro ψ rfl
    refine keeps_bind (keeps_pidAlive.mono (fun b χ hχ => ?_) fun _ h => h)
    have hx : ∀ s : Stmt, s.Neutral → Guardable e (fault (.reaped e) s) := fun _ _ => .reaped
    cases b with
    | true =>
      obtain rfl : χ = .tracked e pid := hχ
      exact (plain_sleep 10).then (by simp) (fun s _ => guardable_tracked e pid s) fun _ => by simp
    | false =>
      obtain rfl : χ = .reaped e := hχ
      simp only [Bool.false_eq_true, if_false, keeps_pure, reduceCtorEq, false_implies, true_and]
      intro _ _
      refine plain_openConn.then (by simp) hx fun _ => plain_look.then (by simp) hx fun w => ?_
      refine (plain_orRaise _).then (by simp) hx fun r => ?_
      apply keeps_ite
      · intro _
        refine keeps_bind (keeps_setState (by decide) (fun w => .arm) .reaped ?_)
        refine plain_closeConn.then (by simp) (fun _ _ => .late) fun _ => ?_
        exact keeps_startThread (by simp) trivial .late
      · intro _
        refine keeps_bind (keeps_setTerminal (fun w => .fail (by simp [Phase.mayFail])) .reaped (fun _ _ => .spent) ?_)
        exact plain_closeConn.keeps (by simp) (fun _ => trivial) fun _ _ => .spent
  exact keeps_try (hguard.mono (fun _ _ h => h) fun _ h => keeps_guard h)

/-! ## The endpoints -/

/-- A request that is refused ends, whatever it was allowed to do. -/
theorem keeps_refuseUnaudited {φ : Phase} {Q : α → Phase → Prop} {X : Phase → Prop} (hs : φ ≠ .starting)
    (hx : ∀ s, s.Neutral → X (fault φ s)) (h : X φ) : Keeps (refuseUnaudited : Routine α) φ Q X :=
  plain_closeConn.then hs hx fun _ => h

theorem keeps_refuse {φ : Phase} {Q : α → Phase → Prop} {X : Phase → Prop} (hs : φ ≠ .starting)
    (hx : ∀ s, s.Neutral → X (fault φ s)) (h : X φ) : Keeps (refuse : Routine α) φ Q X :=
  plain_audit.then hs hx fun _ => keeps_refuseUnaudited hs hx h

theorem keeps_onlyIf {c : Prop} {_ : Decidable c} {p : Routine Unit} {φ : Phase} {Q : Unit → Phase → Prop} {X : Phase → Prop}
    (hp : c → Keeps p φ Q X) (hq : Q () φ) : Keeps (onlyIf c p) φ Q X := keeps_ite hp fun _ => hq

section Inject

theorem fault_asking {X : Phase → Prop} (h : X .asking) (s : Stmt) : X (fault .asking s) := by cases s <;> exact h

theorem keeps_demoTriggerChecks {c ip : String} {Q : Unit → Phase → Prop} (hq : Q () .asking) :
    Keeps (demoTriggerChecks c ip) .asking Q Phase.Rests := by
  have hx : ∀ s : Stmt, s.Neutral → (fault .asking s).Rests := fun s _ => fault_asking trivial s
  have href : ∀ {Q : Unit → Phase → Prop}, Keeps refuse .asking Q Phase.Rests := keeps_refuse (by simp) hx trivial
  refine keeps_bind (keeps_onlyIf (fun _ => href) ?_)
  refine plain_look.then (by simp) hx fun w => keeps_bind (keeps_onlyIf (fun _ => href) ?_)
  refine plain_look.then (by simp) hx fun w => keeps_bind ?_
  have hlast : Keeps (do
      let w ← look
      onlyIf (DAILY_CAP ≤ w.triggersToday ip) refuse) .asking Q Phase.Rests :=
    plain_look.then (by simp) hx fun w => keeps_onlyIf (fun _ => href) hq
  unfold cooldown
  split
  · exact hlast
  · exact plain_look.then (by simp) hx fun now => keeps_onlyIf (fun _ => href) hlast

/-- The check under the lock answers "free" only when it saw no episode in flight. -/
theorem keeps_episodeInFlight {X : Phase → Prop} (h1 : X .admitting) (h2 : X .admitted) :
    Keeps episodeInFlight .admitting (fun b ψ => ψ = .admitted ∨ (b = true ∧ ψ = .admitting)) X := by
  refine keeps_bind (keeps_stmt (fun w _ _ => ?_) h1)
  cases hw : w.inFlight with
  | true => exact ⟨.admitting, .neutral (by simp) trivial, by simp⟩
  | false =>
    refine ⟨.admitted, .free hw, ?_⟩
    have hx : ∀ s : Stmt, s.Neutral → X (fault .admitted s) := by
      intro s _
      cases s <;> exact h2
    simp only [Bool.false_eq_true, if_false]
    refine plain_look.then (by simp) hx fun w => ?_
    split
    · exact .inl rfl
    · refine (plain_orRaise _).then (by simp) hx fun t0 => ?_
      exact plain_look.then (by simp) hx fun now => .inl rfl

theorem keeps_admitUnderLock {c ip : String} {role : Role} {u : Option String} {Q : Nat → Phase → Prop}
    (hq : ∀ e, Q e (.launching e false)) : Keeps (admitUnderLock c role u ip) .asking Q Phase.Rests := by
  -- however the section is left, the lock is released
  have hrel : ∀ φ, φ = .admitting ∨ φ = .admitted →
      Keeps (do exec .release; raise : Routine Nat) φ Q Phase.Rests := by
    intro φ h
    refine keeps_bind (keeps_exec (fun _ _ _ => ⟨.quiet, .giveUp h, trivial⟩) ?_)
    rcases h with rfl | rfl <;> trivial
  have hrel' : ∀ e, Keeps (do exec .release; raise : Routine Nat) (.launching e true) Q Phase.Rests := by
    intro e
    exact keeps_bind (keeps_exec (fun _ _ _ => ⟨_, .release, trivial⟩) trivial)
  refine keeps_bind (keeps_exec (fun _ _ _ => ⟨_, .acquire, ?_⟩) trivial)
  refine Obeys.graft (keeps_bind ((keeps_episodeInFlight (hrel _ (.inl rfl)) (hrel _ (.inr rfl))).mono ?_ fun _ h => h))
  intro b ψ hψ
  apply keeps_ite
  · intro _
    have hr : ψ = .admitting ∨ ψ = .admitted := by
      rcases hψ with rfl | ⟨-, rfl⟩
      · exact .inr rfl
      · exact .inl rfl
    refine keeps_refuse (by rcases hr with rfl | rfl <;> simp) ?_ (hrel ψ hr)
    intro s hs
    rcases hr with rfl | rfl <;> cases s <;> first | exact hrel _ (.inl rfl) | exact hrel _ (.inr rfl)
  · intro hb
    obtain rfl : ψ = .admitted := by
      rcases hψ with rfl | ⟨hb', -⟩
      · rfl
      · exact absurd hb' hb
    refine keeps_bind (keeps_stmt (fun w _ _ => ⟨_, .insert, ?_⟩) (hrel _ (.inr rfl)))
    refine Plain.then (plain_onlyIf (plain_exec trivial)) (by simp) ?_ fun _ => ?_
    · intro s hs
      cases s <;> exact hrel' _
    · exact keeps_bind (keeps_exec (fun _ _ _ => ⟨_, .release, hq _⟩) trivial)

theorem keeps_triggerInject {c ip : String} {role : Role} {u : Option String} :
    Keeps (triggerInject c role u ip) .asking (fun _ => Phase.Rests) Phase.Rests := by
  have hx : ∀ s : Stmt, s.Neutral → (fault .asking s).Rests := fun s _ => fault_asking trivial s
  have href : ∀ {Q : Unit → Phase → Prop}, Keeps refuse .asking Q Phase.Rests := keeps_refuse (by simp) hx trivial
  refine plain_openConn.then (by simp) hx fun _ => keeps_bind (keeps_onlyIf (fun _ => href) ?_)
  have hrest : Keeps (do
      onlyIf (role = .demoTrigger) (demoTriggerChecks c ip)
      let e ← admitUnderLock c role u ip
      audit
      closeConn
      onlyIf (c = "memory-leak") (setLeakCheckoutPaused true)
      startThread (.runLiveEpisode e c)) .asking (fun _ => Phase.Rests) Phase.Rests := by
    have hadmit : Keeps (do
        let e ← admitUnderLock c role u ip
        audit
        closeConn
        onlyIf (c = "memory-leak") (setLeakCheckoutPaused true)
        startThread (.runLiveEpisode e c)) .asking (fun _ => Phase.Rests) Phase.Rests := by
      refine keeps_bind (keeps_admitUnderLock fun e => ?_)
      have hl : ∀ s : Stmt, (fault (.launching e false) s).Rests := fun s => by cases s <;> trivial
      refine plain_audit.then (by simp) (fun s _ => hl s) fun _ => ?_
      refine plain_closeConn.then (by simp) (fun s _ => hl s) fun _ => ?_
      refine Plain.then (plain_onlyIf (plain_setPaused true)) (by simp) (fun s _ => hl s) fun _ => ?_
      exact keeps_exec (fun _ _ _ => ⟨_, .launch, trivial⟩) (hl _)
    exact keeps_bind (keeps_onlyIf (fun _ => keeps_demoTriggerChecks hadmit) hadmit)
  refine keeps_bind (keeps_onlyIf (fun _ => ?_) hrest)
  exact plain_look.then (by simp) hx fun w => keeps_onlyIf (fun _ => href) hrest

end Inject

section Quiet

theorem fault_quiet (s : Stmt) : (fault .quiet s).Rests := by cases s <;> trivial

theorem keeps_triggerStopHold {e : Nat} {role : Role} {u : Option String} :
    Keeps (triggerStopHold e role u) .quiet (fun _ => Phase.Rests) Phase.Rests := by
  have hx : ∀ s : Stmt, s.Neutral → (fault .quiet s).Rests := fun s _ => fault_quiet s
  have href : Keeps (refuseUnaudited : Routine Unit) .quiet (fun _ => Phase.Rests) Phase.Rests :=
    keeps_refuseUnaudited (by simp) hx trivial
  refine plain_openConn.then (by simp) hx fun _ => plain_look.then (by simp) hx fun w => ?_
  split
  · exact href
  · refine keeps_ite (fun _ => href) fun _ => keeps_ite (fun _ => href) fun _ => ?_
    exact Plain.then (plain_exec trivial) (by simp) hx fun _ => plain_closeConn.keeps (by simp) (fun _ => trivial) hx

theorem keeps_triggerResolve {e : Nat} : Keeps (triggerResolve e) .quiet (fun _ => Phase.Rests) Phase.Rests := by
  have hx : ∀ s : Stmt, s.Neutral → (fault .quiet s).Rests := fun s _ => fault_quiet s
  refine plain_openConn.then (by simp) hx fun _ => plain_look.then (by simp) hx fun w => ?_
  refine keeps_ite (fun _ => ?_) fun _ => keeps_refuse (by simp) hx trivial
  refine plain_audit.then (by simp) hx fun _ => plain_closeConn.then (by simp) hx fun _ => ?_
  exact keeps_startThread (by simp) trivial (fault_quiet _)

theorem keeps_logout {u : Option String} : Keeps (logout u) .quiet (fun _ => Phase.Rests) Phase.Rests := by
  have hx : ∀ s : Stmt, s.Neutral → (fault .quiet s).Rests := fun s _ => fault_quiet s
  refine plain_openConn.then (by simp) hx fun _ => ?_
  exact Plain.then (plain_exec trivial) (by simp) hx fun _ => plain_closeConn.keeps (by simp) (fun _ => trivial) hx

end Quiet

/-! ## Startup -/

/-- The phase of the startup handler still speaks of every row of `l` that is to
be reconciled, and of no `resolving` row that is not, unless one was given up. -/
structure Covers (l : List (Nat × Episode)) (rows : List Pending) (b : Bool) : Prop where
  has : ∀ x ∈ l, ∃ y ∈ rows, y.episode = x.1 ∧ (y.pid = none ∨ y.pid = x.2.subprocessPid)
  same : ∀ x ∈ l, ∀ y ∈ rows, y.episode = x.1 → x.2.episodeState = some y.state
  left : b = true ∨ ∀ y ∈ rows, y.state = resolving → y.episode ∈ l.map (·.1)
  nodup : (l.map (·.1)).Nodup

namespace Covers
variable {x : Nat × Episode} {l : List (Nat × Episode)} {rows : List Pending} {b : Bool}

/-- The pending row of the first entry is unsettled where its episode is. -/
theorem unsettled {s : EpisodeState} (h : Covers (x :: l) rows b) (hr : x.2.episodeState = some s) (hs : s.Unsettled)
    {y : Pending} (hy : y ∈ rows) (he : y.episode = x.1) : y.state.Unsettled := by
  obtain rfl : y.state = s := Option.some.inj ((h.same _ List.mem_cons_self y hy he).symm.trans hr)
  exact hs

/-- The row is not a `resolving` one, and needs nothing more. -/
theorem pass (h : Covers (x :: l) rows b) (hs : x.2.episodeState ≠ some resolving) : Covers l rows b := by
  refine ⟨fun y hy => h.has y (List.mem_cons_of_mem _ hy), fun y hy => h.same y (List.mem_cons_of_mem _ hy), ?_,
    (List.nodup_cons.1 h.nodup).2⟩
  refine h.left.imp_right fun hl y hy hr => ?_
  rcases List.mem_cons.1 (hl y hy hr) with he | he
  · exact absurd (hr ▸ h.same x List.mem_cons_self y hy he) hs
  · exact he

/-- The row is given up. -/
theorem slip (h : Covers (x :: l) rows b) : Covers l rows (b || rows.any (·.state = resolving)) := by
  refine ⟨fun y hy => h.has y (List.mem_cons_of_mem _ hy), fun y hy => h.same y (List.mem_cons_of_mem _ hy), ?_,
    (List.nodup_cons.1 h.nodup).2⟩
  by_cases hr : ∃ y ∈ rows, y.state = resolving
  · left
    obtain ⟨y, hy, hr⟩ := hr
    rw [List.any_eq_true.2 ⟨y, hy, by simpa using hr⟩, Bool.or_true]
  · right
    intro y hy hr'
    exact absurd ⟨y, hy, hr'⟩ hr

/-- The row is reconciled. -/
theorem settle (h : Covers (x :: l) rows b) : Covers l (without x.1 rows) b := by
  have hn := List.nodup_cons.1 h.nodup
  have hne : ∀ z ∈ l, z.1 ≠ x.1 := by
    intro z hz he
    exact hn.1 (List.mem_map.2 ⟨z, hz, he⟩)
  refine ⟨?_, ?_, ?_, hn.2⟩
  · intro z hz
    obtain ⟨y, hy, he, hp⟩ := h.has z (List.mem_cons_of_mem _ hz)
    exact ⟨y, List.mem_filter.2 ⟨hy, by simpa [he] using hne z hz⟩, he, hp⟩
  · intro z hz y hy
    exact h.same z (List.mem_cons_of_mem _ hz) y (List.mem_filter.1 hy).1
  · refine h.left.imp_right fun hl y hy hr => ?_
    obtain ⟨hy, hey⟩ := List.mem_filter.1 hy
    rcases List.mem_cons.1 (hl y hy hr) with he | he
    · exact absurd he (by simpa using hey)
    · exact he

/-- Some process is found dead. -/
theorem clear (h : Covers l rows b) (pid : Nat) : Covers l (rows.map (·.clear pid)) b := by
  refine ⟨?_, ?_, ?_, h.nodup⟩
  · intro z hz
    obtain ⟨y, hy, hye, hp⟩ := h.has z hz
    refine ⟨y.clear pid, List.mem_map_of_mem hy, by rw [Pending.clear_episode, hye], ?_⟩
    unfold Pending.clear
    split
    · exact .inl rfl
    · exact hp
  · intro z hz y' hy'
    obtain ⟨y, hy, rfl⟩ := List.mem_map.1 hy'
    rw [Pending.clear_episode, Pending.clear_state]
    exact h.same z hz y hy
  · refine h.left.imp_right fun hl y' hy' => ?_
    obtain ⟨y, hy, rfl⟩ := List.mem_map.1 hy'
    rw [Pending.clear_episode, Pending.clear_state]
    exact hl y hy

end Covers

/-- The startup handler with the rows of `l` left. -/
def Reconciling (l : List (Nat × Episode)) (φ : Phase) : Prop := ∃ rows b, φ = .reconciling rows b ∧ Covers l rows b

section Reconcile
variable {e : Nat} {r : Episode} {l : List (Nat × Episode)} {rows : List Pending} {b : Bool}

theorem fault_reconciling (h : Covers ((e, r) :: l) rows b) {s : Stmt} (hs : ∀ pid, s ≠ .osKill pid) :
    Reconciling l (fault (.reconciling rows b) s) := by
  cases s <;> first | exact ⟨_, _, rfl, h.slip⟩ | exact absurd rfl (hs _)

/-- After the row is reconciled, exceptions change nothing about it. -/
theorem fault_reconciled (h : Covers l rows b) (s : Stmt) : Reconciling l (fault (.reconciling rows b) s) := by
  have hb : Covers l rows (b || rows.any (·.state = resolving)) := by
    refine ⟨h.has, h.same, ?_, h.nodup⟩
    rcases h.left with rfl | hl
    · exact .inl rfl
    · exact .inr hl
  cases s <;> first | exact ⟨_, _, rfl, hb⟩ | exact ⟨_, _, rfl, h.clear _⟩

/-- The write that reconciles a row. -/
theorem keeps_reconcileWrite {s : EpisodeState} {x : Extra} (h : Covers ((e, r) :: l) rows b)
    (hr : ∀ w, Rule (.reconciling rows b) (.setState e s x) w (.reconciling (without e rows) b)) :
    Keeps (setEpisodeState e s x) (.reconciling rows b) (fun _ ψ => ψ = .reconciling (without e rows) b) (Reconciling l) := by
  have hx : ∀ t : Stmt, t.Neutral → Reconciling l (fault (.reconciling (without e rows) b) t) :=
    fun t _ => fault_reconciled h.settle t
  refine keeps_bind (keeps_exec (fun w _ _ => ⟨_, hr w, ?_⟩) (fault_reconciling h (by simp)))
  refine Plain.keeps (plain_onlyIf ?_) (by simp) (fun _ => rfl) hx
  exact plain_look.bind fun w => plain_onlyIf (plain_setPaused false)

/-- A probe of the row's process: it is alive, or known to be dead. -/
theorem keeps_reconcileProbe {pid : Nat} {X : Phase → Prop} (h : Covers ((e, r) :: l) rows b)
    (hp : r.subprocessPid = some pid) :
    Keeps (pidAlive pid) (.reconciling rows b) (fun alive ψ => ∃ rows', ψ = .reconciling rows' b ∧ Covers ((e, r) :: l) rows' b ∧
      (alive = false → ∃ y ∈ rows', y.episode = e ∧ y.pid = none)) X := by
  have hdead : ∃ y ∈ rows.map (·.clear pid), y.episode = e ∧ y.pid = none := by
    obtain ⟨y, hy, he, hpid⟩ := h.has _ List.mem_cons_self
    refine ⟨y.clear pid, List.mem_map_of_mem hy, ?_, ?_⟩
    · rw [Pending.clear_episode, he]
    · rcases hpid with hpid | hpid
      · simp [Pending.clear, hpid]
      · simp [Pending.clear, hpid, hp]
  refine keeps_try (keeps_bind (keeps_stmt (fun w _ _ => ?_) ⟨_, rfl, h.clear pid, fun _ => hdead⟩))
  cases ha : w.alive pid with
  | true => exact ⟨_, .probe (by simp), _, rfl, h, by simp⟩
  | false => exact ⟨_, .gone ha, _, rfl, h.clear pid, fun _ => hdead⟩

theorem keeps_reconcileEnded {s : EpisodeState} (h : Covers ((e, r) :: l) rows b) (hr : r.episodeState = some s)
    (hs : s.Unsettled) (hd : ∃ y ∈ rows, y.episode = e ∧ y.pid = none) :
    Keeps (reconcileEnded e r) (.reconciling rows b) (fun _ => Reconciling l) (Reconciling l) := by
  have hx : ∀ t : Stmt, t.Neutral → Reconciling l (fault (.reconciling rows b) t) := by
    intro t ht
    exact fault_reconciling h (by rintro pid rfl; exact ht)
  obtain ⟨y, hy, rfl, hpid⟩ := hd
  have hst : y.state.Unsettled := h.unsettled hr hs hy rfl
  refine plain_openConn.then (by simp) hx fun _ => ?_
  apply keeps_ite
  · intro _
    refine keeps_bind ((keeps_reconcileWrite h fun w => .settle hy hst hpid (.inr rfl)).mono ?_ fun _ hψ => hψ)
    rintro _ ψ rfl
    refine plain_closeConn.then (by simp) (fun t _ => fault_reconciled h.settle t) fun _ => ?_
    exact keeps_startThread (by simp) ⟨_, _, rfl, h.settle⟩ (fault_reconciled h.settle _)
  · intro _
    refine keeps_bind ((keeps_reconcileWrite h fun w => .settle hy hst hpid (.inl rfl)).mono ?_ fun _ hψ => hψ)
    rintro _ ψ rfl
    exact plain_closeConn.keeps (by simp) (fun _ => ⟨_, _, rfl, h.settle⟩) fun t _ => fault_reconciled h.settle t

theorem keeps_reconcileInjecting {s : EpisodeState} (h : Covers ((e, r) :: l) rows b) (hr : r.episodeState = some s)
    (hs : s.Unsettled) : Keeps (reconcileInjecting e r) (.reconciling rows b) (fun _ => Reconciling l) (Reconciling l) := by
  unfold reconcileInjecting
  split
  · rename_i hp
    have hx : ∀ t : Stmt, t.Neutral → Reconciling l (fault (.reconciling rows b) t) := by
      intro t ht
      exact fault_reconciling h (by rintro pid rfl; exact ht)
    obtain ⟨y, hy, rfl, hpid⟩ := h.has _ List.mem_cons_self
    have hst : y.state.Unsettled := h.unsettled hr hs hy rfl
    refine plain_openConn.then (by simp) hx fun _ => ?_
    refine keeps_bind ((keeps_reconcileWrite h fun w => .settle hy hst (by simpa [hp] using hpid) (.inl rfl)).mono ?_
      fun _ hψ => hψ)
    rintro _ ψ rfl
    exact plain_closeConn.keeps (by simp) (fun _ => ⟨_, _, rfl, h.settle⟩) fun t _ => fault_reconciled h.settle t
  · rename_i pid hp
    refine keeps_bind ((keeps_reconcileProbe h hp).mono ?_ fun _ hψ => hψ)
    rintro alive ψ ⟨rows', rfl, h', hd⟩
    apply keeps_ite
    · intro _
      obtain ⟨y, hy, rfl, hpid⟩ := h'.has _ List.mem_cons_self
      have hst : y.state.Unsettled := h'.unsettled hr hs hy rfl
      rw [hp] at hpid
      exact keeps_exec (fun _ _ _ => ⟨_, .watch hy hst hpid, _, _, rfl, h'.settle⟩) (fault_reconciling h' (by simp))
    · intro ha
      exact keeps_reconcileEnded h' hr hs (hd (by simpa using ha))

theorem keeps_reconcileOneRow (h : Covers ((e, r) :: l) rows b) :
    Keeps (reconcileOneRow e r) (.reconciling rows b) (fun _ => Reconciling l) (Reconciling l) := by
  have hx : ∀ t : Stmt, t.Neutral → Reconciling l (fault (.reconciling rows b) t) := by
    intro t ht
    exact fault_reconciling h (by rintro pid rfl; exact ht)
  refine plain_look.then (by simp) hx fun now => ?_
  split
  -- `injecting`, `holding`
  · exact keeps_reconcileInjecting h ‹_› (.inl rfl)
  · exact keeps_reconcileInjecting h ‹_› (.inr rfl)
  -- `awaiting_fix`: a new resolver, or another timer
  · rename_i hr
    have hl := h.pass (by simp [hr])
    apply keeps_ite
    · intro _
      exact keeps_startThread (by simp) ⟨_, _, rfl, hl⟩ (fault_reconciling h (by simp))
    · intro _
      refine Plain.then (plain_exec trivial) (by simp) hx fun _ => ?_
      exact Plain.keeps (plain_exec trivial) (by simp) (fun _ => ⟨_, _, rfl, hl⟩) hx
  -- `resolving`: closed by whether a row of `scores` is there
  · rename_i hr
    obtain ⟨y, hy, rfl, hpid⟩ := h.has _ List.mem_cons_self
    have hst : y.state = resolving :=
      Option.some.inj ((h.same _ List.mem_cons_self y hy rfl).symm.trans hr)
    refine plain_openConn.then (by simp) hx fun _ => plain_look.then (by simp) hx fun w => ?_
    refine keeps_bind ((keeps_reconcileWrite h fun w' => .close hy hst ?_).mono ?_ fun _ hψ => hψ)
    · split
      · exact .inl rfl
      · exact .inr rfl
    · rintro _ ψ rfl
      exact plain_closeConn.keeps (by simp) (fun _ => ⟨_, _, rfl, h.settle⟩) fun t _ => fault_reconciled h.settle t
  · rename_i hr
    exact ⟨_, _, rfl, h.pass fun h' => hr h'⟩

theorem keeps_reconcileRows (l : List (Nat × Episode)) {φ : Phase} (h : Reconciling l φ) {X : Phase → Prop} :
    Keeps (l.forM fun x => tryCatch (reconcileOneRow x.1 x.2) (pure ())) φ (fun _ => Reconciling []) X := by
  induction l generalizing φ with
  | nil => exact h
  | cons x l ih =>
    obtain ⟨rows, b, rfl, hc⟩ := h
    refine keeps_bind (keeps_try ((keeps_reconcileOneRow hc).mono ?_ ?_))
    · intro _ ψ hψ
      exact ih hψ
    · intro ψ hψ
      exact ih hψ

end Reconcile

theorem nonTerminalRows_mem {w : World} {x : Nat × Episode} (h : x ∈ w.nonTerminalRows) :
    w.episodes[x.1]? = some x.2 ∧ ∃ s, x.2.episodeState = some s ∧ s ∈ NON_TERMINAL_EPISODE_STATES := by
  simp only [World.nonTerminalRows, List.mem_map, List.mem_filter] at h
  obtain ⟨⟨r, i⟩, ⟨hm, hs⟩, rfl⟩ := h
  refine ⟨List.mem_zipIdx_iff_getElem?.1 hm, ?_⟩
  cases hr : r.episodeState with
  | none => simp [hr] at hs
  | some s => exact ⟨s, rfl, by simpa [hr] using hs⟩

theorem pendings_mem {w : World} {y : Pending} :
    y ∈ w.pendings ↔ ∃ r, (y.episode, r) ∈ w.nonTerminalRows ∧ r.episodeState = some y.state ∧ y.pid = r.subprocessPid := by
  simp only [World.pendings, List.mem_filterMap, Option.map_eq_some_iff]
  constructor
  · rintro ⟨x, hx, s, hs, rfl⟩
    exact ⟨x.2, hx, hs, rfl⟩
  · rintro ⟨r, hr, hs, hp⟩
    obtain ⟨e, s, p⟩ := y
    obtain rfl : p = r.subprocessPid := hp
    exact ⟨(e, r), hr, s, hs, rfl⟩

theorem nonTerminalRows_nodup (w : World) : (w.nonTerminalRows.map (·.1)).Nodup := by
  have hn : (w.episodes.zipIdx.map Prod.snd).Nodup := by
    rw [List.zipIdx_map_snd]
    exact List.nodup_range'
  have hs : (w.nonTerminalRows.map (·.1)).Sublist (w.episodes.zipIdx.map Prod.snd) := by
    simp only [World.nonTerminalRows, List.map_map]
    exact List.filter_sublist.map _
  exact hs.nodup hn

theorem covers_pendings (w : World) : Covers w.nonTerminalRows w.pendings false := by
  refine ⟨?_, ?_, .inr ?_, nonTerminalRows_nodup w⟩
  · rintro ⟨e, r⟩ hx
    obtain ⟨-, s, hs, -⟩ := nonTerminalRows_mem hx
    exact ⟨⟨e, s, r.subprocessPid⟩, pendings_mem.2 ⟨r, hx, hs, rfl⟩, rfl, .inr rfl⟩
  · rintro ⟨e, r⟩ hx y hy rfl
    obtain ⟨r', hr', hs, -⟩ := pendings_mem.1 hy
    have he : some r = some r' := (nonTerminalRows_mem hx).1.symm.trans (nonTerminalRows_mem hr').1
    rw [Option.some.inj he]
    exact hs
  · intro y hy _
    obtain ⟨r, hr, -⟩ := pendings_mem.1 hy
    exact List.mem_map.2 ⟨_, hr, rfl⟩

theorem keeps_onStartup : Keeps onStartup .starting (fun _ => Phase.Rests) Phase.Rests := by
  refine keeps_bind (keeps_exec (fun _ _ _ => ⟨_, .connect, ?_⟩) trivial)
  refine keeps_bind (keeps_stmt (fun w _ _ => ⟨_, .select, ?_⟩) trivial)
  refine plain_closeConn.then (by simp) (fun s _ => by cases s <;> trivial) fun _ => ?_
  refine keeps_bind ((keeps_reconcileRows _ ⟨_, _, rfl, covers_pendings w⟩).mono ?_ fun _ h => h)
  rintro _ ψ ⟨rows, b, rfl, hc⟩
  refine keeps_exec (fun _ _ _ => ⟨_, .serve ?_, trivial⟩) trivial
  exact hc.left.imp_right fun hl y hy hr => by simpa using hl y hy hr

/-- Every thread of the API keeps to the discipline. -/
theorem operatorApi_sound : Sound operatorApi discipline := by
  intro j
  cases j with
  | triggerInject c role u ip => exact keeps_triggerInject
  | triggerStopHold e role u => exact keeps_triggerStopHold
  | triggerResolve e => exact keeps_triggerResolve
  | logout u => exact keeps_logout
  | onStartup => exact keeps_onStartup
  | runLiveEpisode e c => exact keeps_runLiveEpisode
  | attemptResolve e t =>
    refine keeps_bind ((keeps_attemptResolve (g := false) (fun s => ?_) ?_).mono (fun _ _ h => h) fun _ h => (caught_false.1 h).1)
    · trivial
    · trivial
  | waitForOrphan pid e => exact keeps_waitForOrphan

end Wardence.Live
