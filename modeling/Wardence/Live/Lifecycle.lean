import Wardence.Live.Discipline
/-!
# One episode at a time

What the phases of the threads say about the `episodes` table, and that it stays
true whatever the threads, their exceptions, the injectors, the clock and a
restart do: a thread that starts or watches an injector has an episode that is
still `injecting` or `holding`, and has it alone; a thread that won Gate 2 has
one that is past it.
-/
namespace Wardence.Live

open Threads EpisodeState

/-! ## What statements leave alone -/

def World.pidOf (w : World) (e : Nat) : Option Nat := w.episodes[e]?.bind (·.subprocessPid)

/-- `w'` has the states, the pids, the lock and the status of `w`, and no process
runs that did not. -/
structure Frame (w w' : World) : Prop where
  state : ∀ e, w'.stateOf e = w.stateOf e
  pid : ∀ e, w'.pidOf e = w.pidOf e
  locked : w'.locked = w.locked
  status : w'.status = w.status
  running : ∀ p x, w'.running p = some x → w.running p = some x

theorem Frame.refl (w : World) : Frame w w := ⟨fun _ => rfl, fun _ => rfl, rfl, rfl, fun _ _ h => h⟩

theorem stateOf_setRow (w : World) (e : Nat) (f : Episode → Episode) (e' : Nat) :
    (w.setRow e f).stateOf e' = if e' = e then w.episodes[e]?.bind fun r => (f r).episodeState else w.stateOf e' := by
  simp only [World.stateOf, World.setRow, List.getElem?_modify]
  split
  · rename_i h
    subst h
    cases w.episodes[e]? <;> simp
  · rename_i h
    rw [if_neg (Ne.symm h)]
    simp

theorem pidOf_setRow (w : World) (e : Nat) (f : Episode → Episode) (e' : Nat) :
    (w.setRow e f).pidOf e' = if e' = e then w.episodes[e]?.bind fun r => (f r).subprocessPid else w.pidOf e' := by
  simp only [World.pidOf, World.setRow, List.getElem?_modify]
  split
  · rename_i h
    subst h
    cases w.episodes[e]? <;> simp
  · rename_i h
    rw [if_neg (Ne.symm h)]
    simp

/-- Columns that no phase speaks of. -/
theorem Frame.setRow (w : World) (e : Nat) {f : Episode → Episode} (hs : ∀ r, (f r).episodeState = r.episodeState)
    (hp : ∀ r, (f r).subprocessPid = r.subprocessPid) : Frame w (w.setRow e f) := by
  refine ⟨fun e' => ?_, fun e' => ?_, rfl, rfl, fun _ _ h => h⟩
  · rw [stateOf_setRow]
    split
    · rename_i h
      subst h
      simp only [hs]
      rfl
    · rfl
  · rw [pidOf_setRow]
    split
    · rename_i h
      subst h
      simp only [hp]
      rfl
    · rfl

/-- A process ends, if it has not before. -/
theorem running_ended {w : World} {p q : Nat} {c : Int} {x : Program} (h : (w.setProc p (·.ended c)).running q = some x) :
    w.running q = some x ∧ q ≠ p := by
  simp only [World.running, World.setProc, List.getElem?_modify] at h ⊢
  by_cases hq : p = q
  · subst hq
    cases hp : w.procs[p]? with
    | none => simp [hp] at h
    | some r => cases hr : r.exit <;> simp [hp, Proc.ended, Proc.running, hr] at h
  · exact ⟨by simpa [hq] using h, Ne.symm hq⟩

/-- The frame of a change to the memory, the files or the clock. -/
theorem Frame.of_eq {w w' : World} (he : w'.episodes = w.episodes) (hl : w'.locked = w.locked) (hs : w'.status = w.status)
    (hp : w'.procs = w.procs) : Frame w w' := by
  refine ⟨fun e => ?_, fun e => ?_, hl, hs, fun p x h => ?_⟩
  · simp only [World.stateOf, he]
  · simp only [World.pidOf, he]
  · simpa only [World.running, hp] using h

theorem Frame.ended (w : World) (p : Nat) (c : Int) : Frame w (w.setProc p (·.ended c)) :=
  ⟨fun _ => rfl, fun _ => rfl, rfl, rfl, fun _ _ h => (running_ended h).1⟩

theorem Frame.map (w : World) {f : Episode → Episode} (hs : ∀ r, (f r).episodeState = r.episodeState)
    (hp : ∀ r, (f r).subprocessPid = r.subprocessPid) : Frame w { w with episodes := w.episodes.map f } := by
  refine ⟨fun e => ?_, fun e => ?_, rfl, rfl, fun _ _ h => h⟩
  · simp only [World.stateOf, List.getElem?_map]
    cases w.episodes[e]? <;> simp [hs]
  · simp only [World.pidOf, List.getElem?_map]
    cases w.episodes[e]? <;> simp [hp]

/-- A neutral statement changes nothing a phase speaks of. -/
theorem neutral_frame {s : Stmt} {w w' : World} (hs : s.Neutral) (h : app s w = some w') : Frame w w' := by
  cases s <;> first | exact hs.elim | skip
  case requestAbandon u =>
    simp only [app, Option.some.injEq] at h
    subst h
    apply Frame.map <;> intro r <;> split <;> rfl
  case kill pid =>
    simp only [app, Option.some.injEq] at h
    subst h
    exact .ended w pid SIGKILLED
  case confirmEvidence | requestStop | setRepublished =>
    simp only [app, Option.some.injEq] at h
    subst h
    exact .setRow w _ (fun _ => rfl) fun _ => rfl
  all_goals
    simp only [app, Option.some.injEq, Option.ite_none_right_eq_some, Option.ite_none_left_eq_some] at h
    first
    | (subst h; exact .of_eq rfl rfl rfl rfl)
    | (obtain ⟨-, rfl⟩ := h; exact .refl _)

theorem probe_frame {s : Stmt} {pid : Nat} {w w' : World} (hs : s.Probes pid) (h : app s w = some w') : Frame w w' := by
  rcases hs with rfl | rfl | rfl | ⟨t, rfl⟩
  · exact neutral_frame (s := .poll pid) trivial h
  · simp only [app, Option.some.injEq] at h
    exact h ▸ .refl w
  · exact neutral_frame (s := .wait pid) trivial h
  · exact neutral_frame (s := .waitUntil pid t) trivial h

/-- So does everything around the API process. -/
theorem env_frame (x : Env) (w : World) : Frame w (env x w) := by
  cases x with
  | tick | cluster | scoreBatch => exact .of_eq rfl rfl rfl rfl
  | exit pid c => exact .ended w pid c
  | record pid t0 n =>
    simp only [env]
    split
    · exact .setRow w _ (fun _ => rfl) fun _ => rfl
    · exact .refl w
  | evidence | score =>
    simp only [env]
    split
    · exact .of_eq rfl rfl rfl rfl
    · exact .refl w
  | batch c t n =>
    -- a row without a state is like no row
    refine ⟨fun e => ?_, fun e => ?_, rfl, rfl, fun _ _ h => h⟩
    · simp only [env, World.stateOf, List.getElem?_append]
      split
      · rfl
      · rename_i hlt
        rw [List.getElem?_eq_none (Nat.le_of_not_lt hlt)]
        cases hz : e - w.episodes.length <;> simp
    · simp only [env, World.pidOf, List.getElem?_append]
      split
      · rfl
      · rename_i hlt
        rw [List.getElem?_eq_none (Nat.le_of_not_lt hlt)]
        cases hz : e - w.episodes.length <;> simp

/-! ## What a phase says -/

namespace World

def InFlight (w : World) (e : Nat) : Prop := ∃ s, w.stateOf e = some s ∧ s ∈ NON_TERMINAL_EPISODE_STATES

/-- `injecting` or `holding`. -/
def Injecting (w : World) (e : Nat) : Prop := ∃ s, w.stateOf e = some s ∧ s.Unsettled

/-- `awaiting_fix` or later. -/
def Past (w : World) (e : Nat) : Prop := ∃ s, w.stateOf e = some s ∧ ¬ s.Unsettled

/-- `resolving` or later. -/
def Claimed (w : World) (e : Nat) : Prop := ∃ s, w.stateOf e = some s ∧ ¬ s.Unsettled ∧ s ≠ awaitingFix

variable {w : World} {e : Nat}

theorem Injecting.inFlight (h : w.Injecting e) : w.InFlight e := by
  obtain ⟨s, hs, rfl | rfl⟩ := h <;> exact ⟨_, hs, by decide⟩

theorem Injecting.not_past (h : w.Injecting e) : ¬ w.Past e := by
  obtain ⟨s, hs, hu⟩ := h
  rintro ⟨s', hs', hu'⟩
  rw [hs] at hs'
  exact hu' (Option.some.inj hs' ▸ hu)

theorem Claimed.past (h : w.Claimed e) : w.Past e := by
  obtain ⟨s, hs, hu, -⟩ := h
  exact ⟨s, hs, hu⟩

theorem Claimed.ne_awaiting (h : w.Claimed e) : w.stateOf e ≠ some awaitingFix := by
  obtain ⟨s, hs, -, hn⟩ := h
  rw [hs]
  simpa using hn

theorem Injecting.ne_awaiting (h : w.Injecting e) : w.stateOf e ≠ some awaitingFix := by
  obtain ⟨s, hs, rfl | rfl⟩ := h <;> simp [hs]

theorem Injecting.ne_none (h : w.Injecting e) : w.stateOf e ≠ none := by
  obtain ⟨s, hs, -⟩ := h
  simp [hs]

theorem Past.ne_none (h : w.Past e) : w.stateOf e ≠ none := by
  obtain ⟨s, hs, -⟩ := h
  simp [hs]

theorem inFlight_iff : w.inFlight = true ↔ ∃ e, w.InFlight e := by
  simp only [inFlight, InFlight, stateOf, List.any_eq_true]
  constructor
  · rintro ⟨r, hr, hs⟩
    obtain ⟨e, he⟩ := List.mem_iff_getElem?.1 hr
    cases hst : r.episodeState with
    | none => simp [hst] at hs
    | some s => exact ⟨e, s, by simp [he, hst], by simpa [hst] using hs⟩
  · rintro ⟨e, s, hs, hn⟩
    obtain ⟨r, hr, hst⟩ := Option.bind_eq_some_iff.1 hs
    exact ⟨r, List.mem_of_getElem? hr, by simpa [hst] using hn⟩

end World

namespace Phase

/-- The thread has yet to bring `e` past its injection. -/
def Arms (e : Nat) : Phase → Prop
  | launching e' _ | fresh e' | forked e' _ | tracked e' _ | reaped e' | doomed e' => e' = e
  | reconciling rows _ => ∃ y ∈ rows, y.episode = e ∧ y.state.Unsettled
  | _ => False

/-- The thread resolves `e`, or is to close it after a crash. -/
def Owns (e : Nat) : Phase → Prop
  | owner e' _ | scoring e' _ | rescuing e' => e' = e
  | reconciling rows _ => ∃ y ∈ rows, y.episode = e ∧ y.state = resolving
  | _ => False

/-- The thread has brought `e` past its injection. -/
def Passed (e : Nat) : Phase → Prop
  | armed e' | late e' | spent e' _ _ => e' = e
  | _ => False

def Locks : Phase → Prop
  | admitting | admitted | launching _ true => True
  | _ => False

def Startup : Phase → Prop
  | starting | reconciling _ _ => True
  | _ => False

/-- What a thread in phase `φ` can rely on. -/
structure Fits (φ : Phase) (w : World) : Prop where
  arms : ∀ e, φ.Arms e → w.Injecting e
  owns : ∀ e, φ.Owns e → w.Claimed e
  passed : ∀ e, φ.Passed e → w.Past e
  free : φ = admitted → ∀ e, ¬ w.InFlight e
  locked : φ.Locks → w.locked = true
  startup : φ.Startup → w.status = .starting
  idle : φ = starting → w.abandonTimers = []

/-- What two threads cannot be in at once. -/
def Clash (φ ψ : Phase) : Prop :=
  (∃ e, (φ.Arms e ∨ φ.Owns e) ∧ (ψ.Arms e ∨ ψ.Owns e)) ∨ (φ.Locks ∧ ψ.Locks) ∨ (φ.Startup ∧ ψ.Startup) ∨
    φ = starting ∨ ψ = starting

theorem Clash.symm {φ ψ : Phase} (h : Clash φ ψ) : Clash ψ φ := by
  rcases h with ⟨e, h1, h2⟩ | ⟨h1, h2⟩ | ⟨h1, h2⟩ | h | h
  · exact .inl ⟨e, h2, h1⟩
  · exact .inr (.inl ⟨h2, h1⟩)
  · exact .inr (.inr (.inl ⟨h2, h1⟩))
  · exact .inr (.inr (.inr (.inr h)))
  · exact .inr (.inr (.inr (.inl h)))

end Phase

open Function in
/-- What a statement of a thread in phase `φ` does to the states. -/
inductive Step (φ : Phase) (w : World) : (Nat → Option EpisodeState) → Prop
  | same : Step φ w w.stateOf
  | advance {e} (s) : φ.Arms e → Step φ w (update w.stateOf e (some s))
  | finish {e s} : φ.Owns e ∨ φ.Passed e → s ∈ TERMINAL_EPISODE_STATES → Step φ w (update w.stateOf e (some s))
  | claim {e} : w.stateOf e = some awaitingFix → Step φ w (update w.stateOf e (some resolving))
  | insert {e} : φ = .admitted → w.stateOf e = none → Step φ w (update w.stateOf e (some injecting))

/-- A write to a row that has a state. -/
theorem stateOf_setState {w w' : World} {e : Nat} {s : EpisodeState} {x : Extra} (h : app (.setState e s x) w = some w')
    (hs : w.stateOf e ≠ none) : w'.stateOf = Function.update w.stateOf e (some s) := by
  simp only [app, Option.some.injEq] at h
  subst h
  funext e'
  rw [stateOf_setRow, Function.update_apply]
  split
  · cases hr : w.episodes[e]? with
    | none => simp [World.stateOf, hr] at hs
    | some r => rfl
  · rfl

theorem stateOf_insert {w w' : World} {c : String} {u : Option String} (h : app (.insertEpisode c u) w = some w') :
    w.stateOf w.episodes.length = none ∧ w'.stateOf = Function.update w.stateOf w.episodes.length (some injecting) := by
  simp only [app, Option.some.injEq] at h
  subst h
  refine ⟨by simp [World.stateOf], ?_⟩
  funext e'
  rw [Function.update_apply]
  simp only [World.stateOf, List.getElem?_append]
  split
  · rename_i hlt
    rw [if_neg (Nat.ne_of_lt hlt)]
  · rename_i hlt
    by_cases he : e' = w.episodes.length
    · subst he
      simp
    · have hz : e' - w.episodes.length ≠ 0 := by omega
      rw [if_neg he, List.getElem?_eq_none (Nat.le_of_not_lt hlt)]
      cases hk : e' - w.episodes.length with
      | zero => exact absurd hk hz
      | succ n => simp

theorem stateOf_claim {w w' : World} {e : Nat} (h : app (.claim e) w = some w') (hs : w.stateOf e = some awaitingFix) :
    w'.stateOf = Function.update w.stateOf e (some resolving) := by
  simp only [app, if_pos hs, Option.some.injEq] at h
  subst h
  funext e'
  rw [stateOf_setRow, Function.update_apply]
  split
  · cases hr : w.episodes[e]? with
    | none => simp [World.stateOf, hr] at hs
    | some r => rfl
  · rfl

theorem stateOf_setPid {w w' : World} {e pid : Nat} (h : app (.setPid e pid) w = some w') : w'.stateOf = w.stateOf := by
  simp only [app, Option.some.injEq] at h
  subst h
  funext e'
  rw [stateOf_setRow]
  split
  · rename_i h
    subst h
    rfl
  · rfl

theorem mayFail_cases {φ : Phase} {e : Nat} {g : Bool} (h : φ.mayFail e = some g) :
    φ.Arms e ∨ φ.Owns e ∨ φ.Passed e := by
  cases φ <;> simp only [Phase.mayFail, Option.ite_none_right_eq_some, reduceCtorEq] at h
  case spent e' s g' =>
    cases s <;> cases g' <;> simp only [Option.ite_none_right_eq_some, reduceCtorEq] at h
    exact .inr (.inr h.1)
  case fresh | reaped | doomed => exact .inl h.1
  case late => exact .inr (.inr h.1)
  case rescuing | scoring => exact .inr (.inl h.1)

/-- Who may fail an episode knows its state. -/
theorem ne_none_of_mayFail {φ : Phase} {w : World} {e : Nat} {g : Bool} (hf : φ.Fits w) (hm : φ.mayFail e = some g) :
    w.stateOf e ≠ none := by
  rcases mayFail_cases hm with h | h | h
  · exact (hf.arms _ h).ne_none
  · exact (hf.owns _ h).past.ne_none
  · exact (hf.passed _ h).ne_none

theorem rule_step {φ φ' : Phase} {s : Stmt} {w w' : World} (hf : φ.Fits w) (hr : Rule φ s w φ') (ha : app s w = some w') :
    Step φ w w'.stateOf := by
  have hsame : w'.stateOf = w.stateOf → Step φ w w'.stateOf := by
    intro h
    rw [h]
    exact .same
  cases hr with
  | neutral _ hn => exact hsame (funext (neutral_frame hn ha).state)
  | insert =>
    obtain ⟨h1, h2⟩ := stateOf_insert ha
    rw [h2]
    exact .insert rfl h1
  | hold =>
    rw [stateOf_setState ha (hf.arms _ rfl).ne_none]
    exact .advance _ rfl
  | arm =>
    rw [stateOf_setState ha (hf.arms _ rfl).ne_none]
    exact .advance _ rfl
  | fail hm =>
    rcases mayFail_cases hm with h | h | h
    · rw [stateOf_setState ha (hf.arms _ h).ne_none]
      exact .advance _ h
    · rw [stateOf_setState ha (hf.owns _ h).past.ne_none]
      exact .finish (.inl h) (by decide)
    · rw [stateOf_setState ha (hf.passed _ h).ne_none]
      exact .finish (.inr h) (by decide)
  -- Gate 2 is the one step to `resolving`, whoever takes it.
  | claimArmed hs | claim hs =>
    rw [stateOf_claim ha hs]
    exact .claim hs
  | resolved =>
    rw [stateOf_setState ha (hf.owns _ rfl).past.ne_none]
    exact .finish (.inl rfl) (by decide)
  | settle hy hu =>
    rw [stateOf_setState ha (hf.arms _ ⟨_, hy, rfl, hu⟩).ne_none]
    exact .advance _ ⟨_, hy, rfl, hu⟩
  | close hy hu hs =>
    rw [stateOf_setState ha (hf.owns _ ⟨_, hy, rfl, hu⟩).past.ne_none]
    exact .finish (.inl ⟨_, hy, rfl, hu⟩) (by rcases hs with rfl | rfl <;> decide)
  | lose _ hs =>
    simp only [app, if_neg hs, Option.some.injEq] at ha
    exact hsame (by rw [ha])
  | setPid => exact hsame (stateOf_setPid ha)
  | reap hp => exact hsame (funext (probe_frame hp ha).state)
  | kill => exact hsame (funext (neutral_frame (s := .kill _) trivial ha).state)
  | acquire =>
    simp only [app, Option.ite_none_left_eq_some, Option.some.injEq] at ha
    obtain ⟨-, rfl⟩ := ha
    exact hsame rfl
  | publish =>
    simp only [app, Option.ite_none_right_eq_some, Option.some.injEq] at ha
    exact hsame (by rw [ha.2])
  | resolve | probe | free | release | giveUp | launch | popen | score | connect | select | gone | watch | serve =>
    simp only [app, Option.some.injEq] at ha
    subst ha
    exact hsame rfl

/-! ## Others' statements -/

section Others
variable {φ φ' ψ : Phase} {s : Stmt} {w w' : World}

/-- The lock is released by who holds it. -/
theorem rule_locked (hr : Rule φ s w φ') (ha : app s w = some w') : φ.Locks ∨ w'.locked = w.locked ∨ w.locked = false := by
  cases hr with
  | neutral _ hn => exact .inr (.inl (neutral_frame hn ha).locked)
  | reap hp => exact .inr (.inl (probe_frame hp ha).locked)
  | kill => exact .inr (.inl (neutral_frame (s := .kill _) trivial ha).locked)
  | release => exact .inl trivial
  | giveUp h => rcases h with rfl | rfl <;> exact .inl trivial
  | acquire =>
    cases hl : w.locked with
    | false => exact .inr (.inr rfl)
    | true => simp [app, hl] at ha
  | publish =>
    simp only [app, Option.ite_none_right_eq_some, Option.some.injEq] at ha
    exact .inr (.inl (by rw [ha.2]))
  | claimArmed hs | claim hs =>
    simp only [app, if_pos hs, Option.some.injEq] at ha
    subst ha
    exact .inr (.inl rfl)
  | lose _ hs =>
    simp only [app, if_neg hs, Option.some.injEq] at ha
    exact .inr (.inl (by rw [ha]))
  | _ =>
    simp only [app, Option.some.injEq] at ha
    subst ha
    exact .inr (.inl rfl)

/-- Only the startup handler lets requests in. -/
theorem rule_status (hr : Rule φ s w φ') (ha : app s w = some w') : φ.Startup ∨ w'.status = w.status := by
  cases hr with
  | neutral _ hn => exact .inr (neutral_frame hn ha).status
  | reap hp => exact .inr (probe_frame hp ha).status
  | kill => exact .inr (neutral_frame (s := .kill _) trivial ha).status
  | serve => exact .inl trivial
  | acquire =>
    simp only [app, Option.ite_none_left_eq_some, Option.some.injEq] at ha
    obtain ⟨-, rfl⟩ := ha
    exact .inr rfl
  | publish =>
    simp only [app, Option.ite_none_right_eq_some, Option.some.injEq] at ha
    exact .inr (by rw [ha.2])
  | claimArmed hs | claim hs =>
    simp only [app, if_pos hs, Option.some.injEq] at ha
    subst ha
    exact .inr rfl
  | lose _ hs =>
    simp only [app, if_neg hs, Option.some.injEq] at ha
    exact .inr (by rw [ha])
  | _ =>
    simp only [app, Option.some.injEq] at ha
    subst ha
    exact .inr rfl

/-- What can happen to one episode. -/
theorem Step.at {st : Nat → Option EpisodeState} (h : Step φ w st) (e : Nat) :
    st e = w.stateOf e ∨ φ.Arms e ∨ ((φ.Owns e ∨ φ.Passed e) ∧ ∃ s ∈ TERMINAL_EPISODE_STATES, st e = some s) ∨
      (w.stateOf e = some awaitingFix ∧ st e = some resolving) ∨ (φ = .admitted ∧ w.stateOf e = none ∧ st e = some injecting) := by
  cases h with
  | same => exact .inl rfl
  | @advance e0 s hm =>
    by_cases he : e = e0
    · exact .inr (.inl (he ▸ hm))
    · exact .inl (Function.update_of_ne he ..)
  | @finish e0 s hm hs =>
    by_cases he : e = e0
    · subst he
      exact .inr (.inr (.inl ⟨hm, s, hs, Function.update_self ..⟩))
    · exact .inl (Function.update_of_ne he ..)
  | @claim e0 hs =>
    by_cases he : e = e0
    · subst he
      exact .inr (.inr (.inr (.inl ⟨hs, Function.update_self ..⟩)))
    · exact .inl (Function.update_of_ne he ..)
  | @insert e0 hm hs =>
    by_cases he : e = e0
    · subst he
      exact .inr (.inr (.inr (.inr ⟨hm, hs, Function.update_self ..⟩)))
    · exact .inl (Function.update_of_ne he ..)

theorem terminal_unsettled {s : EpisodeState} (h : s ∈ TERMINAL_EPISODE_STATES) :
    ¬ s.Unsettled ∧ s ≠ awaitingFix ∧ s ∉ NON_TERMINAL_EPISODE_STATES := by
  revert h
  cases s <;> decide

/-- What the others rely on stays true. -/
theorem fits_other (hf : φ.Fits w) (hr : Rule φ s w φ') (ha : app s w = some w') (hψ : ψ.Fits w) (hc : ¬ φ.Clash ψ) :
    ψ.Fits w' := by
  have hstep := rule_step hf hr ha
  constructor
  -- `ψ` speaks of an injection: who could move the episode would clash with it.
  · intro e he
    have hi := hψ.arms e he
    rcases hstep.at e with h | h | ⟨h | h, -⟩ | ⟨h, -⟩ | ⟨-, h, -⟩
    · simpa only [World.Injecting, h] using hi
    · exact absurd (.inl ⟨e, .inl h, .inl he⟩) hc
    · exact absurd (.inl ⟨e, .inr h, .inl he⟩) hc
    · exact absurd (hf.passed e h) hi.not_past
    · exact absurd h hi.ne_awaiting
    · exact absurd h hi.ne_none
  -- `ψ` speaks of a resolve: only the end of the resolve could take the episode away.
  · intro e he
    have hi := hψ.owns e he
    rcases hstep.at e with h | h | ⟨-, s', hs', h⟩ | ⟨h, -⟩ | ⟨-, h, -⟩
    · simpa only [World.Claimed, h] using hi
    · exact absurd (.inl ⟨e, .inl h, .inr he⟩) hc
    · exact ⟨s', h, (terminal_unsettled hs').1, (terminal_unsettled hs').2.1⟩
    · exact absurd h hi.ne_awaiting
    · exact absurd h hi.past.ne_none
  -- An episode past its injection never goes back to it.
  · intro e he
    have hi := hψ.passed e he
    rcases hstep.at e with h | h | ⟨-, s', hs', h⟩ | ⟨-, h⟩ | ⟨-, h, -⟩
    · simpa only [World.Past, h] using hi
    · exact absurd hi (hf.arms e h).not_past
    · exact ⟨s', h, (terminal_unsettled hs').1⟩
    · exact ⟨resolving, h, by decide⟩
    · exact absurd h hi.ne_none
  -- Nothing in flight: a new episode would need the lock that `ψ` holds.
  · rintro rfl e ⟨s', hs', hn⟩
    rcases hstep.at e with h | h | ⟨-, s'', hs'', h⟩ | ⟨h, -⟩ | ⟨rfl, -, -⟩
    · exact hψ.free rfl e ⟨s', h ▸ hs', hn⟩
    · exact hψ.free rfl e (hf.arms e h).inFlight
    · rw [h, Option.some.injEq] at hs'
      exact (terminal_unsettled hs'').2.2 (hs' ▸ hn)
    · exact hψ.free rfl e ⟨_, h, by decide⟩
    · exact hc (.inr (.inl ⟨trivial, trivial⟩))
  · intro hl
    rcases rule_locked hr ha with h | h | h
    · exact absurd (.inr (.inl ⟨h, hl⟩)) hc
    · rw [h]
      exact hψ.locked hl
    · rw [hψ.locked hl] at h
      cases h
  · intro hs
    rcases rule_status hr ha with h | h
    · exact absurd (.inr (.inr (.inl ⟨h, hs⟩))) hc
    · rw [h]
      exact hψ.startup hs
  · intro hs
    exact absurd (.inr (.inr (.inr (.inr hs)))) hc

theorem Phase.Fits.frame (h : φ.Fits w) (hw : Frame w w') (hi : φ = .starting → w'.abandonTimers = []) : φ.Fits w' := by
  refine ⟨?_, ?_, ?_, ?_, ?_, ?_, hi⟩
  · intro e he
    simpa only [World.Injecting, hw.state] using h.arms e he
  · intro e he
    simpa only [World.Claimed, hw.state] using h.owns e he
  · intro e he
    simpa only [World.Past, hw.state] using h.passed e he
  · intro hφ e
    simpa only [World.InFlight, hw.state] using h.free hφ e
  · intro hl
    rw [hw.locked]
    exact h.locked hl
  · intro hs
    rw [hw.status]
    exact h.startup hs

section Fits
attribute [local simp] Phase.Arms Phase.Owns Phase.Passed Phase.Locks Phase.Startup

/-- A phase that only speaks of an injection. -/
theorem fits_arming {e : Nat} (h : w.Injecting e) (hφ : φ = .fresh e ∨ (∃ p, φ = .forked e p) ∨ (∃ p, φ = .tracked e p) ∨
    φ = .reaped e ∨ φ = .doomed e ∨ φ = .launching e false) : φ.Fits w := by
  rcases hφ with rfl | ⟨p, rfl⟩ | ⟨p, rfl⟩ | rfl | rfl | rfl <;>
    refine ⟨?_, by simp, by simp, by simp, by simp, by simp, by simp⟩ <;>
    (rintro _ rfl; exact h)

/-- A phase that only speaks of a resolve. -/
theorem fits_owning {e : Nat} (h : w.Claimed e) (hφ : (∃ g, φ = .owner e g) ∨ (∃ g, φ = .scoring e g) ∨ φ = .rescuing e) :
    φ.Fits w := by
  rcases hφ with ⟨g, rfl⟩ | ⟨g, rfl⟩ | rfl <;>
    refine ⟨by simp, ?_, by simp, by simp, by simp, by simp, by simp⟩ <;>
    (rintro _ rfl; exact h)

/-- A phase that only speaks of an episode past its injection. -/
theorem fits_passed {e : Nat} (h : w.Past e) (hφ : φ = .armed e ∨ φ = .late e ∨ ∃ s g, φ = .spent e s g) : φ.Fits w := by
  rcases hφ with rfl | rfl | ⟨s, g, rfl⟩ <;>
    refine ⟨by simp, by simp, ?_, by simp, by simp, by simp, by simp⟩ <;>
    (rintro _ rfl; exact h)

theorem fits_quiet : Phase.quiet.Fits w := by
  constructor <;> simp

end Fits

theorem mem_without {e : Nat} {rows : List Pending} {y : Pending} : y ∈ without e rows ↔ y ∈ rows ∧ y.episode ≠ e := by
  simp [without]

/-- The startup handler with fewer rows. -/
theorem fits_reconciling {rows rows' : List Pending} {b b' : Bool} (h : (Phase.reconciling rows b).Fits w)
    (hs : ∀ y ∈ rows', ∃ z ∈ rows, z.episode = y.episode ∧ z.state = y.state)
    (hst : ∀ y ∈ rows', w'.stateOf y.episode = w.stateOf y.episode) (hw : w'.status = w.status) :
    (Phase.reconciling rows' b').Fits w' := by
  refine ⟨?_, ?_, by simp [Phase.Passed], by simp, by simp [Phase.Locks], ?_, by simp⟩
  · rintro e ⟨y, hy, rfl, hu⟩
    obtain ⟨z, hz, hze, hzs⟩ := hs y hy
    simpa only [World.Injecting, hst y hy] using h.arms _ ⟨z, hz, hze, hzs ▸ hu⟩
  · rintro e ⟨y, hy, rfl, hu⟩
    obtain ⟨z, hz, hze, hzs⟩ := hs y hy
    simpa only [World.Claimed, hst y hy] using h.owns _ ⟨z, hz, hze, hzs.trans hu⟩
  · intro _
    rw [hw]
    exact h.startup trivial

theorem past_setState {e : Nat} {st : EpisodeState} {x : Extra} (ha : app (.setState e st x) w = some w')
    (he : w.stateOf e ≠ none) : w'.stateOf e = some st := by
  rw [stateOf_setState ha he, Function.update_self]

theorem pendings_state {y : Pending} (h : y ∈ w.pendings) :
    w.stateOf y.episode = some y.state ∧ y.state ∈ NON_TERMINAL_EPISODE_STATES := by
  obtain ⟨r, hr, hs, -⟩ := pendings_mem.1 h
  obtain ⟨he, s', hs', hn⟩ := nonTerminalRows_mem hr
  have hst : s' = y.state := Option.some.inj (hs'.symm.trans hs)
  exact ⟨by simp only [World.stateOf, he, Option.bind_some, hs], hst ▸ hn⟩

/-- What the thread itself can rely on afterwards. -/
theorem fits_own (hf : φ.Fits w) (hr : Rule φ s w φ') (ha : app s w = some w') : φ'.Fits w' := by
  cases hr with
  | neutral hn hs => exact hf.frame (neutral_frame hs ha) fun h => absurd h hn
  | resolve hn | probe hn =>
    simp only [app, Option.some.injEq] at ha
    exact ha ▸ hf
  | acquire =>
    simp only [app, Option.ite_none_left_eq_some, Option.some.injEq] at ha
    obtain ⟨-, rfl⟩ := ha
    constructor <;> simp [Phase.Arms, Phase.Owns, Phase.Passed, Phase.Startup]
  -- The count under the lock was zero.
  | free hfree =>
    simp only [app, Option.some.injEq] at ha
    subst ha
    refine ⟨by simp [Phase.Arms], by simp [Phase.Owns], by simp [Phase.Passed], fun _ e he => ?_, fun _ => hf.locked trivial,
      by simp [Phase.Startup], by simp⟩
    rw [World.inFlight_iff.2 ⟨e, he⟩] at hfree
    cases hfree
  | insert =>
    have hst := (stateOf_insert ha).2
    have hl : w'.locked = w.locked := by
      simp only [app, Option.some.injEq] at ha
      rw [← ha]
    refine ⟨?_, by simp [Phase.Owns], by simp [Phase.Passed], by simp, fun _ => ?_, by simp [Phase.Startup], by simp⟩
    · rintro _ rfl
      exact ⟨injecting, by rw [hst, Function.update_self], .inl rfl⟩
    · rw [hl]
      exact hf.locked trivial
  | release =>
    simp only [app, Option.some.injEq] at ha
    subst ha
    exact fits_arming (hf.arms _ rfl) (by simp)
  | giveUp | launch | serve => exact fits_quiet
  | popen =>
    simp only [app, Option.some.injEq] at ha
    subst ha
    exact fits_arming (hf.arms _ rfl) (by simp)
  | hold =>
    have hst := past_setState ha (hf.arms _ rfl).ne_none
    exact fits_arming ⟨holding, hst, .inr rfl⟩ (by simp)
  | setPid =>
    refine fits_arming (e := _) ?_ (.inr (.inr (.inl ⟨_, rfl⟩)))
    simpa only [World.Injecting, stateOf_setPid ha] using hf.arms _ rfl
  | reap hp =>
    refine fits_arming (e := _) ?_ (.inr (.inr (.inr (.inl rfl))))
    simpa only [World.Injecting, (probe_frame hp ha).state] using hf.arms _ rfl
  | kill =>
    refine fits_arming (e := _) ?_ (.inr (.inr (.inr (.inl rfl))))
    simpa only [World.Injecting, (neutral_frame (s := .kill _) trivial ha).state] using hf.arms _ rfl
  | arm =>
    have hst := past_setState ha (hf.arms _ rfl).ne_none
    exact fits_passed ⟨awaitingFix, hst, by decide⟩ (by simp)
  | fail hm => exact fits_passed ⟨failed, past_setState ha (ne_none_of_mayFail hf hm), by decide⟩ (by simp)
  | @claimArmed e _ hs | @claim e _ hs =>
    have hst : w'.stateOf e = some resolving := by rw [stateOf_claim ha hs, Function.update_self]
    exact fits_owning ⟨resolving, hst, by decide, by decide⟩ (.inl ⟨_, rfl⟩)
  -- Gate 2 matched no row, and wrote none.
  | lose _ hs =>
    simp only [app, if_neg hs, Option.some.injEq] at ha
    exact ha ▸ hf
  | score =>
    simp only [app, Option.some.injEq] at ha
    subst ha
    exact fits_owning (hf.owns _ rfl) (by simp)
  | resolved =>
    have hst := past_setState ha (hf.owns _ rfl).past.ne_none
    exact fits_passed ⟨_, hst, by decide⟩ (by simp)
  | publish =>
    simp only [app, Option.ite_none_right_eq_some, Option.some.injEq] at ha
    exact ha.2 ▸ hf
  | connect =>
    simp only [app, Option.some.injEq] at ha
    exact ha ▸ hf
  -- What the handler knows of a row is what it has just read.
  | select =>
    simp only [app, Option.some.injEq] at ha
    subst ha
    refine ⟨?_, ?_, by simp [Phase.Passed], by simp, by simp [Phase.Locks], fun _ => hf.startup trivial, by simp⟩
    · rintro e ⟨y, hy, rfl, hu⟩
      exact ⟨y.state, (pendings_state hy).1, hu⟩
    · rintro e ⟨y, hy, rfl, hu⟩
      exact ⟨resolving, hu ▸ (pendings_state hy).1, by decide, by decide⟩
  -- A dead process changes what is known of a row's pid, not its episode or state.
  | @gone rows b pid _ =>
    simp only [app, Option.some.injEq] at ha
    subst ha
    refine fits_reconciling hf ?_ (fun _ _ => rfl) rfl
    intro y hy
    obtain ⟨z, hz, rfl⟩ := List.mem_map.1 hy
    exact ⟨z, hz, by simp, by simp⟩
  -- The row written leaves the list, and the others are of other episodes.
  | @settle rows b x st y _ hy hu | @close rows b x st y _ hy hu =>
    refine fits_reconciling hf ?_ ?_ ?_
    · intro z hz
      exact ⟨z, (mem_without.1 hz).1, rfl, rfl⟩
    · intro z hz
      have hne : w.stateOf y.episode ≠ none := by
        first
        | exact (hf.arms _ ⟨y, hy, rfl, hu⟩).ne_none
        | exact (hf.owns _ ⟨y, hy, rfl, hu⟩).past.ne_none
      rw [stateOf_setState ha hne, Function.update_of_ne (mem_without.1 hz).2]
    · simp only [app, Option.some.injEq] at ha
      rw [← ha]
      rfl
  | watch =>
    simp only [app, Option.some.injEq] at ha
    subst ha
    refine fits_reconciling hf ?_ (fun _ _ => rfl) rfl
    intro z hz
    exact ⟨z, (mem_without.1 hz).1, rfl, rfl⟩

/-- With a pid cleared, the rows are of the same episodes in the same states. -/
theorem cleared_has {rows : List Pending} {b : Bool} {pid e : Nat}
    (h : (Phase.reconciling (rows.map (·.clear pid)) b).Arms e ∨ (Phase.reconciling (rows.map (·.clear pid)) b).Owns e) :
    (Phase.reconciling rows b).Arms e ∨ (Phase.reconciling rows b).Owns e := by
  refine h.imp ?_ ?_ <;>
  · rintro ⟨y, hy, he, hu⟩
    obtain ⟨z, hz, rfl⟩ := List.mem_map.1 hy
    exact ⟨z, hz, by simpa using he, by simpa using hu⟩

/-- An episode comes to a thread by Gate 2, by an insert, or at startup. -/
theorem rule_has {e : Nat} (hr : Rule φ s w φ') (h : φ'.Arms e ∨ φ'.Owns e) :
    (φ.Arms e ∨ φ.Owns e) ∨ w.stateOf e = some awaitingFix ∨ w.stateOf e = none ∨ φ = .starting := by
  cases hr with
  | neutral | resolve | probe | lose | publish => exact .inl h
  | acquire | free | giveUp | launch | arm | fail | resolved | serve => simp [Phase.Arms, Phase.Owns] at h
  | insert =>
    simp only [Phase.Arms, Phase.Owns, or_false] at h
    subst h
    exact .inr (.inr (.inl (by simp [World.stateOf])))
  | claimArmed hs | claim hs =>
    simp only [Phase.Arms, Phase.Owns, false_or] at h
    exact .inr (.inl (h ▸ hs))
  | connect | select => exact .inr (.inr (.inr rfl))
  | gone =>
    exact .inl (cleared_has h)
  | settle | close | watch =>
    left
    refine h.imp ?_ ?_ <;>
    · rintro ⟨y, hy, he, hu⟩
      exact ⟨y, (mem_without.1 hy).1, he, hu⟩
  | _ => exact .inl h

theorem rule_locks (hr : Rule φ s w φ') (ha : app s w = some w') (h : φ'.Locks) : φ.Locks ∨ w.locked = false := by
  cases hr with
  | acquire =>
    simp only [app, Option.ite_none_left_eq_some] at ha
    exact .inr (by simpa using ha.1)
  | free | insert => exact .inl trivial
  | neutral | resolve | probe | lose | publish => exact .inl h
  | _ => simp [Phase.Locks] at h

theorem rule_startup (hr : Rule φ s w φ') (h : φ'.Startup) : φ.Startup := by
  cases hr with
  | neutral | resolve | probe | lose => exact h
  | connect | select | gone | settle | close | watch => trivial
  | _ => simp [Phase.Startup] at h

theorem rule_starting (hr : Rule φ s w φ') (h : φ' = .starting) : φ = .starting := by
  cases hr <;> first | exact h | cases h

/-- A statement brings its thread into nobody's way. -/
theorem rule_apart (hr : Rule φ s w φ') (ha : app s w = some w') (hψ : ψ.Fits w) (hc : ¬ φ.Clash ψ) : ¬ φ'.Clash ψ := by
  rintro (⟨e, h, h'⟩ | ⟨h, h'⟩ | ⟨h, h'⟩ | h | h)
  · have hst : w.stateOf e ≠ some awaitingFix ∧ w.stateOf e ≠ none := by
      rcases h' with h' | h'
      · exact ⟨(hψ.arms e h').ne_awaiting, (hψ.arms e h').ne_none⟩
      · exact ⟨(hψ.owns e h').ne_awaiting, (hψ.owns e h').past.ne_none⟩
    rcases rule_has hr h with h | h | h | h
    · exact hc (.inl ⟨e, h, h'⟩)
    · exact hst.1 h
    · exact hst.2 h
    · exact hc (.inr (.inr (.inr (.inl h))))
  · rcases rule_locks hr ha h with h | h
    · exact hc (.inr (.inl ⟨h, h'⟩))
    · rw [hψ.locked h'] at h
      cases h
  · exact hc (.inr (.inr (.inl ⟨rule_startup hr h, h'⟩)))
  · exact hc (.inr (.inr (.inr (.inl (rule_starting hr h)))))
  · exact hc (.inr (.inr (.inr (.inr h))))

/-- An exception takes nothing up. -/
theorem fault_fits (hf : φ.Fits w) (s : Stmt) : (fault φ s).Fits w := by
  unfold fault
  split
  · exact fits_arming (hf.arms _ rfl) (by simp)
  · exact fits_arming (hf.arms _ rfl) (by simp)
  · exact fits_arming (hf.arms _ rfl) (by simp)
  · exact fits_passed (hf.passed _ rfl) (by simp)
  · exact fits_owning (hf.owns _ rfl) (by simp)
  · exact fits_owning (hf.owns _ rfl) (by simp)
  · exact fits_quiet
  · exact fits_quiet
  · exact hf
  · exact fits_quiet
  · exact hf
  · exact fits_passed (hf.passed _ rfl) (by simp)
  · refine fits_reconciling hf ?_ (fun _ _ => rfl) rfl
    intro y hy
    obtain ⟨z, hz, rfl⟩ := List.mem_map.1 hy
    exact ⟨z, hz, by simp, by simp⟩
  · exact fits_reconciling hf (fun y hy => ⟨y, hy, rfl, rfl⟩) (fun _ _ => rfl) rfl
  · exact hf

theorem fault_has {e : Nat} (h : (fault φ s).Arms e ∨ (fault φ s).Owns e) : φ.Arms e ∨ φ.Owns e := by
  unfold fault at h
  split at h
  case h_13 =>
    exact cleared_has h
  all_goals first | exact h | simp [Phase.Arms, Phase.Owns] at h

theorem fault_apart (hc : ¬ φ.Clash ψ) (s : Stmt) : ¬ (fault φ s).Clash ψ := by
  rintro (⟨e, h, h'⟩ | ⟨h, h'⟩ | ⟨h, h'⟩ | h | h)
  · exact hc (.inl ⟨e, fault_has h, h'⟩)
  · refine hc (.inr (.inl ⟨?_, h'⟩))
    unfold fault at h
    split at h <;> exact h
  · refine hc (.inr (.inr (.inl ⟨?_, h'⟩)))
    unfold fault at h
    split at h <;> exact h
  · refine hc (.inr (.inr (.inr (.inl ?_))))
    unfold fault at h
    split at h <;> first | exact h | cases h
  · exact hc (.inr (.inr (.inr (.inr h))))

end Others

/-! ## Every run -/

/-- What holds of the threads and the tables together. -/
structure Lifecycle (w : World) (ph : Nat → Option Phase) : Prop where
  fits : ∀ i φ, ph i = some φ → φ.Fits w
  apart : ∀ i j φ ψ, i ≠ j → ph i = some φ → ph j = some ψ → ¬ φ.Clash ψ
  single : ∀ e e', w.InFlight e → w.InFlight e' → e = e'
  down : w.status = .down → (∀ i, ph i = none) ∧ w.abandonTimers = []

section Run
variable {w w' : World} {ph : Nat → Option Phase} {i : Nat} {φ φ' : Phase} {s : Stmt}

theorem Lifecycle.up (h : Lifecycle w ph) (hi : ph i = some φ) : w.status ≠ .down := by
  intro hd
  rw [(h.down hd).1 i] at hi
  cases hi

/-- Who is in flight was so before, or is the one inserted when nothing was. -/
theorem inFlight_step (hf : φ.Fits w) (hs : Step φ w w'.stateOf) {e : Nat} (he : w'.InFlight e) :
    w.InFlight e ∨ (φ = .admitted ∧ ∀ e', e' ≠ e → w'.stateOf e' = w.stateOf e') := by
  obtain ⟨s', hs', hn⟩ := he
  rcases hs.at e with h | h | ⟨-, s'', hs'', h⟩ | ⟨h, -⟩ | ⟨hφ, h, -⟩
  · exact .inl ⟨s', h ▸ hs', hn⟩
  · exact .inl (hf.arms e h).inFlight
  · rw [h, Option.some.injEq] at hs'
    exact absurd (hs' ▸ hn) (terminal_unsettled hs'').2.2
  · exact .inl ⟨_, h, by decide⟩
  · refine .inr ⟨hφ, fun e' hne => ?_⟩
    subst hφ
    generalize hst : w'.stateOf = st at hs hs'
    cases hs with
    | same => rfl
    | advance _ ha => exact ha.elim
    | finish ha => exact ha.elim False.elim False.elim
    | @claim e0 hc => exact absurd ⟨_, hc, by decide⟩ (hf.free rfl e0)
    | @insert e0 _ h0 =>
      by_cases he0 : e = e0
      · subst he0
        exact Function.update_of_ne hne ..
      · rw [Function.update_of_ne he0, h] at hs'
        cases hs'

/-- At most one episode in flight, after one statement. -/
theorem single_step (hf : φ.Fits w) (hs : Step φ w w'.stateOf) (h : ∀ e e', w.InFlight e → w.InFlight e' → e = e') :
    ∀ e e', w'.InFlight e → w'.InFlight e' → e = e' := by
  have hins : ∀ e e', (φ = .admitted ∧ ∀ e', e' ≠ e → w'.stateOf e' = w.stateOf e') → w'.InFlight e' → e = e' := by
    rintro e e' ⟨hφ, heq⟩ ⟨s', hs', hn⟩
    by_contra hne
    rw [heq e' (Ne.symm hne)] at hs'
    exact hf.free hφ e' ⟨s', hs', hn⟩
  intro e e' he he'
  rcases inFlight_step hf hs he with h1 | h1
  · rcases inFlight_step hf hs he' with h2 | h2
    · exact h e e' h1 h2
    · exact (hins e' e h2 he).symm
  · exact hins e e' h1 he'

theorem app_status (ha : app s w = some w') : w'.status = w.status ∨ w'.status = .serving := by
  cases s <;> simp only [app, Option.some.injEq, Option.ite_none_left_eq_some, Option.ite_none_right_eq_some] at ha
  case serve =>
    subst ha
    exact .inr rfl
  case claim =>
    left
    subst ha
    split <;> rfl
  all_goals
    left
    first
    | (subst ha; rfl)
    | (obtain ⟨-, rfl⟩ := ha; rfl)

/-- A statement of thread `i`. -/
theorem Lifecycle.exec (h : Lifecycle w ph) (hi : ph i = some φ) (hr : Rule φ s w φ') (ha : app s w = some w') :
    Lifecycle w' (Function.update ph i (some φ')) := by
  have hf := h.fits i φ hi
  refine ⟨?_, ?_, single_step hf (rule_step hf hr ha) h.single, ?_⟩
  · intro j ψ hj
    rcases of_update hj with ⟨rfl, rfl⟩ | ⟨hji, hj⟩
    · exact fits_own hf hr ha
    · exact fits_other hf hr ha (h.fits j ψ hj) (h.apart i j φ ψ (Ne.symm hji) hi hj)
  · apply apart_update (fun _ _ => Phase.Clash.symm) h.apart
    intro k χ hki hk
    exact rule_apart hr ha (h.fits k χ hk) (h.apart i k φ χ (Ne.symm hki) hi hk)
  · intro hd
    rcases app_status ha with hst | hst
    · exact absurd (hst ▸ hd) (h.up hi)
    · rw [hd] at hst
      cases hst

/-- A new thread that is in nobody's way. -/
theorem Lifecycle.add (h : Lifecycle w ph) {n : Nat} {ψ : Phase} (hψ : ψ.Fits w)
    (hc : ∀ j φ, ph j = some φ → ¬ ψ.Clash φ) (hs : w.status ≠ .down) : Lifecycle w (Function.update ph n (some ψ)) := by
  refine ⟨?_, ?_, h.single, fun hd => absurd hd hs⟩
  · intro j χ hj
    rcases of_update hj with ⟨rfl, rfl⟩ | ⟨-, hj⟩
    · exact hψ
    · exact h.fits j χ hj
  · apply apart_update (fun _ _ => Phase.Clash.symm) h.apart
    intro k χ _ hk
    exact hc k χ hk

theorem Lifecycle.fail (h : Lifecycle w ph) (hi : ph i = some φ) (s : Stmt) :
    Lifecycle w (Function.update ph i (some (fault φ s))) := by
  refine ⟨?_, ?_, h.single, fun hd => absurd hd (h.up hi)⟩
  · intro j ψ hj
    rcases of_update hj with ⟨rfl, rfl⟩ | ⟨-, hj⟩
    · exact fault_fits (h.fits j φ hi) s
    · exact h.fits j ψ hj
  · apply apart_update (fun _ _ => Phase.Clash.symm) h.apart
    intro k χ hki hk
    exact fault_apart (h.apart i k φ χ (Ne.symm hki) hi hk) s

theorem Lifecycle.frame (h : Lifecycle w ph) (hw : Frame w w') (ht : w'.abandonTimers = [] ∨ ∀ i, ph i ≠ some .starting)
    (hd : w.status = .down → w'.abandonTimers = []) : Lifecycle w' ph := by
  refine ⟨?_, h.apart, ?_, ?_⟩
  · intro j ψ hj
    refine (h.fits j ψ hj).frame hw ?_
    rintro rfl
    exact ht.resolve_right fun hn => hn j hj
  · intro e e' he he'
    refine h.single e e' ?_ ?_
    · simpa only [World.InFlight, hw.state] using he
    · simpa only [World.InFlight, hw.state] using he'
  · intro hd'
    rw [hw.status] at hd'
    exact ⟨(h.down hd').1, hd hd'⟩

/-- The thread that a statement starts is in nobody's way either. -/
theorem spawn_apart (h : Lifecycle w ph) (hi : ph i = some φ) (hr : Rule φ s w φ') {j : Job} (hs : spawns s = some j) :
    j.entry.Fits w ∧ ¬ j.entry.Clash φ' ∧ ∀ k ψ, k ≠ i → ph k = some ψ → ¬ j.entry.Clash ψ := by
  obtain rfl := eq_of_spawns hs
  have hf := h.fits i φ hi
  have hstart : ∀ k ψ, k ≠ i → ph k = some ψ → ψ ≠ .starting := by
    rintro k ψ hk hψ rfl
    exact h.apart i k φ _ (Ne.symm hk) hi hψ (.inr (.inr (.inr (.inr rfl))))
  cases hr with
  | neutral _ hn => exact hn.elim
  | reap hp => simp [Stmt.Probes] at hp
  -- A resolver has no episode until it wins Gate 2.
  | resolve hn =>
    refine ⟨?_, ?_, ?_⟩
    · constructor <;> simp [Job.entry, Phase.Arms, Phase.Owns, Phase.Passed, Phase.Locks, Phase.Startup]
    · simpa [Phase.Clash, Job.entry, Phase.Arms, Phase.Owns, Phase.Locks, Phase.Startup] using hn
    · intro k ψ hk hψ
      simpa [Phase.Clash, Job.entry, Phase.Arms, Phase.Owns, Phase.Locks, Phase.Startup] using hstart k ψ hk hψ
  -- The wrapper takes the episode over from the endpoint.
  | @launch e c =>
    refine ⟨fits_arming (hf.arms e rfl) (.inl rfl), ?_, ?_⟩
    · simp [Phase.Clash, Job.entry, Phase.Arms, Phase.Owns, Phase.Locks, Phase.Startup]
    · rintro k ψ hk hψ (⟨e', h1, h2⟩ | ⟨h1, -⟩ | ⟨h1, -⟩ | h1 | h1)
      · exact h.apart i k _ ψ (Ne.symm hk) hi hψ (.inl ⟨e', h1, h2⟩)
      · exact h1.elim
      · exact h1.elim
      · cases h1
      · exact hstart k ψ hk hψ h1
  -- The watcher takes one row over from the startup handler.
  | @watch rows b y pid _ hy hu hp =>
    refine ⟨fits_arming (hf.arms _ ⟨y, hy, rfl, hu⟩) (.inr (.inr (.inl ⟨pid, rfl⟩))), ?_, ?_⟩
    · rintro (⟨e', h1, h2⟩ | ⟨h1, -⟩ | ⟨h1, -⟩ | h1 | h1)
      · simp only [Job.entry, Phase.Arms, Phase.Owns, or_false] at h1
        subst h1
        rcases h2 with ⟨z, hz, he, -⟩ | ⟨z, hz, he, -⟩ <;> exact (mem_without.1 hz).2 he
      · exact h1.elim
      · exact h1.elim
      · cases h1
      · cases h1
    · rintro k ψ hk hψ (⟨e', h1, h2⟩ | ⟨h1, -⟩ | ⟨h1, -⟩ | h1 | h1)
      · simp only [Job.entry, Phase.Arms, Phase.Owns, or_false] at h1
        subst h1
        exact h.apart i k _ ψ (Ne.symm hk) hi hψ (.inl ⟨_, .inl ⟨y, hy, rfl, hu⟩, h2⟩)
      · exact h1.elim
      · exact h1.elim
      · cases h1
      · exact hstart k ψ hk hψ h1

/-- The jobs that requests, a timer or the start of the process bring. -/
theorem Lifecycle.post (h : Lifecycle w ph) {j : Job} {n : Nat} (hp : Live.post j w = some w') :
    Lifecycle w' (Function.update ph n (some j.entry)) := by
  have hquiet : ∀ {ψ : Phase}, ψ = .asking ∨ ψ = .quiet ∨ (∃ e, ψ = .resolver e) → ψ.Fits w' ∧
      ∀ φ, φ ≠ .starting → ¬ ψ.Clash φ := by
    rintro ψ (rfl | rfl | ⟨e, rfl⟩) <;>
      refine ⟨by constructor <;> simp [Phase.Arms, Phase.Owns, Phase.Passed, Phase.Locks, Phase.Startup], fun φ hφ => ?_⟩ <;>
      simpa [Phase.Clash, Phase.Arms, Phase.Owns, Phase.Locks, Phase.Startup] using hφ
  have hserving : w.status = .serving → ∀ k φ, ph k = some φ → φ ≠ .starting := by
    rintro hs k φ hk rfl
    have := (h.fits k _ hk).startup trivial
    rw [hs] at this
    cases this
  cases j with
  | triggerInject =>
    simp only [Live.post, Option.ite_none_right_eq_some, Option.some.injEq] at hp
    obtain ⟨hs, rfl⟩ := hp
    have hq := hquiet (ψ := .asking) (.inl rfl)
    exact h.add hq.1 (fun k φ hk => hq.2 φ (hserving hs k φ hk)) (by simp [hs])
  | triggerStopHold | triggerResolve | logout =>
    simp only [Live.post, Option.ite_none_right_eq_some, Option.some.injEq] at hp
    obtain ⟨hs, rfl⟩ := hp
    have hq := hquiet (ψ := .quiet) (.inr (.inl rfl))
    exact h.add hq.1 (fun k φ hk => hq.2 φ (hserving hs k φ hk)) (by simp [hs])
  | onStartup =>
    simp only [Live.post, Option.ite_none_right_eq_some, Option.some.injEq] at hp
    obtain ⟨hs, rfl⟩ := hp
    obtain ⟨hn, ht⟩ := h.down hs
    have h' : Lifecycle { w with status := .starting } ph := by
      refine ⟨fun i φ hi => ?_, h.apart, h.single, fun hd => by cases hd⟩
      rw [hn i] at hi
      cases hi
    refine h'.add ?_ (fun k φ hk => ?_) (by simp)
    · constructor <;> simp [Job.entry, Phase.Arms, Phase.Owns, Phase.Passed, Phase.Locks, ht]
    · rw [hn k] at hk
      cases hk
  | attemptResolve e t =>
    cases t with
    | autoResolve =>
      simp only [Live.post, Option.ite_none_right_eq_some, Option.some.injEq] at hp
      obtain ⟨hs, rfl⟩ := hp
      have ht : w.abandonTimers ≠ [] := by
        intro ht
        simp [ht] at hs
      have hstart : ∀ k, ph k ≠ some .starting := fun k hk => ht ((h.fits k _ hk).idle rfl)
      have h' : Lifecycle { w with
          abandonTimers := w.abandonTimers.map fun t => if t.episode = e then { t with due := none } else t } ph :=
        h.frame (.of_eq rfl rfl rfl rfl) (.inr hstart) fun hd => absurd (h.down hd).2 ht
      have hq := hquiet (ψ := .resolver e) (by simp)
      exact h'.add hq.1 (fun k φ hk => hq.2 φ fun hs => hstart k (hs ▸ hk)) fun hd => ht (h.down hd).2
    | _ => cases hp
  | _ => cases hp

theorem env_timers (x : Env) (w : World) : (env x w).abandonTimers = w.abandonTimers := by
  cases x with
  | record | evidence | score =>
    simp only [env]
    split <;> rfl
  | _ => rfl

theorem lifecycle_effect {st : State World Stmt Job} {m : Move Job Env} {ph' : Nat → Option Phase}
    {l : List (Event World Stmt)} (h : Lifecycle st.world ph) (he : Effect operatorApi discipline st ph m w' ph' l) :
    Lifecycle w' ph' := by
  cases he with
  | stay => exact h
  | exec _ hi _ hr ha _ => exact h.exec hi hr ha
  | @spawn i j s φ φ' _ j' n _ hi _ hr ha hs hn hne _ =>
    obtain ⟨hf, hc, ho⟩ := spawn_apart h hi hr hs
    have h' := h.exec hi hr ha
    refine h'.add ?_ ?_ (h'.up (i := i) (Function.update_self ..))
    · obtain rfl := eq_of_spawns hs
      simp only [operatorApi, app, Option.some.injEq] at ha
      exact ha ▸ hf
    · intro k ψ hk
      rcases of_update hk with ⟨rfl, rfl⟩ | ⟨hki, hk⟩
      · exact hc
      · exact ho k ψ hki hk
  | fail _ hi _ => exact h.fail hi _
  | post hp _ _ => exact h.post hp
  | env x =>
    refine h.frame (env_frame x _) ?_ fun hd => by rw [operatorApi, env_timers]; exact (h.down hd).2
    by_cases hs : ∃ i, ph i = some .starting
    · obtain ⟨i, hi⟩ := hs
      left
      rw [operatorApi, env_timers]
      exact (h.fits i _ hi).idle rfl
    · exact .inr fun i hi => hs ⟨i, hi⟩
  | kill =>
    refine ⟨by simp, by simp, h.single, fun _ => ⟨fun _ => rfl, rfl⟩⟩

end Run

/-- The world before the API is first started: no episode of the live trigger is
open, and none of its programs runs. -/
structure Initial (w : World) : Prop where
  down : w.status = .down
  timers : w.abandonTimers = []
  settled : ∀ e s, w.stateOf e = some s → s ∈ TERMINAL_EPISODE_STATES
  idle : ∀ p, w.running p = none

/-- The API, not yet started. -/
def boot (w : World) : State World Stmt Job := ⟨w, [], []⟩

theorem agrees_boot (w : World) : Agrees operatorApi discipline (boot w) fun _ => none :=
  ⟨by simp [boot], fun _ _ => rfl, by simp [boot]⟩

theorem lifecycle_boot {w : World} (h : Initial w) : Lifecycle w fun _ => none := by
  refine ⟨by simp, by simp, ?_, fun _ => ⟨fun _ => rfl, h.timers⟩⟩
  rintro e e' ⟨s, hs, hn⟩ -
  exact absurd hn (terminal_unsettled (h.settled e s hs)).2.2

/-- After any run, threads in phases that the lifecycle allows. -/
theorem lifecycle_run {w : World} (h : Initial w) (ms : List (Move Job Env)) :
    ∃ ph, Agrees operatorApi discipline (operatorApi.run (boot w) ms) ph ∧
      Lifecycle (operatorApi.run (boot w) ms).world ph :=
  operatorApi.invariant operatorApi_sound (fun _ _ => True) (fun w ph _ => Lifecycle w ph)
    (fun _ _ _ _ _ _ _ h _ he => lifecycle_effect h he) (agrees_boot w) (lifecycle_boot h) ms
    (operatorApi.admits_true ms)

/-- At most one live episode is in a non-terminal state, whatever requests,
threads, timers, exceptions, programs and restarts do. -/
theorem single_live_episode {w : World} (h : Initial w) (ms : List (Move Job Env)) (e e' : Nat)
    (he : (operatorApi.run (boot w) ms).world.InFlight e) (he' : (operatorApi.run (boot w) ms).world.InFlight e') :
    e = e' := by
  obtain ⟨ph, -, hl⟩ := lifecycle_run h ms
  exact hl.single e e' he he'

/-- `n` statements of thread `i`. -/
def turns (i n : Nat) : List (Move Job Env) := List.replicate n (.step i)

/-- No row and no program yet. -/
def idle : World := ⟨[], [], [], [], [], [], 0, 0, false, true, true, .down, false, [], false⟩

theorem initial_idle : Initial idle := ⟨rfl, rfl, by simp [idle, World.stateOf], by simp [idle, World.running]⟩

/-- The API comes up; two requests pass their checks before either holds the lock. -/
def twoRequests : List (Move Job Env) :=
  .post .onStartup :: turns 0 4 ++
    [.post (.triggerInject "bad-rollout" .admin none ""), .post (.triggerInject "oom" .admin none ""), .step 1, .step 2] ++
    turns 1 5 ++ turns 2 9

/-- The row that one of two requests at once leaves is the only one. -/
theorem single_live_episode_two : 0 = (operatorApi.run (boot idle) twoRequests).world.episodes.length - 1 :=
  single_live_episode initial_idle twoRequests 0 _ ⟨injecting, rfl, by decide⟩ ⟨injecting, rfl, by decide⟩

end Wardence.Live
