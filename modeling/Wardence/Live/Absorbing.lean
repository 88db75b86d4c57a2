import Wardence.Live.Gate
/-!
# Terminal states

`_set_episode_state` is an unconditional `UPDATE`. A terminal state stays as long
as no exception guard is entered for an episode that its thread no longer owns:
the guards of `_run_live_episode` and `_wait_for_orphan` write `failed` whatever
has become of the episode.
-/
namespace Wardence.Live

open Threads EpisodeState

/-- Thread `i` raises under the guard of episode `e`, past the injection, when
`e` is not the thread's own to resolve (any more). What publishing raises is
caught before the guard, and over `failed` the guard changes nothing. -/
def LateRaise (st : State World Stmt Job) (m : Move Job Env) : Prop :=
  ∃ i j s e, m = .fail i ∧ st.next i = some (j, s) ∧ j.guarded = some e ∧ ¬ st.world.Injecting e ∧
    st.world.stateOf e ≠ some failed ∧ ¬ (Won st.log i e ∧ (st.world.stateOf e = some resolving ∨ s = .publish))

/-- What the phases say, without late exceptions. -/
structure Exact (w : World) (ph : Nat → Option Phase) : Prop where
  owns : ∀ i φ e, ph i = some φ → φ.Owns e → w.stateOf e = some resolving
  late : ∀ i e, ph i = some (.late e) → w.stateOf e = some failed
  spent : ∀ i e s g, ph i = some (.spent e s g) → w.stateOf e = some s ∧ s ∈ TERMINAL_EPISODE_STATES

section Rules
variable {φ φ' : Phase} {s : Stmt} {w w' : World} {ph ph' : Nat → Option Phase} {log l : List (Event World Stmt)}

/-- A probe that finds no process leaves the handler the rows it has to close. -/
theorem owns_clear {e pid : Nat} {rows : List Pending} {b b' : Bool}
    (h : (Phase.reconciling (rows.map (·.clear pid)) b).Owns e) : (Phase.reconciling rows b').Owns e := by
  obtain ⟨y, hy, he, hu⟩ := h
  obtain ⟨z, hz, rfl⟩ := List.mem_map.1 hy
  exact ⟨z, hz, by simpa using he, by simpa using hu⟩

/-- What a thread can still do to an episode that it has brought past its injection. -/
theorem rule_passed {e : Nat} (hp : φ.Passed e) (hf : φ.Fits w) (hr : Rule φ s w φ') (ha : app s w = some w') :
    w'.stateOf e = w.stateOf e ∨ w.stateOf e = some awaitingFix ∨
      ((φ = .late e ∨ φ = .spent e failed true) ∧ w'.stateOf e = some failed) := by
  cases hr with
  | neutral _ hn => exact .inl ((neutral_frame hn ha).state e)
  | resolve | probe =>
    simp only [app, Option.some.injEq] at ha
    exact .inl (by rw [ha])
  | lose _ hs =>
    simp only [app, if_neg hs, Option.some.injEq] at ha
    exact .inl (by rw [ha])
  | publish =>
    simp only [app, Option.ite_none_right_eq_some, Option.some.injEq] at ha
    exact .inl (by rw [ha.2])
  | claimArmed hs =>
    obtain rfl : _ = e := hp
    exact .inr (.inl hs)
  | fail hm =>
    cases φ with
    | armed => cases hm
    | late e' =>
      obtain rfl : e' = e := hp
      simp only [Phase.mayFail, Option.ite_none_right_eq_some] at hm
      obtain ⟨rfl, -⟩ := hm
      exact .inr (.inr ⟨.inl rfl, past_setState ha (hf.passed _ rfl).ne_none⟩)
    | spent e' t g =>
      obtain rfl : e' = e := hp
      cases t <;> cases g <;> simp only [Phase.mayFail, Option.ite_none_right_eq_some, reduceCtorEq] at hm
      obtain ⟨rfl, -⟩ := hm
      exact .inr (.inr ⟨.inr rfl, past_setState ha (hf.passed _ rfl).ne_none⟩)
    | _ => exact absurd hp (by simp [Phase.Passed])
  | giveUp h => rcases h with rfl | rfl <;> exact hp.elim
  | _ => exact absurd hp (by simp [Phase.Passed])

/-- What a thread has brought past its injection it leaves alone, but for Gate 2. -/
theorem Exact.passed {i e : Nat} (h : Exact w ph) (hi : ph i = some φ) (hp : φ.Passed e) (hf : φ.Fits w) (hr : Rule φ s w φ')
    (ha : app s w = some w') : w'.stateOf e = w.stateOf e ∨ w.stateOf e = some awaitingFix := by
  rcases rule_passed hp hf hr ha with h' | h' | ⟨hφ, h'⟩
  · exact .inl h'
  · exact .inr h'
  · -- the guard writes `failed` over `failed`
    have hfailed : w.stateOf e = some failed := by
      rcases hφ with rfl | rfl
      · exact h.late i e hi
      · exact (h.spent i e failed true hi).1
    exact .inl (h'.trans hfailed.symm)

/-- A terminal state stays when a thread executes a statement. -/
theorem terminal_step {i e : Nat} {t : EpisodeState} (hl : Lifecycle w ph) (h : Exact w ph) (hi : ph i = some φ)
    (hr : Rule φ s w φ') (ha : app s w = some w') (ht : t ∈ TERMINAL_EPISODE_STATES) (he : w.stateOf e = some t) :
    w'.stateOf e = some t := by
  have hf := hl.fits i φ hi
  have hpast : w.Past e := ⟨t, he, (terminal_unsettled ht).1⟩
  have hne : w.stateOf e ≠ some awaitingFix := by
    rw [he]
    simpa using (terminal_unsettled ht).2.1
  rcases (rule_step hf hr ha).at e with hst | hst | ⟨hst | hst, -⟩ | ⟨hst, -⟩ | ⟨-, hst, -⟩
  · rw [hst, he]
  · exact absurd hpast (hf.arms e hst).not_past
  · -- whoever owns the episode finds it `resolving`
    rw [h.owns i φ e hi hst, Option.some.injEq] at he
    exact absurd (he ▸ ht) (by decide)
  · rw [(h.passed hi hst hf hr ha).resolve_right hne, he]
  · exact absurd hst hne
  · exact absurd hst hpast.ne_none

/-- A thread's own terminal write. -/
theorem rule_spent {e : Nat} {t : EpisodeState} {g : Bool} (hf : φ.Fits w) (hr : Rule φ s w φ') (ha : app s w = some w')
    (h : φ' = .spent e t g) : φ = .spent e t g ∨ (w'.stateOf e = some t ∧ t ∈ TERMINAL_EPISODE_STATES) := by
  cases hr with
  | neutral | resolve | probe | lose => exact .inl h
  | publish => exact .inl h
  | fail hm =>
    cases h
    exact .inr ⟨past_setState ha (ne_none_of_mayFail hf hm), by decide⟩
  | resolved =>
    cases h
    exact .inr ⟨past_setState ha (hf.owns _ rfl).past.ne_none, by decide⟩
  | _ => cases h

theorem rule_late {e : Nat} (hr : Rule φ s w φ') (h : φ' = .late e) : φ = .late e := by
  cases hr <;> first | exact h | cases h

/-- An episode is a thread's to resolve when it has just been won, or read to be
`resolving`, or was the thread's already and has not been written. -/
theorem rule_owns {e : Nat} (hf : φ.Fits w) (hr : Rule φ s w φ') (ha : app s w = some w') (h : φ'.Owns e) :
    w'.stateOf e = some resolving ∨ (φ.Owns e ∧ w'.stateOf e = w.stateOf e) := by
  cases hr with
  | neutral _ hn => exact .inr ⟨h, (neutral_frame hn ha).state e⟩
  | resolve | probe =>
    simp only [app, Option.some.injEq] at ha
    exact .inr ⟨h, by rw [ha]⟩
  | lose _ hs =>
    simp only [app, if_neg hs, Option.some.injEq] at ha
    exact .inr ⟨h, by rw [ha]⟩
  | score =>
    simp only [app, Option.some.injEq] at ha
    exact .inr ⟨h, by rw [← ha]; rfl⟩
  | @claimArmed e' _ hs | @claim e' _ hs =>
    obtain rfl : e' = e := h
    left
    rw [stateOf_claim ha hs, Function.update_self]
  | select =>
    obtain ⟨y, hy, rfl, hu⟩ := h
    simp only [app, Option.some.injEq] at ha
    left
    rw [← ha, (pendings_state hy).1, hu]
  | gone =>
    simp only [app, Option.some.injEq] at ha
    exact .inr ⟨owns_clear h, by rw [← ha]⟩
  | settle hy hu =>
    obtain ⟨z, hz, rfl, hzs⟩ := h
    obtain ⟨hz, hne⟩ := mem_without.1 hz
    refine .inr ⟨⟨z, hz, rfl, hzs⟩, ?_⟩
    rw [stateOf_setState ha (hf.arms _ ⟨_, hy, rfl, hu⟩).ne_none, Function.update_of_ne hne]
  | close hy hu =>
    obtain ⟨z, hz, rfl, hzs⟩ := h
    obtain ⟨hz, hne⟩ := mem_without.1 hz
    refine .inr ⟨⟨z, hz, rfl, hzs⟩, ?_⟩
    rw [stateOf_setState ha (hf.owns _ ⟨_, hy, rfl, hu⟩).past.ne_none, Function.update_of_ne hne]
  | watch =>
    obtain ⟨z, hz, he, hzs⟩ := h
    simp only [app, Option.some.injEq] at ha
    exact .inr ⟨⟨z, (mem_without.1 hz).1, he, hzs⟩, by rw [← ha]⟩
  | _ => exact absurd h (by simp [Phase.Owns])

/-- An exception gives no thread an episode. -/
theorem fault_owns {e : Nat} (h : (fault φ s).Owns e) : φ.Owns e := by
  unfold fault at h
  split at h
  case h_13 => exact owns_clear h
  all_goals first | exact h | exact h.elim

theorem fault_late {e : Nat} (h : fault φ s = .late e) :
    φ = .late e ∨ φ = .armed e ∨ (φ = .spent e resolved true ∧ s ≠ .publish) := by
  unfold fault at h
  split at h
  case h_4 =>
    cases h
    exact .inr (.inl rfl)
  case h_12 hs =>
    cases h
    exact .inr (.inr ⟨rfl, hs⟩)
  all_goals first | exact .inl h | cases h

theorem fault_spent {e : Nat} {t : EpisodeState} {g : Bool} (h : fault φ s = .spent e t g) : φ = .spent e t g := by
  unfold fault at h
  split at h <;> first | exact h | cases h

end Rules

section Run
variable {w w' : World} {ph ph' : Nat → Option Phase} {log l : List (Event World Stmt)} {i : Nat} {φ φ' : Phase} {s : Stmt}

theorem Exact.exec (h : Exact w ph) (hl : Lifecycle w ph) (hi : ph i = some φ) (hr : Rule φ s w φ') (ha : app s w = some w') :
    Exact w' (Function.update ph i (some φ')) := by
  have hf := hl.fits i φ hi
  refine ⟨?_, ?_, ?_⟩
  -- Who is in a resolve owns an episode that is `resolving`: nobody else may end it.
  · intro k ψ e hk hψ
    rcases of_update hk with ⟨rfl, rfl⟩ | ⟨hki, hk⟩
    · rcases rule_owns hf hr ha hψ with h' | ⟨ho, hst⟩
      · exact h'
      · rw [hst]
        exact h.owns k φ e hi ho
    · have hres := h.owns k ψ e hk hψ
      have hc := hl.apart i k φ ψ (Ne.symm hki) hi hk
      rcases (rule_step hf hr ha).at e with hst | hst | ⟨hst | hst, -⟩ | ⟨hst, -⟩ | ⟨-, hst, -⟩
      · rw [hst, hres]
      · exact absurd (.inl ⟨e, .inl hst, .inr hψ⟩) hc
      · exact absurd (.inl ⟨e, .inr hst, .inr hψ⟩) hc
      · rw [(h.passed hi hst hf hr ha).resolve_right (by simp [hres]), hres]
      · simp [hres] at hst
      · simp [hres] at hst
  · intro k e hk
    rcases of_update hk with ⟨rfl, hφ⟩ | ⟨-, hk⟩
    · obtain rfl := rule_late hr hφ
      exact terminal_step hl h hi hr ha (by decide) (h.late k e hi)
    · exact terminal_step hl h hi hr ha (by decide) (h.late k e hk)
  · intro k e t g hk
    rcases of_update hk with ⟨rfl, hφ⟩ | ⟨-, hk⟩
    · rcases rule_spent hf hr ha hφ with rfl | hst
      · obtain ⟨hst, ht⟩ := h.spent k e t g hi
        exact ⟨terminal_step hl h hi hr ha ht hst, ht⟩
      · exact hst
    · obtain ⟨hst, ht⟩ := h.spent k e t g hk
      exact ⟨terminal_step hl h hi hr ha ht hst, ht⟩

/-- An exception that is not late leaves no guard with an episode of somebody else's. -/
theorem Exact.fail {st : State World Stmt Job} {j : Job} (h : Exact st.world ph) (hl : Lifecycle st.world ph)
    (hg : Gate st.world ph st.log) (hn : st.next i = some (j, s)) (hi : ph i = some φ) (hm : φ.Within j)
    (hc : ¬ LateRaise st (.fail i)) : Exact st.world (Function.update ph i (some (fault φ s))) := by
  refine ⟨?_, ?_, ?_⟩
  · intro k ψ e hk hψ
    rcases of_update hk with ⟨rfl, rfl⟩ | ⟨-, hk⟩
    · exact h.owns k φ e hi (fault_owns hψ)
    · exact h.owns k ψ e hk hψ
  -- A guard is entered late only by the exceptions that are left out.
  · intro k e hk
    rcases of_update hk with ⟨rfl, hφ⟩ | ⟨-, hk⟩
    · rcases fault_late hφ with rfl | rfl | ⟨rfl, hs⟩
      · exact h.late k e hi
      · by_contra hst
        refine hc ⟨k, j, s, e, rfl, hn, hm, fun hinj => hinj.not_past ((hl.fits k _ hi).passed e rfl), hst, ?_⟩
        rintro ⟨hw, -⟩
        exact hg.unclaimed k _ e hi rfl hw
      · have hres := (h.spent k e resolved true hi).1
        refine absurd ⟨k, j, s, e, rfl, hn, hm, fun hinj => hinj.not_past ((hl.fits k _ hi).passed e rfl), ?_, ?_⟩ hc
        · simp [hres]
        · rintro ⟨-, h' | h'⟩
          · simp [hres] at h'
          · exact hs h'
    · exact h.late k e hk
  · intro k e t g hk
    rcases of_update hk with ⟨rfl, hφ⟩ | ⟨-, hk⟩
    · obtain rfl := fault_spent hφ
      exact h.spent k e t g hi
    · exact h.spent k e t g hk

/-- A new thread has no episode yet. -/
theorem Exact.add {n : Nat} {j : Job} (h : Exact w ph) : Exact w (Function.update ph n (some j.entry)) := by
  refine ⟨?_, ?_, ?_⟩
  · intro k ψ e hk hψ
    rcases of_update hk with ⟨rfl, rfl⟩ | ⟨-, hk⟩
    · cases j <;> exact hψ.elim
    · exact h.owns k ψ e hk hψ
  · intro k e hk
    rcases of_update hk with ⟨rfl, hφ⟩ | ⟨-, hk⟩
    · cases j <;> cases hφ
    · exact h.late k e hk
  · intro k e t g hk
    rcases of_update hk with ⟨rfl, hφ⟩ | ⟨-, hk⟩
    · cases j <;> cases hφ
    · exact h.spent k e t g hk

theorem Exact.same (h : Exact w ph) (hw : ∀ e, w'.stateOf e = w.stateOf e) : Exact w' ph := by
  refine ⟨?_, ?_, ?_⟩
  · intro k ψ e hk hψ
    rw [hw]
    exact h.owns k ψ e hk hψ
  · intro k e hk
    rw [hw]
    exact h.late k e hk
  · intro k e t g hk
    rw [hw]
    exact h.spent k e t g hk

theorem exact_effect {st : State World Stmt Job} {m : Move Job Env} (hl : Lifecycle st.world ph) (hg : Gate st.world ph st.log)
    (h : Exact st.world ph) (hc : ¬ LateRaise st m) (he : Effect operatorApi discipline st ph m w' ph' l) : Exact w' ph' := by
  cases he with
  | stay => exact h
  | exec _ hi _ hr ha _ => exact h.exec hl hi hr ha
  | spawn _ hi _ hr ha _ _ _ _ => exact (h.exec hl hi hr ha).add
  | fail hn hi hm => exact h.fail hl hg hn hi hm hc
  | post hp _ _ => exact (h.same (post_state hp)).add
  | env x => exact h.same (env_frame x _).state
  | kill => constructor <;> simp

theorem terminal_effect {st : State World Stmt Job} {m : Move Job Env} {e : Nat} {t : EpisodeState} (hl : Lifecycle st.world ph)
    (h : Exact st.world ph) (ht : t ∈ TERMINAL_EPISODE_STATES) (hst : st.world.stateOf e = some t)
    (he : Effect operatorApi discipline st ph m w' ph' l) : w'.stateOf e = some t := by
  cases he with
  | stay | kill => exact hst
  | exec _ hi _ hr ha _ | spawn _ hi _ hr ha _ _ _ _ => exact terminal_step hl h hi hr ha ht hst
  | fail _ _ _ => exact hst
  | post hp _ _ => exact (post_state hp e).trans hst
  | env x => exact ((env_frame x _).state e).trans hst

/-- Without late exceptions, an episode that is `resolved` or `failed` stays so. -/
theorem terminal_absorbing {w : World} (h : Initial w) (ms ns : List (Move Job Env))
    (hc : operatorApi.Admits (fun st m => ¬ LateRaise st m) (boot w) (ms ++ ns)) (e : Nat) (t : EpisodeState)
    (ht : t ∈ TERMINAL_EPISODE_STATES) (he : (operatorApi.run (boot w) ms).world.stateOf e = some t) :
    (operatorApi.run (boot w) (ms ++ ns)).world.stateOf e = some t := by
  obtain ⟨hc1, hc2⟩ := operatorApi.admits_append.1 hc
  obtain ⟨ph, hag, hl, hg, hx⟩ := operatorApi.invariant operatorApi_sound (fun st m => ¬ LateRaise st m)
    (fun w ph l => Lifecycle w ph ∧ Gate w ph l ∧ Exact w ph)
    (fun _ _ _ _ _ _ _ ⟨hl, hg, hx⟩ hc he => ⟨lifecycle_effect hl he, gate_effect hl hg he, exact_effect hl hg hx hc he⟩)
    (agrees_boot w) ⟨lifecycle_boot h, gate_boot w, by constructor <;> simp⟩ ms hc1
  obtain ⟨-, -, -, -, -, hst⟩ := operatorApi.invariant operatorApi_sound (fun st m => ¬ LateRaise st m)
    (fun w ph l => Lifecycle w ph ∧ Gate w ph l ∧ Exact w ph ∧ w.stateOf e = some t)
    (fun _ _ _ _ _ _ _ ⟨hl, hg, hx, hst⟩ hc he =>
      ⟨lifecycle_effect hl he, gate_effect hl hg he, exact_effect hl hg hx hc he, terminal_effect hl hx ht hst he⟩)
    hag ⟨hl, hg, hx, he⟩ ns hc2
  rw [operatorApi.run_append]
  exact hst

end Run

theorem not_lateRaise {st : State World Stmt Job} {m : Move Job Env} (h : m.fails = false) : ¬ LateRaise st m := by
  rintro ⟨i, j, s, e, rfl, -⟩
  cases h

/-- The wrapper of a report-only episode resolves it by itself. -/
def selfResolved : List (Move Job Env) :=
  injected "network-latency" (some 0) ++ turns 2 9 ++ [.env (.score 1), .env (.exit 1 0)] ++ turns 2 3

/-- The episode is published, and the API is restarted. -/
def restarted : List (Move Job Env) := turns 2 6 ++ [.kill, .post .onStartup] ++ turns 3 4

theorem terminal_absorbing_restart :
    (operatorApi.run (boot idle) (selfResolved ++ restarted)).world.stateOf 0 = some resolved := by
  have calm : ∀ m ∈ selfResolved ++ restarted, m.fails = false := by decide
  refine terminal_absorbing initial_idle selfResolved restarted ?_ 0 resolved (by decide) (by decide +kernel)
  exact operatorApi.admits_of (fun _ m hm => not_lateRaise (calm m hm)) _

/-- Right after its terminal write, the wrapper raises: the guard writes `failed`
over `resolved`. -/
theorem resolved_reported_failed : Initial idle ∧
    (operatorApi.run (boot idle) selfResolved).world.stateOf 0 = some resolved ∧
    (operatorApi.run (boot idle) (selfResolved ++ .fail 2 :: turns 2 3)).world.stateOf 0 = some failed :=
  ⟨initial_idle, by decide +kernel, by decide +kernel⟩

end Wardence.Live
