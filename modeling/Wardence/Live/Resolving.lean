import Wardence.Live.Gate
/-!
# A won resolve

An episode in `resolving` has somebody to end it: the thread that won Gate 2, or,
after a restart, the startup handler. An exception takes that away where no guard
is around the resolve, where the guard itself raises, and in the startup handler.
-/
namespace Wardence.Live

open Threads EpisodeState

/-- Thread `i` has raised while `e` was `resolving`. -/
def Raised (log : List (Event World Stmt)) (i e : Nat) : Prop :=
  ∃ ev ∈ log, ev.thread = i ∧ ev.raised = true ∧ ev.seen.stateOf e = some resolving

/-- While `e` is `resolving`, the startup handler raises; or the winner of Gate 2
does without a guard for `e` around it, or once more on its way through the guard.
Killing the scorer on that way may raise: it is raising already. -/
def UnguardedRaise (st : State World Stmt Job) (m : Move Job Env) : Prop :=
  ∃ i j s e, m = .fail i ∧ st.next i = some (j, s) ∧ st.world.stateOf e = some resolving ∧
    (j = .onStartup ∨
      (Won st.log i e ∧ (j.guarded ≠ some e ∨ (Raised st.log i e ∧ ∀ pid, s ≠ .kill pid))))

/-- Somebody will end the resolve of `e`. -/
inductive Ends (w : World) (ph : Nat → Option Phase) (e : Nat) : Prop
  | down : w.status = .down → Ends w ph e
  | starting {i} : ph i = some .starting → Ends w ph e
  | reconciling {i rows y} : ph i = some (.reconciling rows false) → y ∈ rows → y.episode = e → y.state = resolving → Ends w ph e
  | works {i φ} : ph i = some φ → φ.Works e → Ends w ph e

structure Resolves (w : World) (ph : Nat → Option Phase) (log : List (Event World Stmt)) : Prop where
  ends : ∀ e, w.stateOf e = some resolving → Ends w ph e
  winner : ∀ i φ e, ph i = some φ → Won log i e → φ.Works e ∨ w.stateOf e ≠ some resolving
  rescue : ∀ i e, ph i = some (.rescuing e) → Raised log i e ∨ w.stateOf e ≠ some resolving

section Rules
variable {φ φ' : Phase} {s : Stmt} {w w' : World} {ph : Nat → Option Phase} {e : Nat}

/-- The statements that may write a state. -/
def Stmt.writesState : Stmt → Bool
  | .insertEpisode _ _ | .setState _ _ _ | .claim _ => true
  | _ => false

theorem app_stateOf (ha : app s w = some w') (hs : s.writesState = false) : w'.stateOf = w.stateOf := by
  by_cases hn : s.Neutral
  · exact funext (neutral_frame hn ha).state
  · cases s with
    | insertEpisode | setState | claim => cases hs
    | setPid => exact stateOf_setPid ha
    | publish | acquire =>
      simp only [app, Option.ite_none_left_eq_some, Option.ite_none_right_eq_some, Option.some.injEq] at ha
      obtain ⟨-, rfl⟩ := ha
      rfl
    | osKill | release | startInjector | startScorer | startThread | serve =>
      simp only [app, Option.some.injEq] at ha
      subst ha
      rfl
    | _ => exact absurd trivial hn

/-- A write of another state makes no episode `resolving`. -/
theorem resolving_setState {e' : Nat} {t : EpisodeState} {x : Extra} (ha : app (.setState e' t x) w = some w')
    (hne : w.stateOf e' ≠ none) (ht : t ≠ resolving) (h : w'.stateOf e = some resolving) : w.stateOf e = some resolving := by
  rw [stateOf_setState ha hne, Function.update_apply] at h
  split at h
  · exact absurd (Option.some.inj h) ht
  · exact h

/-- Only winning Gate 2 makes an episode `resolving`. -/
theorem rule_resolving (hf : φ.Fits w) (hr : Rule φ s w φ') (ha : app s w = some w') (h : w'.stateOf e = some resolving) :
    w.stateOf e = some resolving ∨ φ'.Works e := by
  cases hr with
  | neutral _ hn => exact .inl ((neutral_frame hn ha).state e ▸ h)
  | reap hp => exact .inl ((probe_frame hp ha).state e ▸ h)
  | insert =>
    rw [(stateOf_insert ha).2, Function.update_apply] at h
    split at h
    · cases h
    · exact .inl h
  | hold | arm => exact .inl (resolving_setState ha (hf.arms _ rfl).ne_none (by decide) h)
  | fail hm => exact .inl (resolving_setState ha (ne_none_of_mayFail hf hm) (by decide) h)
  | resolved => exact .inl (resolving_setState ha (hf.owns _ rfl).past.ne_none (by decide) h)
  | settle hy hu _ hs =>
    exact .inl (resolving_setState ha (hf.arms _ ⟨_, hy, rfl, hu⟩).ne_none (by rcases hs with rfl | rfl <;> decide) h)
  | close hy hu hs =>
    exact .inl (resolving_setState ha (hf.owns _ ⟨_, hy, rfl, hu⟩).past.ne_none (by rcases hs with rfl | rfl <;> decide) h)
  | claimArmed hs | claim hs =>
    rw [stateOf_claim ha hs, Function.update_apply] at h
    split at h
    · rename_i he
      exact .inr he.symm
    · exact .inl h
  | lose _ hs =>
    simp only [app, if_neg hs, Option.some.injEq] at ha
    exact .inl (ha ▸ h)
  | _ => exact .inl (app_stateOf ha rfl ▸ h)

/-- A winner goes on until it has written its result. -/
theorem rule_worked (hf : φ.Fits w) (hr : Rule φ s w φ') (ha : app s w = some w') (h : φ.Works e) :
    φ'.Works e ∨ w'.stateOf e ≠ some resolving := by
  cases hr with
  | neutral | resolve | probe | lose | score => exact .inl h
  | @resolved e' =>
    obtain rfl : e' = e := h
    rw [past_setState ha (hf.owns _ rfl).past.ne_none]
    exact .inr (by decide)
  | @fail _ e' g _ _ hm =>
    have he : e' = e := by
      cases φ <;> simp only [Phase.mayFail, Option.ite_none_right_eq_some, reduceCtorEq] at hm <;>
        first | exact hm.1.symm.trans h | exact h.elim
    subst he
    rw [past_setState ha (hf.owns _ h.owns).past.ne_none]
    exact .inr (by decide)
  | giveUp h' => rcases h' with rfl | rfl <;> exact h.elim
  | publish => exact .inl h
  | _ => exact h.elim

/-- The startup handler goes on with a `resolving` row until it has closed it. -/
theorem rule_reconciles {rows : List Pending} {y : Pending} (hf : (Phase.reconciling rows false).Fits w)
    (hr : Rule (.reconciling rows false) s w φ') (ha : app s w = some w') (hy : y ∈ rows) (hys : y.state = resolving)
    (h : w'.stateOf y.episode = some resolving) :
    ∃ rows' z, φ' = .reconciling rows' false ∧ z ∈ rows' ∧ z.episode = y.episode ∧ z.state = resolving := by
  have hne : ∀ x ∈ rows, x.state.Unsettled → x.episode ≠ y.episode := by
    intro x hx hu he
    exact (he ▸ hf.arms _ ⟨x, hx, rfl, hu⟩).not_past (hf.owns _ ⟨y, hy, rfl, hys⟩).past
  cases hr with
  | neutral | resolve | probe => exact ⟨rows, y, rfl, hy, rfl, hys⟩
  | gone =>
    exact ⟨_, _, rfl, List.mem_map_of_mem hy, y.clear_episode _, (y.clear_state _).trans hys⟩
  | settle hx hu => exact ⟨_, y, rfl, mem_without.2 ⟨hy, Ne.symm (hne _ hx hu)⟩, rfl, hys⟩
  | watch hx hu => exact ⟨_, y, rfl, mem_without.2 ⟨hy, Ne.symm (hne _ hx hu)⟩, rfl, hys⟩
  | @close _ _ _ t x _ hx hu ht =>
    refine ⟨_, y, rfl, mem_without.2 ⟨hy, ?_⟩, rfl, hys⟩
    intro he
    rw [he, past_setState ha (hf.owns _ ⟨x, hx, rfl, hu⟩).past.ne_none] at h
    rcases ht with rfl | rfl <;> cases h
  | serve hb =>
    rcases hb with hb | hb
    · cases hb
    · exact absurd hys (hb y hy)
  | fail hm => cases hm
  | giveUp h' => rcases h' with h' | h' <;> cases h'
  | lose h' => rcases h' with h' | h' <;> cases h'

theorem pendings_of_resolving (h : w.stateOf e = some resolving) : ∃ y ∈ w.pendings, y.episode = e ∧ y.state = resolving := by
  obtain ⟨r, hr, hs⟩ := Option.bind_eq_some_iff.1 h
  refine ⟨⟨e, resolving, r.subprocessPid⟩, pendings_mem.2 ⟨r, ?_, hs, rfl⟩, rfl, rfl⟩
  simp only [World.nonTerminalRows, List.mem_map, List.mem_filter]
  exact ⟨(r, e), ⟨List.mem_zipIdx_iff_getElem?.2 hr, by simp [hs, NON_TERMINAL_EPISODE_STATES]⟩, rfl⟩

/-- The startup handler comes to a row that is `resolving`. -/
theorem rule_starts (hr : Rule .starting s w φ') (ha : app s w = some w') (h : w'.stateOf e = some resolving) :
    φ' = .starting ∨ ∃ rows y, φ' = .reconciling rows false ∧ y ∈ rows ∧ y.episode = e ∧ y.state = resolving := by
  cases hr with
  | neutral hn | resolve hn | probe hn => exact absurd rfl hn
  | connect => exact .inl rfl
  | select =>
    simp only [app, Option.some.injEq] at ha
    subst ha
    obtain ⟨y, hy, he, hs⟩ := pendings_of_resolving h
    exact .inr ⟨_, y, rfl, hy, he, hs⟩
  | fail hm => cases hm
  | giveUp h' => rcases h' with h' | h' <;> cases h'
  | lose h' => rcases h' with h' | h' <;> cases h'

end Rules

section Run
variable {w w' : World} {ph ph' : Nat → Option Phase} {log l : List (Event World Stmt)} {i : Nat} {φ φ' : Phase} {s : Stmt}

theorem Ends.mono {e : Nat} (h : Ends w ph e) (hd : w.status = .down → w'.status = .down) : Ends w' ph e := by
  cases h with
  | down h => exact .down (hd h)
  | starting hs => exact .starting hs
  | reconciling hs hy he hys => exact .reconciling hs hy he hys
  | works hs hφ => exact .works hs hφ

/-- What thread `i` does not do itself, the others still do. -/
theorem Ends.others {e : Nat} (h : Ends w ph e) (hi : ph i = some φ) (ψ : Phase) :
    Ends w (Function.update ph i (some ψ)) e ∨ φ = .starting ∨
      (∃ rows y, φ = .reconciling rows false ∧ y ∈ rows ∧ y.episode = e ∧ y.state = resolving) ∨ φ.Works e := by
  cases h with
  | down hd => exact .inl (.down hd)
  | @starting k hk =>
    by_cases hki : k = i
    · subst hki
      rw [hi, Option.some.injEq] at hk
      exact .inr (.inl hk)
    · exact .inl (.starting (i := k) (by rw [Function.update_of_ne hki, hk]))
  | @reconciling k rows y hk hy he hys =>
    by_cases hki : k = i
    · subst hki
      rw [hi, Option.some.injEq] at hk
      exact .inr (.inr (.inl ⟨rows, y, hk, hy, he, hys⟩))
    · exact .inl (.reconciling (i := k) (by rw [Function.update_of_ne hki, hk]) hy he hys)
  | @works k χ hk hχ =>
    by_cases hki : k = i
    · subst hki
      rw [hi, Option.some.injEq] at hk
      exact .inr (.inr (.inr (hk ▸ hχ)))
    · exact .inl (.works (i := k) (by rw [Function.update_of_ne hki, hk]) hχ)

/-- A thread that was not there takes nobody's place. -/
theorem Ends.add {e n : Nat} {j : Job} (h : Ends w ph e) (hn : ph n = none) : Ends w (Function.update ph n (some j.entry)) e := by
  have hk : ∀ k ψ, ph k = some ψ → Function.update ph n (some j.entry) k = some ψ := by
    intro k ψ hk
    have hkn : k ≠ n := by
      rintro rfl
      rw [hn] at hk
      cases hk
    rw [Function.update_of_ne hkn, hk]
  cases h with
  | down hd => exact .down hd
  | starting hs => exact .starting (hk _ _ hs)
  | reconciling hs hy he hys => exact .reconciling (hk _ _ hs) hy he hys
  | works hs hφ => exact .works (hk _ _ hs) hφ

theorem Raised.cons {ev : Event World Stmt} {e : Nat} (h : Raised log i e) : Raised (ev :: log) i e := by
  obtain ⟨ev', hev, h'⟩ := h
  exact ⟨ev', .tail _ hev, h'⟩

theorem rule_rescuing {e : Nat} (hr : Rule φ s w φ') (h : φ' = .rescuing e) : φ = .rescuing e := by
  cases hr <;> first | exact h | cases h

/-- An episode that is not `resolving` any more stays so, once won. -/
theorem Gate.settled {k e : Nat} (hg : Gate w ph log) (hf : φ.Fits w) (hr : Rule φ s w φ') (ha : app s w = some w')
    (hw : Won log k e) (h : w.stateOf e ≠ some resolving) : w'.stateOf e ≠ some resolving := by
  have hc := hg.claimed k e hw
  intro h'
  rcases (rule_step hf hr ha).at e with hst | hst | ⟨-, t, ht, hst⟩ | ⟨hst, -⟩ | ⟨-, hst, -⟩
  · exact h (hst ▸ h')
  · exact (hf.arms e hst).not_past hc.past
  · rw [h', Option.some.injEq] at hst
    exact absurd (hst ▸ ht) (by decide)
  · exact hc.ne_awaiting hst
  · exact hc.past.ne_none hst

theorem Resolves.exec (h : Resolves w ph log) (hl : Lifecycle w ph) (hg : Gate w ph log) (hi : ph i = some φ)
    (hr : Rule φ s w φ') (ha : app s w = some w') :
    Resolves w' (Function.update ph i (some φ')) (⟨i, s, w, false⟩ :: log) := by
  have hf := hl.fits i φ hi
  refine ⟨?_, ?_, ?_⟩
  -- An episode that is `resolving` was so before, or has just been won.
  · intro e he
    rcases rule_resolving hf hr ha he with hres | hw
    · rcases (h.ends e hres).others hi φ' with ho | rfl | ⟨rows, y, rfl, hy, rfl, hys⟩ | hφ
      · exact ho.mono fun hd => absurd hd (hl.up hi)
      · rcases rule_starts hr ha he with rfl | ⟨rows, y, rfl, hy, hye, hys⟩
        · exact .starting (i := i) (Function.update_self ..)
        · exact .reconciling (i := i) (Function.update_self ..) hy hye hys
      · obtain ⟨rows', z, rfl, hz, hze, hzs⟩ := rule_reconciles hf hr ha hy hys he
        exact .reconciling (i := i) (Function.update_self ..) hz hze hzs
      · rcases rule_worked hf hr ha hφ with hφ' | hn
        · exact .works (i := i) (Function.update_self ..) hφ'
        · exact absurd he hn
    · exact .works (i := i) (Function.update_self ..) hw
  -- The winner is at work until the episode is settled.
  · intro k ψ e hk hw
    rcases of_update hk with ⟨rfl, rfl⟩ | ⟨hki, hk⟩
    · rcases won_cons.1 hw with ⟨-, rfl, -, hst⟩ | hw
      · exact .inl (rule_wins hr hst).1
      · rcases h.winner k φ e hi hw with hφ | hn
        · exact rule_worked hf hr ha hφ
        · exact .inr (hg.settled hf hr ha hw hn)
    · rcases won_cons.1 hw with ⟨rfl, -⟩ | hw
      · exact absurd rfl hki
      · exact (h.winner k ψ e hk hw).imp_right (hg.settled hf hr ha hw)
  · intro k e hk
    have hold : ph k = some (.rescuing e) := by
      rcases of_update hk with ⟨rfl, h'⟩ | ⟨-, hk⟩
      · rw [hi, rule_rescuing hr h']
      · exact hk
    rcases h.rescue k e hold with hraised | hn
    · exact .inl hraised.cons
    · exact .inr (hg.settled hf hr ha (hg.works k _ e hold rfl) hn)

/-- An exception that is not an unguarded one leaves the winner in its guard. -/
theorem Resolves.fail {st : State World Stmt Job} {j : Job} (h : Resolves st.world ph st.log)
    (hg : Gate st.world ph st.log) (hn : st.next i = some (j, s)) (hi : ph i = some φ) (hm : φ.Within j)
    (hc : ¬ UnguardedRaise st (.fail i)) :
    Resolves st.world (Function.update ph i (some (fault φ s))) (⟨i, s, st.world, true⟩ :: st.log) := by
  -- the winner of a `resolving` episode keeps it
  have hkeep : ∀ e, st.world.stateOf e = some resolving → φ.Works e → fault φ s = .rescuing e := by
    intro e hst hφ
    have hw := hg.works i φ e hi hφ
    have hguard : j.guarded = some e := by
      by_contra hj
      exact hc ⟨i, j, s, e, rfl, hn, hst, .inr ⟨hw, .inl hj⟩⟩
    have hnone : ∀ t, j ≠ .attemptResolve e t := by
      rintro t rfl
      cases hguard
    cases φ with
    -- Unguarded, the winner would be a resolver, which the hypothesis leaves out.
    | owner e' g | scoring e' g =>
      obtain rfl : e' = e := hφ
      cases g with
      | true => rfl
      | false =>
        obtain ⟨t, rfl⟩ := hm
        exact absurd rfl (hnone t)
    -- In its guard, only the kill of the scorer may raise: the guard swallows that.
    | rescuing e' =>
      obtain rfl : e' = e := hφ
      have hkill : ∃ pid, s = .kill pid := by
        by_contra hs
        refine hc ⟨i, j, s, e', rfl, hn, hst, .inr ⟨hw, .inr ⟨?_, fun pid hp => hs ⟨pid, hp⟩⟩⟩⟩
        exact (h.rescue i e' hi).resolve_right fun hn => hn hst
      obtain ⟨pid, rfl⟩ := hkill
      rfl
    | _ => exact hφ.elim
  refine ⟨?_, ?_, ?_⟩
  · intro e he
    rcases (h.ends e he).others hi (fault φ s) with ho | rfl | ⟨rows, y, rfl, hy, rfl, hys⟩ | hφ
    · exact ho
    · exact .starting (i := i) (Function.update_self ..)
    · exact absurd ⟨i, j, s, y.episode, rfl, hn, he, .inl hm⟩ hc
    · exact .works (i := i) (φ := .rescuing e) (by rw [Function.update_self, hkeep e he hφ]) rfl
  · intro k ψ e hk hw
    have hw' : Won st.log k e := (won_cons.1 hw).resolve_left (by simp)
    rcases of_update hk with ⟨rfl, rfl⟩ | ⟨-, hk⟩
    · by_cases hst : st.world.stateOf e = some resolving
      · have hφ := (h.winner k φ e hi hw').resolve_right fun hn => hn hst
        rw [hkeep e hst hφ]
        exact .inl rfl
      · exact .inr hst
    · exact h.winner k ψ e hk hw'
  · intro k e hk
    rcases of_update hk with ⟨rfl, hφ⟩ | ⟨-, hk⟩
    · by_cases hst : st.world.stateOf e = some resolving
      · exact .inl ⟨_, .head _, rfl, rfl, hst⟩
      · exact .inr hst
    · exact (h.rescue k e hk).imp_left Raised.cons

theorem Resolves.add {n : Nat} {j : Job} (h : Resolves w ph log) (hn : ph n = none) (hl : ∀ ev ∈ log, ev.thread ≠ n) :
    Resolves w (Function.update ph n (some j.entry)) log := by
  refine ⟨fun e he => (h.ends e he).add hn, ?_, ?_⟩
  · intro k ψ e hk hw
    rcases of_update hk with ⟨rfl, -⟩ | ⟨-, hk⟩
    · obtain ⟨ev, hev, ht, -⟩ := hw
      exact absurd ht (hl ev hev)
    · exact h.winner k ψ e hk hw
  · intro k e hk
    rcases of_update hk with ⟨rfl, hj⟩ | ⟨-, hk⟩
    · cases j <;> cases hj
    · exact h.rescue k e hk

theorem Resolves.frame (h : Resolves w ph log) (hw : Frame w w') : Resolves w' ph log := by
  refine ⟨?_, ?_, ?_⟩
  · intro e he
    exact (h.ends e (hw.state e ▸ he)).mono hw.status.trans
  · intro k ψ e hk hwon
    rw [hw.state]
    exact h.winner k ψ e hk hwon
  · intro k e hk
    rw [hw.state]
    exact h.rescue k e hk

/-- Only the startup handler is started while the API is down. -/
theorem post_down {j : Job} (hl : Lifecycle w ph) (hp : Live.post j w = some w') (hd : w.status = .down) : j = .onStartup := by
  cases j with
  | onStartup => rfl
  | attemptResolve e t =>
    cases t <;> simp [Live.post, (hl.down hd).2] at hp
  | _ => simp [Live.post, hd] at hp

theorem Resolves.post {n : Nat} {j : Job} (h : Resolves w ph log) (hl : Lifecycle w ph) (hp : Live.post j w = some w')
    (hn : ph n = none) (hlog : ∀ ev ∈ log, ev.thread ≠ n) : Resolves w' (Function.update ph n (some j.entry)) log := by
  have hadd := h.add (j := j) hn hlog
  refine ⟨?_, ?_, ?_⟩
  · intro e he
    by_cases hd : w.status = .down
    · obtain rfl := post_down hl hp hd
      exact .starting (i := n) (Function.update_self ..)
    · exact (hadd.ends e (post_state hp e ▸ he)).mono fun h' => absurd h' hd
  · intro k ψ e hk hw
    rw [post_state hp]
    exact hadd.winner k ψ e hk hw
  · intro k e hk
    rw [post_state hp]
    exact hadd.rescue k e hk

theorem resolves_effect {st : State World Stmt Job} {m : Move Job Env} (hl : Lifecycle st.world ph)
    (hg : Gate st.world ph st.log) (h : Resolves st.world ph st.log) (hc : ¬ UnguardedRaise st m)
    (he : Effect operatorApi discipline st ph m w' ph' l) : Resolves w' ph' l := by
  cases he with
  | stay => exact h
  | exec _ hi _ hr ha _ => exact h.exec hl hg hi hr ha
  | spawn _ hi _ hr ha _ hn hne hlog =>
    refine (h.exec hl hg hi hr ha).add ?_ ?_
    · rw [Function.update_of_ne hne, hn]
    · intro ev hev
      rcases List.mem_cons.1 hev with rfl | hev
      · exact Ne.symm hne
      · exact hlog ev hev
  | fail hn hi hm => exact h.fail hg hn hi hm hc
  | post hp hn hlog => exact h.post hl hp hn hlog
  | env x => exact h.frame (env_frame x _)
  | kill => exact ⟨fun _ _ => .down rfl, by simp, by simp⟩

end Run

/-- What a won resolve comes to: its thread does not end before the episode is
terminal, and while requests come in an episode in `resolving` has such a thread. -/
structure WonResolvesEnd (st : State World Stmt Job) : Prop where
  ended : ∀ i t e, Won st.log i e → st.pool[i]? = some t → t.ended = true →
    ∃ s ∈ TERMINAL_EPISODE_STATES, st.world.stateOf e = some s
  working : st.world.status = .serving → ∀ e, st.world.stateOf e = some resolving →
    ∃ i t, Won st.log i e ∧ st.pool[i]? = some t ∧ t.active = true

theorem World.Claimed.terminal {w : World} {e : Nat} (h : w.Claimed e) (hn : w.stateOf e ≠ some resolving) :
    ∃ s ∈ TERMINAL_EPISODE_STATES, w.stateOf e = some s := by
  obtain ⟨s, hs, hu, hne⟩ := h
  refine ⟨s, ?_, hs⟩
  cases s with
  | injecting | holding => exact absurd (by simp [EpisodeState.Unsettled]) hu
  | awaitingFix => exact absurd rfl hne
  | resolving => exact absurd hs hn
  | resolved | failed => decide

/-- Without unguarded exceptions, a resolve that won Gate 2 ends its episode. -/
theorem won_resolve_ends {w : World} (h : Initial w) (ms : List (Move Job Env))
    (hc : operatorApi.Admits (fun st m => ¬ UnguardedRaise st m) (boot w) ms) : WonResolvesEnd (operatorApi.run (boot w) ms) := by
  obtain ⟨ph, hag, hl, hg, hr⟩ := operatorApi.invariant operatorApi_sound (fun st m => ¬ UnguardedRaise st m)
    (fun w ph l => Lifecycle w ph ∧ Gate w ph l ∧ Resolves w ph l)
    (fun _ _ _ _ _ _ _ ⟨hl, hg, hr⟩ hc he => ⟨lifecycle_effect hl he, gate_effect hl hg he, resolves_effect hl hg hr hc he⟩)
    (agrees_boot w) ⟨lifecycle_boot h, gate_boot w, ⟨fun e he => absurd (h.settled e _ he) (by decide), by simp, by simp⟩⟩ ms hc
  have hrest : ∀ φ e, Phase.Works e φ → ¬ φ.Rests := by
    intro φ e hφ
    cases φ <;> first | exact id | exact hφ.elim
  constructor
  · intro i t e hw hi ht
    obtain ⟨φ, hφ, hrests⟩ := hag.ended hi ht
    refine (hg.claimed i e hw).terminal ((hr.winner i φ e hφ hw).resolve_left ?_)
    exact fun hworks => hrest φ e hworks hrests
  · intro hs e he
    have hstart : ∀ k ψ, ph k = some ψ → ¬ ψ.Startup := by
      intro k ψ hk hψ
      have := (hl.fits k ψ hk).startup hψ
      rw [hs] at this
      cases this
    cases hr.ends e he with
    | down hd =>
      rw [hs] at hd
      cases hd
    | starting hk => exact absurd trivial (hstart _ _ hk)
    | reconciling hk => exact absurd trivial (hstart _ _ hk)
    | works hk hφ =>
      obtain ⟨t, ht, hact⟩ := hag.active hk (hrest _ e hφ)
      exact ⟨_, t, hg.works _ _ e hk hφ, ht, hact⟩

theorem not_unguardedRaise {st : State World Stmt Job} {m : Move Job Env} (h : m.fails = false) : ¬ UnguardedRaise st m := by
  rintro ⟨i, j, s, e, rfl, -⟩
  cases h

/-- A click resolves episode 0; its thread 4 wins Gate 2, and comes to the evidence. -/
def clicked (evidence : Option Nat) : List (Move Job Env) :=
  injected "bad-rollout" evidence ++ .post (.triggerResolve 0) :: turns 3 5 ++ turns 4 9

theorem won_resolve_ends_clicked : WonResolvesEnd (operatorApi.run (boot idle) (clicked (some 0))) := by
  have calm : ∀ m ∈ clicked (some 0), m.fails = false := by decide
  exact won_resolve_ends initial_idle _ (operatorApi.admits_of (fun _ m hm => not_unguardedRaise (calm m hm)) _)

/-- The evidence file holds no number: the thread raises on it, and nothing
catches that. -/
def stuck : List (Move Job Env) := clicked none ++ [.fail 4]

/-- The episode stays `resolving`. -/
theorem stuck_in_resolving : Initial idle ∧ ¬ WonResolvesEnd (operatorApi.run (boot idle) stuck) := by
  refine ⟨initial_idle, fun h => ?_⟩
  have hend : ((operatorApi.run (boot idle) stuck).pool[4]?.any Thread.ended) = true := by decide +kernel
  have hres : (operatorApi.run (boot idle) stuck).world.stateOf 0 = some resolving := by decide +kernel
  obtain ⟨t, ht, he⟩ := (Option.any_eq_true _ _).1 hend
  obtain ⟨s, hs, hst⟩ := h.ended 4 t 0 (by decide +kernel) ht he
  rw [hres, Option.some.injEq] at hst
  exact absurd (hst ▸ hs) (by decide)

end Wardence.Live
