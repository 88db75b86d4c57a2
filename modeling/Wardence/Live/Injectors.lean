import Wardence.Live.Resolving
/-!
# Running injectors

While an injector runs, its episode is `injecting` or `holding`, and somebody who
knows its pid waits for it: a thread, or the row. That is lost when the thread
that watches it raises, when `os.kill` itself fails at startup, and when the
process is killed between `Popen` and the write of the pid.
-/
namespace Wardence.Live

open Threads EpisodeState

/-- The API loses a running injector in this move. -/
inductive LosesInjector (st : State World Stmt Job) : Move Job Env → Prop
  /-- Its wrapper, or its watcher, raises. -/
  | raise {i j s e p} : st.next i = some (j, s) → j.guarded = some e → st.world.running p = some (.injector e) →
    LosesInjector st (.fail i)
  /-- The startup handler cannot tell whether it runs. -/
  | probe {i p e} : st.next i = some (.onStartup, .osKill p) → st.world.running p = some (.injector e) →
    LosesInjector st (.fail i)
  /-- Its pid is not in its row. -/
  | crash {p e} : st.world.running p = some (.injector e) → st.world.pidOf e ≠ some p → LosesInjector st .kill

/-- The thread knows that no injector of `e` runs. -/
def Phase.Unmanned (e : Nat) : Phase → Prop
  | launching e' _ | fresh e' | reaped e' | doomed e' => e' = e
  | _ => False

theorem Phase.Unmanned.arms {φ : Phase} {e : Nat} (h : φ.Unmanned e) : φ.Arms e := by
  cases φ <;> first | exact h | exact h.elim

/-- What the threads and the rows know of the running injectors. -/
structure Manned (w : World) (ph : Nat → Option Phase) : Prop where
  injecting : ∀ p e, w.running p = some (.injector e) → w.Injecting e
  known : ∀ p e, w.running p = some (.injector e) → w.pidOf e = some p ∨ ∃ i, ph i = some (.forked e p)
  idle : ∀ i φ e, ph i = some φ → φ.Unmanned e → ∀ p, w.running p ≠ some (.injector e)
  mine : ∀ i e q, ph i = some (.forked e q) ∨ ph i = some (.tracked e q) → ∀ p, w.running p = some (.injector e) → p = q
  rows : ∀ i rows b, ph i = some (.reconciling rows b) → ∀ y ∈ rows, y.state.Unsettled →
    ∀ p, w.running p = some (.injector y.episode) → y.pid = some p

section Rules
variable {φ φ' : Phase} {s : Stmt} {w w' : World} {e p : Nat}

/-- What a statement does to the processes. -/
theorem app_procs (ha : app s w = some w') : w'.procs = w.procs ∨ (∃ q, s = .kill q ∧ w' = w.setProc q (·.ended SIGKILLED)) ∨
    (∃ e, s = .startInjector e ∧ w'.procs = w.procs ++ [⟨.injector e, none⟩]) ∨
    ∃ e t, s = .startScorer e t ∧ w'.procs = w.procs ++ [⟨.scorer e t, none⟩] := by
  cases s <;> simp only [app, Option.some.injEq, Option.ite_none_left_eq_some, Option.ite_none_right_eq_some] at ha
  case kill q => exact .inr (.inl ⟨q, rfl, ha.symm⟩)
  case startInjector e => exact .inr (.inr (.inl ⟨e, rfl, by rw [← ha]⟩))
  case startScorer e t => exact .inr (.inr (.inr ⟨e, t, rfl, by rw [← ha]⟩))
  case claim =>
    left
    subst ha
    split <;> rfl
  all_goals
    left
    first
    | (subst ha; rfl)
    | (obtain ⟨-, rfl⟩ := ha; rfl)

/-- A new process is the last one. -/
theorem running_append {x y : Program} (hp : w'.procs = w.procs ++ [⟨x, none⟩]) (h : w'.running p = some y) :
    w.running p = some y ∨ (x = y ∧ p = w.procs.length) := by
  simp only [World.running, hp, List.getElem?_append] at h ⊢
  split at h
  · exact .inl h
  · right
    cases hk : p - w.procs.length with
    | zero => exact ⟨by simpa [hk, Proc.running] using h, by omega⟩
    | succ n => simp [hk] at h

/-- A process that runs after a statement ran before, or is the one it started. -/
theorem app_running {x : Program} (ha : app s w = some w') (h : w'.running p = some x) :
    w.running p = some x ∨ (((∃ e, s = .startInjector e ∧ x = .injector e) ∨ ∃ e t, s = .startScorer e t ∧ x = .scorer e t) ∧
      p = w.procs.length) := by
  rcases app_procs ha with hp | ⟨q, -, rfl⟩ | ⟨e, rfl, hp⟩ | ⟨e, t, rfl, hp⟩
  · exact .inl (by simpa only [World.running, hp] using h)
  · exact .inl (running_ended h).1
  · exact (running_append hp h).imp_right fun hx => ⟨.inl ⟨e, rfl, hx.1.symm⟩, hx.2⟩
  · exact (running_append hp h).imp_right fun hx => ⟨.inr ⟨e, t, rfl, hx.1.symm⟩, hx.2⟩

/-- An injector that runs after a statement ran before, or is the one it started. -/
theorem app_injector (ha : app s w = some w') (h : w'.running p = some (.injector e)) :
    w.running p = some (.injector e) ∨ (s = .startInjector e ∧ p = w.procs.length) := by
  rcases app_running ha h with h | ⟨⟨e', rfl, hx⟩ | ⟨e', t, -, hx⟩, hp⟩
  · exact .inl h
  · cases hx
    exact .inr ⟨rfl, hp⟩
  · cases hx

theorem rule_startsInjector (hr : Rule φ (.startInjector e) w φ') : φ = .fresh e ∧ φ' = .forked e w.procs.length := by
  cases hr with
  | neutral _ hn => exact hn.elim
  | reap hp => simp [Stmt.Probes] at hp
  | popen => exact ⟨rfl, rfl⟩

/-- Nobody has started an injector in a thread that knows of none. -/
theorem rule_unmanned (hr : Rule φ s w φ') (h : φ'.Unmanned e) :
    φ.Unmanned e ∨ w.stateOf e = none ∨ ∃ q, φ = .tracked e q ∧ (w.alive q = false ∨ s = .kill q) := by
  cases hr with
  | neutral | resolve | probe | release => exact .inl h
  | insert =>
    obtain rfl : _ = e := h
    exact .inr (.inl (by simp [World.stateOf]))
  | @reap e' q _ _ _ hd =>
    obtain rfl : e' = e := h
    exact .inr (.inr ⟨q, rfl, .inl hd⟩)
  | @kill e' q =>
    obtain rfl : e' = e := h
    exact .inr (.inr ⟨q, rfl, .inr rfl⟩)
  | lose h' =>
    rcases h' with rfl | rfl <;> exact h.elim
  | _ => exact h.elim

/-- Another row is not touched. -/
theorem row_other {e' : Nat} {f : Episode → Episode} (h : e ≠ e') :
    (w.setRow e' f).stateOf e = w.stateOf e ∧ (w.setRow e' f).pidOf e = w.pidOf e := by
  rw [stateOf_setRow, pidOf_setRow, if_neg h, if_neg h]
  exact ⟨rfl, rfl⟩

theorem row_setState {e' : Nat} {t : EpisodeState} {x : Extra} (ha : app (.setState e' t x) w = some w') (h : e ≠ e') :
    w'.stateOf e = w.stateOf e ∧ w'.pidOf e = w.pidOf e := by
  simp only [app, Option.some.injEq] at ha
  exact ha ▸ row_other h

/-- The pid is in the row once it is written there. -/
theorem pidOf_setRow_self {f : Episode → Episode} (he : w.stateOf e ≠ none) (hf : ∀ r, (f r).subprocessPid = some p) :
    (w.setRow e f).pidOf e = some p := by
  rw [pidOf_setRow, if_pos rfl]
  cases hr : w.episodes[e]? with
  | none => simp [World.stateOf, hr] at he
  | some r => simp [hf]

/-- What a thread may do to the row of an episode that is injecting. -/
theorem rule_row (hf : φ.Fits w) (hr : Rule φ s w φ') (ha : app s w = some w') (he : w.Injecting e) :
    (w'.stateOf e = w.stateOf e ∧ w'.pidOf e = w.pidOf e) ∨
      (∃ q, φ = .forked e q ∧ w'.Injecting e ∧ w'.pidOf e = some q) ∨
      φ.Unmanned e ∨ ∃ rows b, φ = .reconciling rows b ∧ ∃ y ∈ rows, y.episode = e ∧ y.state.Unsettled ∧ y.pid = none := by
  have howns : ¬ φ.Owns e := fun h => he.not_past (hf.owns e h).past
  cases hr with
  | neutral _ hn => exact .inl ⟨(neutral_frame hn ha).state e, (neutral_frame hn ha).pid e⟩
  | reap hp => exact .inl ⟨(probe_frame hp ha).state e, (probe_frame hp ha).pid e⟩
  | kill => exact .inl ⟨(neutral_frame (s := .kill _) trivial ha).state e, (neutral_frame (s := .kill _) trivial ha).pid e⟩
  | insert =>
    have hne : e < w.episodes.length := by
      by_contra hn
      exact he.ne_none (by simp [World.stateOf, List.getElem?_eq_none (Nat.le_of_not_lt hn)])
    simp only [app, Option.some.injEq] at ha
    subst ha
    simp only [World.stateOf, World.pidOf, List.getElem?_append_left hne, and_self, true_or]
  | @hold e' q =>
    by_cases hee : e = e'
    · subst hee
      refine .inr (.inl ⟨q, rfl, ⟨holding, past_setState ha he.ne_none, .inr rfl⟩, ?_⟩)
      simp only [app, Option.some.injEq] at ha
      rw [← ha]
      exact pidOf_setRow_self he.ne_none fun _ => rfl
    · exact .inl (row_setState ha hee)
  | @setPid e' q =>
    by_cases hee : e = e'
    · subst hee
      refine .inr (.inl ⟨q, rfl, ?_, ?_⟩)
      · simpa only [World.Injecting, stateOf_setPid ha] using he
      · simp only [app, Option.some.injEq] at ha
        rw [← ha]
        exact pidOf_setRow_self he.ne_none fun _ => rfl
    · simp only [app, Option.some.injEq] at ha
      subst ha
      exact .inl (row_other hee)
  | @arm e' =>
    by_cases hee : e = e'
    · exact .inr (.inr (.inl hee.symm))
    · exact .inl (row_setState ha hee)
  | @fail _ e' g _ _ hm =>
    by_cases hee : e = e'
    · subst hee
      have hpassed : ¬ φ.Passed e := fun h => he.not_past (hf.passed e h)
      refine .inr (.inr (.inl ?_))
      cases φ <;> simp only [Phase.mayFail, Option.ite_none_right_eq_some, reduceCtorEq] at hm
      case fresh | reaped | doomed => exact hm.1
      case late => exact absurd hm.1 hpassed
      case scoring | rescuing => exact absurd hm.1 howns
      case spent e' t g' =>
        cases t <;> cases g' <;> simp only [Option.ite_none_right_eq_some, reduceCtorEq] at hm
        exact absurd hm.1 hpassed
    · exact .inl (row_setState ha hee)
  | @claimArmed e' _ hs | @claim e' _ hs =>
    have hee : e ≠ e' := by
      rintro rfl
      exact he.ne_awaiting hs
    simp only [app, if_pos hs, Option.some.injEq] at ha
    subst ha
    exact .inl (row_other hee)
  | lose _ hs =>
    simp only [app, if_neg hs, Option.some.injEq] at ha
    subst ha
    exact .inl ⟨rfl, rfl⟩
  | @resolved e' =>
    by_cases hee : e = e'
    · exact absurd hee.symm howns
    · exact .inl (row_setState ha hee)
  -- The startup handler ends an injecting episode only when its pid is gone.
  | @settle rows b _ _ y _ hy hu hp =>
    by_cases hee : e = y.episode
    · exact .inr (.inr (.inr ⟨rows, b, rfl, y, hy, hee.symm, hu, hp⟩))
    · exact .inl (row_setState ha hee)
  | @close rows b _ _ y _ hy hu =>
    by_cases hee : e = y.episode
    · exact absurd ⟨y, hy, hee.symm, hu⟩ howns
    · exact .inl (row_setState ha hee)
  | acquire | publish =>
    simp only [app, Option.ite_none_left_eq_some, Option.ite_none_right_eq_some, Option.some.injEq] at ha
    obtain ⟨-, rfl⟩ := ha
    exact .inl ⟨rfl, rfl⟩
  | _ =>
    simp only [app, Option.some.injEq] at ha
    subst ha
    exact .inl ⟨rfl, rfl⟩

/-- A thread that has just started an injector goes on until its pid is in the row. -/
theorem rule_forked (hr : Rule (.forked e p) s w φ') (ha : app s w = some w') (he : w.stateOf e ≠ none) :
    φ' = .forked e p ∨ w'.pidOf e = some p := by
  cases hr with
  | neutral | resolve | probe => exact .inl rfl
  | hold | setPid =>
    simp only [app, Option.some.injEq] at ha
    rw [← ha]
    exact .inr (pidOf_setRow_self he fun _ => rfl)
  | fail hm => cases hm
  | giveUp h' | lose h' => rcases h' with h' | h' <;> cases h'

theorem rule_forks {q : Nat} (hr : Rule φ s w φ') (h : φ' = .forked e q ∨ φ' = .tracked e q) :
    (φ = .forked e q ∨ φ = .tracked e q) ∨ φ = .fresh e := by
  cases hr with
  | neutral | resolve | probe | lose => exact .inl h
  | popen =>
    rcases h with h | h <;> cases h
    exact .inr rfl
  | hold | setPid =>
    rcases h with h | h <;> cases h
    exact .inl (.inl rfl)
  | publish => exact .inl h
  | _ => rcases h with h | h <;> cases h

/-- The rows that the startup handler has, with what it knows of their injectors. -/
theorem rule_rows {rows : List Pending} {b : Bool} {y : Pending} (hr : Rule φ s w φ') (h : φ' = .reconciling rows b) (hy : y ∈ rows) :
    (φ = .starting ∧ y ∈ w.pendings) ∨
      ∃ rows₀ b₀, φ = .reconciling rows₀ b₀ ∧ ∃ z ∈ rows₀, z.episode = y.episode ∧ z.state = y.state ∧
        (z.pid = y.pid ∨ ∃ q, z.pid = some q ∧ w.alive q = false) := by
  cases hr with
  | neutral | resolve | probe | lose | publish => exact .inr ⟨rows, b, h, y, hy, rfl, rfl, .inl rfl⟩
  | connect => cases h
  | select =>
    cases h
    exact .inl ⟨rfl, hy⟩
  | @gone rows₀ _ q _ hd =>
    cases h
    obtain ⟨z, hz, rfl⟩ := List.mem_map.1 hy
    refine .inr ⟨rows₀, b, rfl, z, hz, ?_⟩
    unfold Pending.clear
    split
    · rename_i hq
      exact ⟨rfl, rfl, .inr ⟨q, hq, hd⟩⟩
    · exact ⟨rfl, rfl, .inl rfl⟩
  | settle | close | watch =>
    cases h
    exact .inr ⟨_, b, rfl, y, (mem_without.1 hy).1, rfl, rfl, .inl rfl⟩
  | _ => cases h

theorem alive_of_running {x : Program} (h : w.running p = some x) : w.alive p = true := by
  simp [World.alive, h]

theorem fault_unmanned (h : (fault φ s).Unmanned e) : φ.Unmanned e ∨ ∃ q, φ = .forked e q ∨ φ = .tracked e q := by
  unfold fault at h
  split at h
  case h_1 | h_2 | h_3 =>
    obtain rfl : _ = e := h
    simp
  all_goals exact .inl h

theorem fault_forks {q : Nat} : fault φ s ≠ .forked e q ∧ fault φ s ≠ .tracked e q := by
  cases φ with
  | tracked => cases s <;> simp [fault]
  | _ =>
    unfold fault
    split <;> simp_all

theorem fault_rows {rows : List Pending} {b : Bool} (h : fault φ s = .reconciling rows b) :
    ∃ rows₀ b₀, φ = .reconciling rows₀ b₀ ∧ (rows = rows₀ ∨ ∃ q, s = .osKill q ∧ rows = rows₀.map (·.clear q)) := by
  unfold fault at h
  split at h
  case h_13 =>
    cases h
    exact ⟨_, _, rfl, .inr ⟨_, rfl, rfl⟩⟩
  case h_14 =>
    cases h
    exact ⟨_, _, rfl, .inl rfl⟩
  case h_15 => exact ⟨rows, b, h, .inl rfl⟩
  all_goals cases h

end Rules

section Run
variable {w w' : World} {ph ph' : Nat → Option Phase} {log l : List (Event World Stmt)} {i : Nat} {φ φ' : Phase} {s : Stmt}

theorem Manned.exec (h : Manned w ph) (hl : Lifecycle w ph) (hi : ph i = some φ) (hr : Rule φ s w φ') (ha : app s w = some w') :
    Manned w' (Function.update ph i (some φ')) := by
  have hf := hl.fits i φ hi
  -- a running injector is an old one, or the one that a fresh thread has just started
  have hrun : ∀ p e, w'.running p = some (.injector e) →
      w.running p = some (.injector e) ∨ (φ = .fresh e ∧ φ' = .forked e p) := by
    intro p e hp
    rcases app_injector ha hp with h' | ⟨rfl, rfl⟩
    · exact .inl h'
    · exact .inr (rule_startsInjector hr)
  have hclash : ∀ k ψ e, k ≠ i → ph k = some ψ → φ = .fresh e → ¬ ψ.Arms e := by
    rintro k ψ e hki hk rfl hψ
    exact hl.apart i k _ ψ (Ne.symm hki) hi hk (.inl ⟨e, .inl rfl, .inl hψ⟩)
  have hrow := fun p e (hp : w.running p = some (.injector e)) => rule_row hf hr ha (h.injecting p e hp)
  have hnopid : ∀ p e rows b, w.running p = some (.injector e) → φ = .reconciling rows b →
      ¬ ∃ y ∈ rows, y.episode = e ∧ y.state.Unsettled ∧ y.pid = none := by
    rintro p e rows b hp rfl ⟨y, hy, rfl, hu, hn⟩
    rw [h.rows i rows b hi y hy hu p hp] at hn
    cases hn
  constructor
  -- A running injector's episode is injecting.
  · intro p e hp
    rcases hrun p e hp with hold | ⟨-, rfl⟩
    · rcases hrow p e hold with ⟨hst, -⟩ | ⟨q, -, hinj, -⟩ | hun | ⟨rows, b, hφ, hy⟩
      · simpa only [World.Injecting, hst] using h.injecting p e hold
      · exact hinj
      · exact absurd hold (h.idle i φ e hi hun p)
      · exact absurd hy (hnopid p e rows b hold hφ)
    · exact (fits_own hf hr ha).arms e rfl
  -- Its pid is in the row, or with the thread that has just started it.
  · intro p e hp
    rcases hrun p e hp with hold | ⟨-, rfl⟩
    · rcases h.known p e hold with hpid | ⟨k, hk⟩
      · rcases hrow p e hold with ⟨-, hsame⟩ | ⟨q, rfl, -, hq⟩ | hun | ⟨rows, b, hφ, hy⟩
        · exact .inl (hsame.trans hpid)
        · rw [h.mine i e q (.inl hi) p hold]
          exact .inl hq
        · exact absurd hold (h.idle i φ e hi hun p)
        · exact absurd hy (hnopid p e rows b hold hφ)
      · by_cases hki : k = i
        · subst hki
          rw [hi, Option.some.injEq] at hk
          subst hk
          rcases rule_forked hr ha (h.injecting p e hold).ne_none with rfl | hpid
          · exact .inr ⟨k, Function.update_self ..⟩
          · exact .inl hpid
        · exact .inr ⟨k, by rw [Function.update_of_ne hki, hk]⟩
    · exact .inr ⟨i, Function.update_self ..⟩
  -- A thread before the start, or after the end, of an injector has none running.
  · intro k ψ e hk hψ p hp
    rcases of_update hk with ⟨rfl, rfl⟩ | ⟨hki, hk⟩
    · rcases hrun p e hp with hold | ⟨-, rfl⟩
      · rcases rule_unmanned hr hψ with hun | hnone | ⟨q, rfl, hq⟩
        · exact h.idle k φ e hi hun p hold
        · exact (h.injecting p e hold).ne_none hnone
        · obtain rfl := h.mine k e q (.inr hi) p hold
          rcases hq with hdead | rfl
          · rw [alive_of_running hold] at hdead
            cases hdead
          · simp only [app, Option.some.injEq] at ha
            subst ha
            exact (running_ended hp).2 rfl
      · exact hψ.elim
    · rcases hrun p e hp with hold | ⟨hφ, -⟩
      · exact h.idle k ψ e hk hψ p hold
      · exact hclash k ψ e hki hk hφ hψ.arms
  -- A thread with a pid knows the only one.
  · intro k e q hk p hp
    by_cases hki : k = i
    · subst hki
      simp only [Function.update_self, Option.some.injEq] at hk
      rcases hrun p e hp with hold | ⟨-, rfl⟩
      · rcases rule_forks hr hk with hφ | rfl
        · exact h.mine k e q (by simpa only [hi, Option.some.injEq] using hφ) p hold
        · exact absurd hold (h.idle k _ e hi rfl p)
      · rcases hk with hk | hk <;> cases hk
        rfl
    · simp only [Function.update_of_ne hki] at hk
      rcases hrun p e hp with hold | ⟨hφ, -⟩
      · exact h.mine k e q hk p hold
      · rcases hk with hk | hk <;> exact absurd rfl (hclash k _ e hki hk hφ)
  -- The startup handler read the pid with the row.
  · intro k rows b hk y hy hu p hp
    rcases of_update hk with ⟨rfl, rfl⟩ | ⟨hki, hk⟩
    · rcases hrun p _ hp with hold | ⟨-, h'⟩
      · rcases rule_rows hr rfl hy with ⟨rfl, hmem⟩ | ⟨rows₀, b₀, rfl, z, hz, hze, hzs, hpid⟩
        · obtain ⟨r, hr', -, hpid⟩ := pendings_mem.1 hmem
          have hrow : w.pidOf y.episode = y.pid := by
            simp only [World.pidOf, (nonTerminalRows_mem hr').1, Option.bind_some, hpid]
          rcases h.known p _ hold with hk' | ⟨k', hk'⟩
          · exact hrow.symm.trans hk'
          · -- nobody else runs before the handler has read its rows
            by_cases hkk : k' = k
            · subst hkk
              rw [hi] at hk'
              cases hk'
            · exact absurd (.inr (.inr (.inr (.inl rfl)))) (hl.apart k k' _ _ (Ne.symm hkk) hi hk')
        · have hzp := h.rows k rows₀ b₀ hi z hz (hzs ▸ hu) p (hze ▸ hold)
          rcases hpid with hpid | ⟨q, hq, hdead⟩
          · exact hpid.symm.trans hzp
          · rw [hzp, Option.some.injEq] at hq
            rw [← hq, alive_of_running hold] at hdead
            cases hdead
      · cases h'
    · rcases hrun p _ hp with hold | ⟨hφ, -⟩
      · exact h.rows k rows b hk y hy hu p hold
      · exact absurd ⟨y, hy, rfl, hu⟩ (hclash k _ _ hki hk hφ)

/-- An exception in a thread that watches no running injector. -/
theorem Manned.fail {st : State World Stmt Job} {j : Job} (h : Manned st.world ph) (hn : st.next i = some (j, s))
    (hi : ph i = some φ) (hm : φ.Within j) (hc : ¬ LosesInjector st (.fail i)) :
    Manned st.world (Function.update ph i (some (fault φ s))) := by
  have hg : ∀ e, j.guarded = some e → ∀ p, st.world.running p ≠ some (.injector e) :=
    fun e he p hp => hc (.raise hn he hp)
  constructor
  · exact h.injecting
  · intro p e hp
    rcases h.known p e hp with hpid | ⟨k, hk⟩
    · exact .inl hpid
    · by_cases hki : k = i
      · subst hki
        rw [hi, Option.some.injEq] at hk
        subst hk
        exact absurd hp (hg e hm p)
      · exact .inr ⟨k, by rw [Function.update_of_ne hki, hk]⟩
  -- A fault that loses a pid would lose a running injector.
  · intro k ψ e hk hψ p hp
    rcases of_update hk with ⟨rfl, rfl⟩ | ⟨-, hk⟩
    · rcases fault_unmanned hψ with hun | ⟨q, rfl | rfl⟩
      · exact h.idle k φ e hi hun p hp
      · exact hg e hm p hp
      · exact hg e hm p hp
    · exact h.idle k ψ e hk hψ p hp
  · intro k e q hk p hp
    by_cases hki : k = i
    · subst hki
      simp only [Function.update_self, Option.some.injEq] at hk
      rcases hk with hk | hk
      · exact absurd hk fault_forks.1
      · exact absurd hk fault_forks.2
    · simp only [Function.update_of_ne hki] at hk
      exact h.mine k e q hk p hp
  · intro k rows b hk y hy hu p hp
    rcases of_update hk with ⟨rfl, hφ⟩ | ⟨-, hk⟩
    · obtain ⟨rows₀, b₀, rfl, rfl | ⟨q, rfl, rfl⟩⟩ := fault_rows hφ
      · exact h.rows k rows b₀ hi y hy hu p hp
      -- A probe that raises strikes the pid off the rows.
      · obtain rfl : j = .onStartup := hm
        obtain ⟨z, hz, rfl⟩ := List.mem_map.1 hy
        unfold Pending.clear at hu hp ⊢
        split at hu
        · rename_i hq
          simp only [if_pos hq] at hp
          have hzp := h.rows k rows₀ b₀ hi z hz hu p hp
          rw [hq, Option.some.injEq] at hzp
          exact absurd (.probe hn (hzp ▸ hp)) hc
        · rename_i hq
          simp only [if_neg hq] at hp ⊢
          exact h.rows k rows₀ b₀ hi z hz hu p hp
    · exact h.rows k rows b hk y hy hu p hp

/-- The same rows, and no process that did not run. -/
theorem Manned.same (h : Manned w ph) (hs : ∀ e, w'.stateOf e = w.stateOf e) (hpid : ∀ e, w'.pidOf e = w.pidOf e)
    (hrun : ∀ p x, w'.running p = some x → w.running p = some x) : Manned w' ph := by
  constructor
  · intro p e hp
    simpa only [World.Injecting, hs] using h.injecting p e (hrun p _ hp)
  · intro p e hp
    rw [hpid]
    exact h.known p e (hrun p _ hp)
  · intro k ψ e hk hψ p hp
    exact h.idle k ψ e hk hψ p (hrun p _ hp)
  · intro k e q hk p hp
    exact h.mine k e q hk p (hrun p _ hp)
  · intro k rows b hk y hy hu p hp
    exact h.rows k rows b hk y hy hu p (hrun p _ hp)

/-- A new thread that knows what there is to know of the injectors. -/
theorem Manned.add {n : Nat} {ψ : Phase} (h : Manned w ph) (hn : ph n = none)
    (hun : ∀ e, ψ.Unmanned e → ∀ p, w.running p ≠ some (.injector e))
    (hmine : ∀ e q, ψ = .forked e q ∨ ψ = .tracked e q → ∀ p, w.running p = some (.injector e) → p = q)
    (hrows : ∀ rows b, ψ ≠ .reconciling rows b) : Manned w (Function.update ph n (some ψ)) := by
  constructor
  · exact h.injecting
  · intro p e hp
    refine (h.known p e hp).imp_right ?_
    rintro ⟨k, hk⟩
    have hkn : k ≠ n := by
      rintro rfl
      rw [hn] at hk
      cases hk
    exact ⟨k, by rw [Function.update_of_ne hkn, hk]⟩
  · intro k χ e hk hχ
    rcases of_update hk with ⟨rfl, rfl⟩ | ⟨-, hk⟩
    · exact hun e hχ
    · exact h.idle k χ e hk hχ
  · intro k e q hk
    by_cases hkn : k = n
    · subst hkn
      simp only [Function.update_self, Option.some.injEq] at hk
      exact hmine e q hk
    · simp only [Function.update_of_ne hkn] at hk
      exact h.mine k e q hk
  · intro k rows b hk
    rcases of_update hk with ⟨rfl, hψ⟩ | ⟨-, hk⟩
    · exact absurd hψ (hrows rows b)
    · exact h.rows k rows b hk

/-- The thread that a statement starts knows what its starter knew. -/
theorem Manned.spawn {n : Nat} {j : Job} (h : Manned w ph) (hl : Lifecycle w ph) (hi : ph i = some φ)
    (hr : Rule φ s w φ') (ha : app s w = some w') (hs : spawns s = some j) (hn : ph n = none) (hne : n ≠ i) :
    Manned w' (Function.update (Function.update ph i (some φ')) n (some j.entry)) := by
  obtain rfl := eq_of_spawns hs
  have hw : w' = w := by
    simp only [app, Option.some.injEq] at ha
    exact ha.symm
  subst hw
  have hn' : Function.update ph i (some φ') n = none := by rw [Function.update_of_ne hne, hn]
  refine (h.exec hl hi hr ha).add hn' ?_ ?_ ?_
  · intro e he
    cases hr with
    | neutral _ hn => exact hn.elim
    | reap hp => simp [Stmt.Probes] at hp
    | resolve | watch => exact he.elim
    | launch =>
      obtain rfl : _ = e := he
      exact h.idle i _ _ hi rfl
  · intro e q hq p hp
    cases hr with
    | neutral _ hn => exact hn.elim
    | reap hp => simp [Stmt.Probes] at hp
    | resolve | launch => rcases hq with hq | hq <;> cases hq
    | watch hy hu hpid =>
      rcases hq with hq | hq <;> cases hq
      have hyp := h.rows i _ _ hi _ hy hu p hp
      rcases hpid with hpid | hpid <;> rw [hyp] at hpid <;> cases hpid
      rfl
  · intro rows b
    cases j <;> simp [Job.entry]

/-- Nobody from outside brings a running injector. -/
theorem Manned.post {n : Nat} {j : Job} (h : Manned w ph) (hp : Live.post j w = some w') (hn : ph n = none) :
    Manned w' (Function.update ph n (some j.entry)) := by
  obtain ⟨he, hprocs⟩ := post_same hp
  have h' : Manned w' ph := by
    refine h.same (post_state hp) (fun e => ?_) fun p x hx => ?_
    · simp only [World.pidOf, he]
    · simpa only [World.running, hprocs] using hx
  refine h'.add hn ?_ ?_ ?_
  · intro e hj
    cases j <;> first | exact hj.elim | cases hp
  · intro e q hj
    cases j <;> first | cases hp | (rcases hj with hj | hj <;> cases hj)
  · intro rows b
    cases j <;> simp [Job.entry]

theorem manned_effect {st : State World Stmt Job} {m : Move Job Env} (hl : Lifecycle st.world ph) (h : Manned st.world ph)
    (hc : ¬ LosesInjector st m) (he : Effect operatorApi discipline st ph m w' ph' l) : Manned w' ph' := by
  cases he with
  | stay => exact h
  | exec _ hi _ hr ha _ => exact h.exec hl hi hr ha
  | spawn _ hi _ hr ha hs hn hne _ => exact h.spawn hl hi hr ha hs hn hne
  | fail hn hi hm => exact h.fail hn hi hm hc
  | @post j _ _ hp hn _ => exact h.post hp hn
  | env x => exact h.same (env_frame x _).state (env_frame x _).pid (env_frame x _).running
  | kill =>
    refine ⟨h.injecting, fun p e hp => ?_, by simp, by simp, by simp⟩
    by_contra hpid
    exact hc (.crash hp fun h' => hpid (.inl h'))

/-- The statement admits an episode, or starts its injector. -/
def Stmt.injects : Stmt → Bool
  | .insertEpisode _ _ | .startInjector _ => true
  | _ => false

/-- No episode was admitted, and no injector started, while one ran. -/
def Alone (log : List (Event World Stmt)) : Prop :=
  ∀ ev ∈ log, ev.stmt.injects = true → ev.raised = false → ∀ p e, ev.seen.running p ≠ some (.injector e)

theorem rule_alone (h : Manned w ph) (hl : Lifecycle w ph) (hi : ph i = some φ) (hr : Rule φ s w φ')
    (hs : s.injects = true) (p e : Nat) : w.running p ≠ some (.injector e) := by
  intro hp
  have hin := h.injecting p e hp
  have hf := hl.fits i φ hi
  cases s with
  | insertEpisode =>
    cases hr with
    | neutral _ hn => exact hn.elim
    | reap hp => simp [Stmt.Probes] at hp
    | insert => exact hf.free rfl e hin.inFlight
  | startInjector e' =>
    obtain ⟨rfl, -⟩ := rule_startsInjector hr
    obtain rfl := hl.single e e' hin.inFlight (hf.arms e' rfl).inFlight
    exact h.idle i _ e hi rfl p hp
  | _ => cases hs

theorem alone_effect {st : State World Stmt Job} {m : Move Job Env} (hl : Lifecycle st.world ph) (h : Manned st.world ph)
    (ha : Alone st.log) (he : Effect operatorApi discipline st ph m w' ph' l) : Alone l := by
  cases he with
  | stay | post | env | kill => exact ha
  | exec _ hi _ hr _ _ | spawn _ hi _ hr _ _ _ _ _ =>
    intro ev hev hs hnr
    rcases List.mem_cons.1 hev with rfl | hev
    · exact rule_alone h hl hi hr hs
    · exact ha ev hev hs hnr
  | fail =>
    intro ev hev hs hnr
    rcases List.mem_cons.1 hev with rfl | hev
    · cases hnr
    · exact ha ev hev hs hnr

end Run

/-- While an injector runs, its episode is in flight, and nothing is injected on
top of it. -/
structure OneInjector (st : State World Stmt Job) : Prop where
  inFlight : ∀ p e, st.world.running p = some (.injector e) → st.world.InFlight e
  alone : Alone st.log

/-- As long as the API loses no running injector, it starts no second one. -/
theorem no_second_injector {w : World} (h : Initial w) (ms : List (Move Job Env))
    (hc : operatorApi.Admits (fun st m => ¬ LosesInjector st m) (boot w) ms) : OneInjector (operatorApi.run (boot w) ms) := by
  have hboot : Manned w fun _ => none := by
    constructor <;> simp [h.idle]
  obtain ⟨ph, -, -, hm, ha⟩ := operatorApi.invariant operatorApi_sound (fun st m => ¬ LosesInjector st m)
    (fun w ph l => Lifecycle w ph ∧ Manned w ph ∧ Alone l)
    (fun _ _ _ _ _ _ _ ⟨hl, hm, ha⟩ hc he => ⟨lifecycle_effect hl he, manned_effect hl hm hc he, alone_effect hl hm ha he⟩)
    (agrees_boot w) ⟨lifecycle_boot h, hboot, by simp [Alone, boot]⟩ ms hc
  exact ⟨fun p e hp => (hm.injecting p e hp).inFlight, ha⟩

theorem not_losesInjector {st : State World Stmt Job} {m : Move Job Env} (hf : m.fails = false) (hk : m.kills = false) :
    ¬ LosesInjector st m := by
  rintro (_ | _ | _)
  · cases hf
  · cases hf
  · cases hk

theorem no_second_injector_waits : OneInjector (operatorApi.run (boot idle) (triggered "network-latency")) := by
  have calm : ∀ m ∈ triggered "network-latency", m.fails = false ∧ m.kills = false := by decide
  refine no_second_injector initial_idle _ ?_
  exact operatorApi.admits_of (fun _ m hm => not_losesInjector (calm m hm).1 (calm m hm).2) _

/-- The wrapper's poll raises, and the guard writes `failed`; the next request is
admitted, and its wrapper starts an injector. -/
def onTop : List (Move Job Env) :=
  triggered "network-latency" ++ [.step 2, .fail 2] ++ turns 2 3 ++ .post (.triggerInject "oom" .admin none "") :: turns 3 9 ++
    turns 4 2

/-- Two injectors run, the first for an episode that is over. -/
theorem injected_on_top : Initial idle ∧
    (operatorApi.run (boot idle) onTop).world.running 0 = some (.injector 0) ∧
    (operatorApi.run (boot idle) onTop).world.stateOf 0 = some failed ∧
    (operatorApi.run (boot idle) onTop).world.running 1 = some (.injector 1) ∧
    ¬ OneInjector (operatorApi.run (boot idle) onTop) := by
  have hrun : (operatorApi.run (boot idle) onTop).world.running 0 = some (.injector 0) := by decide +kernel
  have hst : (operatorApi.run (boot idle) onTop).world.stateOf 0 = some failed := by decide +kernel
  refine ⟨initial_idle, hrun, hst, by decide +kernel, fun h => ?_⟩
  obtain ⟨s, hs, hn⟩ := h.inFlight 0 0 hrun
  rw [hst, Option.some.injEq] at hs
  exact absurd (hs ▸ hn) (by decide)

end Wardence.Live
