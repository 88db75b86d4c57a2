import Wardence.Live.Spoiled
/-!
# Spoiled injections are not scored

No scorer is ever started for a spoiled injection, as long as a restart of the API does not lose
what the wrapper checks, and nobody abandons an episode once it is injected.
-/
namespace Wardence.Live.Checked

open Threads EpisodeState

/-! ## The threads -/

/-- A scorer of `e` may have been started, or may yet be. -/
def Taken (w : World) (e : Nat) : Prop := e ∈ w.scores ∨ (∃ pid, w.scorerOf pid = some e) ∨ w.stateOf e = some awaitingFix

/-- The wrapper of `e` has its injector, process `pid`, and has not given its verdict. -/
def Phase.Holds (e pid : Nat) : Phase → Prop
  | .watches e' p | .injected e' p | .clear e' p => e' = e ∧ p = pid
  | _ => False

/-- It has seen the injection done. -/
def Phase.Seen (e pid : Nat) : Phase → Prop
  | .injected e' p | .clear e' p => e' = e ∧ p = pid
  | _ => False

theorem Phase.Seen.holds {e pid : Nat} {ψ : Phase} (h : ψ.Seen e pid) : ψ.Holds e pid := by
  cases ψ <;> first | exact h | exact h.elim

/-- The injector's start, its watch and its end. -/
def Attends (e : Nat) (φ : Live.Phase) : Prop := (∃ pid, φ = .forked e pid) ∨ (∃ pid, φ = .tracked e pid) ∨ φ = .reaped e

theorem Attends.arms {e : Nat} {φ : Live.Phase} (h : Attends e φ) : φ.Arms e := by
  rcases h with ⟨pid, rfl⟩ | ⟨pid, rfl⟩ | rfl <;> rfl

/-- What thread `i` in these phases knows. -/
structure Knows (w : World) (log : List (Event World Stmt)) (i : Nat) (φ : Live.Phase) (ψ : Phase) : Prop where
  attends : ∀ e pid, ψ.Holds e pid → Attends e φ
  sole : ∀ e pid, ψ.Holds e pid → Sole w e pid
  seen : ∀ e pid, ψ.Seen e pid → w.exitOf pid = some 0 ∧ w.Recorded e
  -- as of its own last statement
  kept : ∀ e pid, ψ = .clear e pid → ¬ Abandoned (log.dropWhile (·.thread ≠ i)) e
  fresh : ∀ e, (φ = .fresh e ∨ ∃ b, φ = .launching e b) → ∀ p ∈ w.procs, p.program ≠ .injector e

section Rules
variable {w w' : World} {log : List (Event World Stmt)} {φ φ' : Live.Phase} {ψ ψ' : Phase} {s : Stmt} {i e pid : Nat}

/-- What the others do leaves a thread what it knows. -/
theorem Knows.others {l : List (Event World Stmt)} (h : Knows w log i φ ψ) (hr : Rows w w')
    (hi : ∀ e, φ.Arms e → Injectors w w' e) (hx : ∀ pid, w.exitOf pid = some 0 → w'.exitOf pid = some 0)
    (hl : l.dropWhile (·.thread ≠ i) = log.dropWhile (·.thread ≠ i)) : Knows w' l i φ ψ where
  attends := h.attends
  sole e pid hψ := (hi e (h.attends e pid hψ).arms).sole (h.sole e pid hψ)
  seen e pid hψ := (h.seen e pid hψ).imp (hx pid) hr.recorded
  kept e pid hψ := by
    rw [hl]
    exact h.kept e pid hψ
  fresh e hφ p' hp' hprog := by
    have harms : φ.Arms e := by rcases hφ with rfl | ⟨b, rfl⟩ <;> rfl
    obtain ⟨k, hk⟩ := List.mem_iff_getElem?.1 hp'
    obtain ⟨p, hk, hprog, -⟩ := hi e harms k p' hk hprog
    exact h.fresh e hφ p (List.mem_of_getElem? hk) hprog

/-- A wrapper attends to its injector until its verdict. -/
theorem rule_attends (hr : Live.Rule φ s w φ') (hs : Watching s) (h : Attends e φ) : Attends e φ' := by
  cases hr with
  | neutral | resolve | probe => exact h
  | hold | setPid =>
    rcases h with ⟨pid, h⟩ | ⟨pid, h⟩ | h <;> cases h
    exact .inr (.inl ⟨_, rfl⟩)
  | reap | kill =>
    rcases h with ⟨pid, h⟩ | ⟨pid, h⟩ | h <;> cases h
    exact .inr (.inr rfl)
  | free | publish | connect | select | gone | settle | close => rcases h with ⟨pid, h⟩ | ⟨pid, h⟩ | h <;> cases h
  | _ => exact hs.elim

theorem rule_holds (hr : Rule ψ s w ψ') (h : ψ'.Holds e pid) :
    (ψ.Holds e pid ∧ Watching s) ∨ (s = .startInjector e ∧ pid = w.procs.length) := by
  cases hr with
  | start =>
    obtain ⟨rfl, rfl⟩ := h
    exact .inr ⟨rfl, rfl⟩
  | watch hs => exact .inl ⟨h, hs⟩
  | wait hs => exact .inl ⟨h, watching_of_neutral hs⟩
  | inject | spare => exact .inl ⟨h, trivial⟩
  | _ => exact h.elim

/-- Nobody has an injector of an episode that is just inserted, and a thread keeps to the one it has not started. -/
theorem rule_fresh (hr : Live.Rule φ s w φ') (h : φ' = .fresh e ∨ ∃ b, φ' = .launching e b) :
    (φ = .fresh e ∨ ∃ b, φ = .launching e b) ∨ e = w.episodes.length := by
  cases hr with
  | neutral | resolve | probe | publish => exact .inl h
  | lose => exact .inl h
  | insert =>
    rcases h with h | ⟨b, h⟩ <;> cases h
    exact .inr rfl
  | release =>
    rcases h with h | ⟨b, h⟩ <;> cases h
    exact .inl (.inr ⟨_, rfl⟩)
  | _ => rcases h with h | ⟨b, h⟩ <;> cases h

/-- A thread's own statement leaves it what its next phases say. -/
theorem Knows.exec (h : Knows w log i φ ψ) (hr : Live.Rule φ s w φ') (hr' : Rule ψ s w ψ') (ha : app s w = some w')
    (hflag : ∀ e, Abandoned log e → ∃ r, w.episodes[e]? = some r ∧ r.abandonRequested = true)
    (hprocs : ∀ p ∈ w.procs, ∀ e, p.program = .injector e → e < w.episodes.length) :
    Knows w' (⟨i, s, w, false⟩ :: log) i φ' ψ' where
  attends e pid hψ := by
    rcases rule_holds hr' hψ with ⟨hψ, hs⟩ | ⟨rfl, rfl⟩
    · exact rule_attends hr hs (h.attends e pid hψ)
    · exact .inl ⟨_, (rule_startsInjector hr).2⟩
  sole e pid hψ := by
    rcases rule_holds hr' hψ with ⟨hψ, hs⟩ | ⟨rfl, rfl⟩
    · refine (app_injectors ha ?_).sole (h.sole e pid hψ)
      rintro rfl
      exact hs.elim
    -- the first injector of the episode
    · intro k p' hk hprog
      simp only [app, Option.some.injEq] at ha
      subst ha
      rw [List.getElem?_append] at hk
      split at hk
      · exact absurd hprog (h.fresh e (.inl (rule_startsInjector hr).1) p' (List.mem_of_getElem? hk))
      · have hlt := (List.getElem?_eq_some_iff.1 hk).1
        simp only [List.length_singleton] at hlt
        omega
  seen e pid hψ := by
    have hold : ψ.Seen e pid → w'.exitOf pid = some 0 ∧ w'.Recorded e :=
      fun hψ => (h.seen e pid hψ).imp (app_exitOf ha) (app_rows ha).recorded
    cases hr' with
    | inject hexit hrow hrec =>
      obtain ⟨rfl, rfl⟩ := hψ
      exact ⟨app_exitOf ha hexit, (app_rows ha).recorded ⟨_, hrow, hrec⟩⟩
    | wait | spare => exact hold hψ
    | _ => exact hψ.elim
  kept e pid hψ := by
    rw [List.dropWhile_cons_of_neg (by simp), abandoned_cons]
    cases hr' with
    | spare hclear =>
      cases hψ
      rintro (hev | hlog)
      · obtain ⟨_, _, hs, -⟩ := abandons_cases hev
        cases hs
      · obtain ⟨r, hr, hset⟩ := hflag e hlog
        simp [hr, hset] at hclear
    | _ => cases hψ
  fresh e hφ p' hp' hprog := by
    have hs : s ≠ .startInjector e := by
      rintro rfl
      rw [(rule_startsInjector hr).2] at hφ
      rcases hφ with hφ | ⟨b, hφ⟩ <;> cases hφ
    obtain ⟨k, hk⟩ := List.mem_iff_getElem?.1 hp'
    obtain ⟨p, hk, hprog, -⟩ := app_injectors ha hs k p' hk hprog
    have hp := List.mem_of_getElem? hk
    rcases rule_fresh hr hφ with hφ | rfl
    · exact h.fresh e hφ p hp hprog
    · exact Nat.lt_irrefl _ (hprocs p hp _ hprog)

theorem fault_fresh (h : Live.fault φ s = .fresh e ∨ ∃ b, Live.fault φ s = .launching e b) :
    φ = .fresh e ∨ ∃ b, φ = .launching e b := by
  unfold Live.fault at h
  split at h <;> first | exact h | (rcases h with h | ⟨b, h⟩ <;> cases h)

theorem fault_owner {g : Bool} : Live.fault φ s ≠ .owner e g := by
  cases φ with
  | owner e' g' => cases g' <;> simp [Live.fault]
  | _ =>
    unfold Live.fault
    split <;> simp_all

theorem fault_holds : ¬ (fault ψ s).Holds e pid := by cases ψ <;> exact id

/-- After an exception there is nothing to know, but of an injector that is not started. -/
theorem Knows.fail {l : List (Event World Stmt)} (h : Knows w log i φ ψ) : Knows w l i (Live.fault φ s) (fault ψ s) where
  attends _ _ hψ := absurd hψ fault_holds
  sole _ _ hψ := absurd hψ fault_holds
  seen _ _ hψ := absurd hψ.holds fault_holds
  kept e pid hψ := by
    have hholds : (fault ψ s).Holds e pid := by
      rw [hψ]
      exact ⟨rfl, rfl⟩
    exact absurd hholds fault_holds
  fresh e hφ := h.fresh e (fault_fresh hφ)

/-- A thread that has no injector. -/
theorem Knows.of_none (hψ : ∀ e pid, ¬ ψ.Holds e pid)
    (hφ : ∀ e, (φ = .fresh e ∨ ∃ b, φ = .launching e b) → ∀ p ∈ w.procs, p.program ≠ .injector e) : Knows w log i φ ψ where
  attends e pid h := absurd h (hψ e pid)
  sole e pid h := absurd h (hψ e pid)
  seen e pid h := absurd h.holds (hψ e pid)
  kept e pid h := by
    subst h
    exact absurd ⟨rfl, rfl⟩ (hψ e pid)
  fresh := hφ

/-- A new scorer has just been started. -/
theorem app_scorer (ha : app s w = some w') (h : w'.scorerOf pid = some e) :
    w.scorerOf pid = some e ∨ ∃ t, s = .startScorer e t := by
  have happend : ∀ x : Proc, w'.procs = w.procs ++ [x] → w.scorerOf pid = some e ∨ x.program.scored = some e := by
    intro x hp
    simp only [World.scorerOf, hp, List.getElem?_append] at h ⊢
    split at h
    · exact .inl h
    · obtain ⟨p, hk, hscored⟩ := Option.bind_eq_some_iff.1 h
      obtain rfl : p = x := List.mem_singleton.1 (List.mem_of_getElem? hk)
      exact .inr hscored
  rcases app_procs ha with hp | ⟨q, -, rfl⟩ | ⟨e', -, hp⟩ | ⟨e', t, rfl, hp⟩
  · exact .inl (by simpa only [World.scorerOf, hp] using h)
  · exact .inl (by rwa [scorerOf_ended] at h)
  · exact (happend _ hp).imp_right fun h => by simp [Program.scored] at h
  · refine (happend _ hp).imp_right fun hs => ⟨t, ?_⟩
    cases hs
    rfl

/-- An episode comes to `awaiting_fix` by its write. -/
theorem app_awaiting (ha : app s w = some w') (h : w'.stateOf e = some awaitingFix) :
    w.stateOf e = some awaitingFix ∨ ∃ x, s = .setState e awaitingFix x := by
  cases s with
  | insertEpisode c u =>
    rw [(stateOf_insert ha).2, Function.update_apply] at h
    split at h
    · cases h
    · exact .inl h
  | setState e' t x =>
    by_cases he : e = e'
    · subst he
      simp only [app, Option.some.injEq] at ha
      subst ha
      rw [stateOf_setRow, if_pos rfl] at h
      obtain ⟨r, -, hr⟩ := Option.bind_eq_some_iff.1 h
      cases hr
      exact .inr ⟨x, rfl⟩
    · exact .inl (by rwa [(row_setState ha he).1] at h)
  | claim e' =>
    by_cases hst : w.stateOf e' = some awaitingFix
    · rw [stateOf_claim ha hst, Function.update_apply] at h
      split at h
      · cases h
      · exact .inl h
    · simp only [app, if_neg hst, Option.some.injEq] at ha
      exact .inl (by rwa [← ha] at h)
  | _ => exact .inl (by rwa [app_stateOf ha rfl] at h)

end Rules

/-! ## Every run -/

/-- Every thread is in a phase of its lifecycle, and a wrapper in one of its checks. -/
abbrev both : Typestate World Stmt Job (Live.Phase × Phase) := Live.discipline.both discipline

/-- What no check of the API's sees to: the startup handler and a watcher take an episode to `awaiting_fix` only if it
is not spoiled, no logout slips in between a wrapper's last check and its write, nor comes when its episode is injected but its
evidence not confirmed, and a batch scorer scores nothing that is spoiled or not injected. -/
def Heeds (st : State World Stmt Job) : Move Job Env → Prop
  | .step i => ∀ x ∈ st.next i, Timely st.world x.2 ∧ ∀ e ∈ x.2.arms,
      if x.1.isWrapper then ¬ Abandoned (st.log.takeWhile (·.thread ≠ i)) e else Unspoiled st.world st.log e
  | .env (.scoreBatch e) => Safe st.world st.log e
  | _ => True

structure Inv (w : World) (ph : Nat → Option (Live.Phase × Phase)) (log : List (Event World Stmt)) : Prop where
  procs : ∀ p ∈ w.procs, ∀ e, p.program = .injector e → e < w.episodes.length
  flagged : ∀ e, Abandoned log e → ∃ r, w.episodes[e]? = some r ∧ r.abandonRequested = true
  taken : ∀ e, Taken w e → Safe w log e
  owner : ∀ i e g ψ, ph i = some (.owner e g, ψ) → Safe w log e
  knows : ∀ i φ ψ, ph i = some (φ, ψ) → Knows w log i φ ψ

section Run
variable {w w' : World} {ph ph' : Nat → Option (Live.Phase × Phase)} {log l : List (Event World Stmt)} {i : Nat}
  {φ φ' : Live.Phase} {ψ ψ' : Phase} {s : Stmt} {j : Job} {e : Nat}

theorem first_of {χ : Live.Phase × Phase} (hi : ph i = some χ) : firsts ph i = some χ.1 := by simp [firsts, hi]

/-- Whoever writes `awaiting_fix` writes it for an episode that is not spoiled. -/
theorem arms_unspoiled {x : Extra} (h : Knows w log i φ ψ) (hm : ψ.Within j) (hr : Rule ψ (.setState e awaitingFix x) w ψ')
    (hc : if j.isWrapper then ¬ Abandoned (log.takeWhile (·.thread ≠ i)) e else Unspoiled w log e) : Unspoiled w log e := by
  cases hr with
  | other =>
    cases j <;> first | exact hc | exact hm.elim
  | away hs | watch hs | wait hs => exact hs.elim
  | @arm _ pid =>
    obtain ⟨c, rfl⟩ : ∃ c, j = .runLiveEpisode e c := by
      cases j with
      | runLiveEpisode e' c =>
        obtain rfl : e = e' := hm
        exact ⟨c, rfl⟩
      | _ => cases hm
    obtain ⟨hexit, hrec⟩ := h.seen e pid ⟨rfl, rfl⟩
    refine ⟨fun p hp hprog => ?_, fun hlog => ?_⟩
    · obtain ⟨k, hk⟩ := List.mem_iff_getElem?.1 hp
      obtain rfl := h.sole e pid ⟨rfl, rfl⟩ k p hk hprog
      exact ⟨by simpa only [World.exitOf, hk, Option.bind_some] using hexit, hrec⟩
    · rw [← List.takeWhile_append_dropWhile (p := fun ev => decide (ev.thread ≠ i)) (l := log)] at hlog
      obtain ⟨ev, hev, hab⟩ := hlog
      rcases List.mem_append.1 hev with hev | hev
      · exact hc ⟨ev, hev, hab⟩
      · exact h.kept e pid rfl ⟨ev, hev, hab⟩

/-- What a statement makes of an episode that may be scored after it. -/
theorem Inv.taken_exec (h : Inv w ph log) (hf : φ.Fits w) (hi : ph i = some (φ, ψ)) (hm : ψ.Within j) (hr : Live.Rule φ s w φ')
    (hr' : Rule ψ s w ψ') (ha : app s w = some w') (ht : Timely w s)
    (hc : ∀ e ∈ s.arms, if j.isWrapper then ¬ Abandoned (log.takeWhile (·.thread ≠ i)) e else Unspoiled w log e)
    (hw : Taken w' e) : Safe w' (⟨i, s, w, false⟩ :: log) e := by
  rcases hw with hw | ⟨pid, hw⟩ | hw
  · rw [app_scores ha] at hw
    exact (h.taken e (.inl hw)).exec hf hr ha ht
  · rcases app_scorer ha hw with hw | ⟨t, rfl⟩
    · exact (h.taken e (.inr (.inl ⟨pid, hw⟩))).exec hf hr ha ht
    · obtain ⟨g, rfl, -⟩ := rule_scores hr (e := e) (by simp [Stmt.startsScorer])
      exact (h.owner i e g ψ hi).exec hf hr ha ht
  · rcases app_awaiting ha hw with hold | ⟨x, rfl⟩
    · exact (h.taken e (.inr (.inr hold))).exec hf hr ha ht
    · have hun := arms_unspoiled (h.knows i φ ψ hi) hm hr' (hc e rfl)
      refine ⟨?_, ⟨(app_injectors ha (by simp)).injected (app_rows ha) hun.injected, ?_⟩, fun hin => hin.ne_awaiting hw⟩
      · obtain ⟨r, hrow, -⟩ := Option.bind_eq_some_iff.1 hw
        exact (List.getElem?_eq_some_iff.1 hrow).1
      · rw [abandoned_cons]
        rintro (hev | hlog)
        · obtain ⟨_, _, hs, -⟩ := abandons_cases hev
          cases hs
        · exact hun.kept hlog

theorem Inv.exec (h : Inv w ph log) (hl : Lifecycle w (firsts ph)) (hi : ph i = some (φ, ψ)) (hm : ψ.Within j)
    (hr : Live.Rule φ s w φ') (hr' : Rule ψ s w ψ') (ha : app s w = some w') (ht : Timely w s)
    (hc : ∀ e ∈ s.arms, if j.isWrapper then ¬ Abandoned (log.takeWhile (·.thread ≠ i)) e else Unspoiled w log e) :
    Inv w' (Function.update ph i (some (φ', ψ'))) (⟨i, s, w, false⟩ :: log) := by
  have hf : φ.Fits w := hl.fits i φ (first_of hi)
  have hrows := app_rows ha
  refine ⟨?_, ?_, fun e hw => h.taken_exec hf hi hm hr hr' ha ht hc hw, ?_, ?_⟩
  · intro p' hp' e hprog
    by_cases hs : s = .startInjector e
    · subst hs
      obtain ⟨rfl, -⟩ := rule_startsInjector hr
      obtain ⟨t, hst, -⟩ := hf.arms e rfl
      obtain ⟨r, hrow, -⟩ := Option.bind_eq_some_iff.1 hst
      exact hrows.length (List.getElem?_eq_some_iff.1 hrow).1
    · obtain ⟨k, hk⟩ := List.mem_iff_getElem?.1 hp'
      obtain ⟨p, hk, hprog, -⟩ := app_injectors ha hs k p' hk hprog
      exact hrows.length (h.procs p (List.mem_of_getElem? hk) e hprog)
  · intro e hab
    rcases abandoned_cons.1 hab with hev | hlog
    · exact abandons_flag hev ha
    · obtain ⟨r, hrow, hset⟩ := h.flagged e hlog
      obtain ⟨r', hrow', hkeep⟩ := hrows e r hrow
      exact ⟨r', hrow', hkeep.abandoned hset⟩
  · intro k e g χ hk
    rcases of_update hk with ⟨rfl, hφ⟩ | ⟨-, hk⟩
    · cases hφ
      rcases rule_owner hr rfl with rfl | hst
      · exact (h.owner k e g ψ hi).exec hf hr ha ht
      · exact (h.taken e (.inr (.inr hst))).exec hf hr ha ht
    · exact (h.owner k e g χ hk).exec hf hr ha ht
  · intro k χ ρ hk
    rcases of_update hk with ⟨rfl, hφ⟩ | ⟨hki, hk⟩
    · cases hφ
      exact (h.knows k φ ψ hi).exec hr hr' ha h.flagged h.procs
    · refine (h.knows k χ ρ hk).others hrows (fun e he => app_injectors ha ?_) (fun _ => app_exitOf ha) ?_
      · -- nobody else starts the injector of what a thread arms
        rintro rfl
        obtain ⟨rfl, -⟩ := rule_startsInjector hr
        exact hl.apart i k _ χ (Ne.symm hki) (first_of hi) (first_of hk) (.inl ⟨e, .inl rfl, .inl he⟩)
      · rw [List.dropWhile_cons_of_pos (by simpa using Ne.symm hki)]

theorem Inv.add {n : Nat} (h : Inv w ph log) (hn : Knows w log n φ ψ) (ho : ∀ e g, φ ≠ .owner e g) :
    Inv w (Function.update ph n (some (φ, ψ))) log := by
  refine ⟨h.procs, h.flagged, h.taken, fun k e g χ hk => ?_, fun k χ ρ hk => ?_⟩
  · rcases of_update hk with ⟨-, hφ⟩ | ⟨-, hk⟩
    · cases hφ
      exact absurd rfl (ho e g)
    · exact h.owner k e g χ hk
  · rcases of_update hk with ⟨rfl, hφ⟩ | ⟨-, hk⟩
    · cases hφ
      exact hn
    · exact h.knows k χ ρ hk

theorem entry_owner (j : Job) (e : Nat) (g : Bool) : j.entry ≠ .owner e g := by cases j <;> simp [Job.entry]

theorem entry_holds (e pid : Nat) : ¬ (entry j).Holds e pid := by cases j <;> exact id

theorem entry_knows {n : Nat} (hj : j.isWrapper = false) : Knows w log n j.entry (entry j) := by
  refine .of_none entry_holds fun e he => ?_
  cases j with
  | runLiveEpisode => cases hj
  | _ => simp [Job.entry] at he

/-- A new wrapper has what its request knew. -/
theorem spawned_knows {n : Nat} (h : Knows w log i φ ψ) (hr : Live.Rule φ (.startThread j) w φ') :
    Knows w l n j.entry (entry j) := by
  cases hj : j.isWrapper with
  | false => exact entry_knows hj
  | true =>
    refine .of_none entry_holds fun e he => ?_
    cases j with
    | runLiveEpisode e' c =>
      cases hr with
      | neutral _ hn => exact hn.elim
      | reap hp => simp [Stmt.Probes] at hp
      | launch =>
        rcases he with he | ⟨b, he⟩ <;> cases he
        exact h.fresh _ (.inr ⟨false, rfl⟩)
    | _ => cases hj

/-- What happens around the API. -/
theorem Inv.frame (h : Inv w ph log) (hr : Rows w w') (hi : ∀ e, Injectors w w' e) (hs : ∀ e, w'.stateOf e = w.stateOf e)
    (hx : ∀ pid, w.exitOf pid = some 0 → w'.exitOf pid = some 0) (ht : ∀ e, Taken w' e → Taken w e ∨ Safe w log e) :
    Inv w' ph log where
  procs p' hp' e hprog := by
    obtain ⟨k, hk⟩ := List.mem_iff_getElem?.1 hp'
    obtain ⟨p, hk, hprog, -⟩ := hi e k p' hk hprog
    exact hr.length (h.procs p (List.mem_of_getElem? hk) e hprog)
  flagged e hab := by
    obtain ⟨r, hrow, hset⟩ := h.flagged e hab
    obtain ⟨r', hrow', hkeep⟩ := hr e r hrow
    exact ⟨r', hrow', hkeep.abandoned hset⟩
  taken e hw := by
    rcases ht e hw with hw | hsafe
    · exact (h.taken e hw).frame hr (hi e) (hs e)
    · exact hsafe.frame hr (hi e) (hs e)
  owner k e g χ hk := (h.owner k e g χ hk).frame hr (hi e) (hs e)
  knows k χ ρ hk := (h.knows k χ ρ hk).others hr (fun e _ => hi e) hx rfl

theorem Inv.fail (h : Inv w ph log) (hi : ph i = some (φ, ψ)) :
    Inv w (Function.update ph i (some (Live.fault φ s, fault ψ s))) (⟨i, s, w, true⟩ :: log) := by
  refine ⟨h.procs, ?_, fun e hw => (h.taken e hw).raised, fun k e g χ hk => ?_, fun k χ ρ hk => ?_⟩
  · intro e hab
    exact h.flagged e ((abandoned_cons.1 hab).resolve_left raised_abandons)
  · rcases of_update hk with ⟨rfl, hφ⟩ | ⟨-, hk⟩
    · simp only [Prod.mk.injEq] at hφ
      exact absurd hφ.1 fault_owner
    · exact (h.owner k e g χ hk).raised
  · rcases of_update hk with ⟨rfl, hφ⟩ | ⟨hki, hk⟩
    · cases hφ
      exact (h.knows k φ ψ hi).fail
    · refine (h.knows k χ ρ hk).others (.of_eq rfl) (fun e _ => .of_eq rfl) (fun _ => id) ?_
      rw [List.dropWhile_cons_of_pos (by simpa using Ne.symm hki)]

theorem inv_effect {st : State World Stmt Job} {m : Move Job Env} (hl : Lifecycle st.world (firsts ph))
    (h : Inv st.world ph st.log) (hc : Heeds st m) (he : Effect operatorApi both st ph m w' ph' l) : Inv w' ph' l := by
  cases he with
  | stay => exact h
  | exec hn hi hm hr ha _ => exact h.exec hl hi hm.2 hr.1 hr.2 ha (hc _ hn).1 (hc _ hn).2
  | @spawn i j s χ χ' _ j' n hn hi hm hr ha hs _ _ _ =>
    have hexec := h.exec hl hi hm.2 hr.1 hr.2 ha (hc _ hn).1 (hc _ hn).2
    obtain rfl := eq_of_spawns hs
    have hw : w' = st.world := by
      have ha : app (.startThread j') st.world = some w' := ha
      simp only [app, Option.some.injEq] at ha
      exact ha.symm
    subst hw
    exact hexec.add (spawned_knows (h.knows i χ.1 χ.2 hi) hr.1) (entry_owner j')
  | fail _ hi _ => exact h.fail hi
  | @post j n _ hp _ _ =>
    have hp : Live.post j st.world = some w' := hp
    obtain ⟨hrows, hprocs⟩ := post_same hp
    refine Inv.add (h.frame (.of_eq hrows) (fun _ => .of_eq hprocs) (post_state hp) (fun pid => ?_) fun e he => .inl ?_) ?_
      (entry_owner j)
    · exact fun hx => by simpa only [World.exitOf, hprocs] using hx
    · simpa only [Taken, World.scorerOf, World.stateOf, post_scores hp, hrows, hprocs] using he
    · refine entry_knows ?_
      cases j <;> first | rfl | cases hp
  | env x =>
    refine h.frame (env_rows x _) (env_injectors x _) (env_frame x _).state (fun _ => env_exitOf x) fun e he => ?_
    rcases he with he | ⟨pid, he⟩ | he
    · rcases env_scores he with he | rfl | ⟨pid, t, hrun⟩
      · exact .inl (.inl he)
      · exact .inr hc
      · refine .inl (.inr (.inl ⟨pid, ?_⟩))
        obtain ⟨p, hp, hx⟩ := Option.bind_eq_some_iff.1 hrun
        simp only [Proc.running, Option.ite_none_right_eq_some, Option.some.injEq] at hx
        simp [World.scorerOf, hp, hx.2, Program.scored]
    · exact .inl (.inr (.inl ⟨pid, (env_scorerOf x).symm.trans he⟩))
    · exact .inl (.inr (.inr (((env_frame x _).state e).symm.trans he)))
  | kill =>
    refine ⟨h.procs, h.flagged, fun e he => ?_, by simp, by simp⟩
    exact (h.taken e he).frame (.of_eq rfl) (.of_eq rfl) rfl

end Run

/-- The API may first start where every row of `scores` and every process is some episode's, and nothing spoiled was scored. -/
structure Clean (w : World) : Prop where
  scores : ∀ e ∈ w.scores, e < w.episodes.length
  procs : ∀ p ∈ w.procs, p.program.episode < w.episodes.length
  unscored : NeverScored (boot w)

theorem inv_boot {w : World} (h : Initial w) (hw : Clean w) : Inv w (fun _ => none) [] := by
  refine ⟨?_, by simp [Abandoned], ?_, by simp, by simp⟩
  · intro p hp e hprog
    have := hw.procs p hp
    rwa [hprog] at this
  · intro e he
    have hrow : e < w.episodes.length := by
      rcases he with he | ⟨pid, he⟩ | he
      · exact hw.scores e he
      · obtain ⟨p, hp, hscored⟩ := Option.bind_eq_some_iff.1 he
        have := hw.procs p (List.mem_of_getElem? hp)
        cases hprog : p.program with
        | injector => simp [hprog, Program.scored] at hscored
        | scorer e' t =>
          obtain rfl : e' = e := by simpa [hprog, Program.scored] using hscored
          rwa [hprog] at this
      · obtain ⟨r, hr, -⟩ := Option.bind_eq_some_iff.1 he
        exact (List.getElem?_eq_some_iff.1 hr).1
    have hgood : ¬ w.InjectorFailed e := by
      intro hbad
      obtain ⟨hscores, hscorer⟩ := hw.unscored e (.inl hbad)
      rcases he with he | ⟨pid, he⟩ | he
      · exact hscores he
      · exact hscorer pid he
      · exact absurd (h.settled e _ he) (by decide)
    refine ⟨hrow, ⟨fun p hp hprog => ?_, by simp [Abandoned]⟩, ?_⟩
    · cases hx : p.exit with
      | none =>
        obtain ⟨k, hk⟩ := List.mem_iff_getElem?.1 hp
        have := h.idle k
        simp [World.running, hk, Proc.running, hx] at this
      | some c =>
        by_contra hbad
        refine hgood ⟨p, hp, hprog, c, hx, ?_⟩
        by_cases hc : c = 0
        · subst hc
          exact .inr fun hrec => hbad ⟨rfl, hrec⟩
        · exact .inl hc
    · rintro ⟨t, ht, hu⟩
      exact (terminal_unsettled (h.settled e t ht)).1 hu

instance (r : Episode) (u : Option String) : Decidable (r.LoggedOut u) := inferInstanceAs (Decidable (_ ∧ _ ∧ _))

instance (ev : Event World Stmt) (e : Nat) : Decidable (Abandons ev e) := inferInstanceAs (Decidable (_ ∧ _))

instance (log : List (Event World Stmt)) (e : Nat) : Decidable (Abandoned log e) := inferInstanceAs (Decidable (∃ ev ∈ log, _))

instance (w : World) (e : Nat) : Decidable (w.Recorded e) := inferInstanceAs (Decidable (∃ r ∈ w.episodes[e]?, _))

instance (w : World) (e : Nat) : Decidable (w.Injected e) := inferInstanceAs (Decidable (∀ p ∈ w.procs, _))

instance (w : World) (s : Stmt) : Decidable (Timely w s) := inferInstanceAs (Decidable (∀ u ∈ s.abandons, _))

instance (w : World) (log : List (Event World Stmt)) (e : Nat) : Decidable (Unspoiled w log e) :=
  decidable_of_iff (w.Injected e ∧ ¬ Abandoned log e) ⟨fun h => ⟨h.1, h.2⟩, fun h => ⟨h.1, h.2⟩⟩

instance (w : World) (e : Nat) : Decidable (w.Injecting e) :=
  inferInstanceAs (Decidable (∃ s, w.stateOf e = some s ∧ s.Unsettled))

instance (w : World) (log : List (Event World Stmt)) (e : Nat) : Decidable (Safe w log e) :=
  decidable_of_iff (e < w.episodes.length ∧ Unspoiled w log e ∧ ¬ w.Injecting e)
    ⟨fun h => ⟨h.1, h.2.1, h.2.2⟩, fun h => ⟨h.1, h.2, h.3⟩⟩

instance (st : State World Stmt Job) : ∀ m : Move Job Env, Decidable (Heeds st m)
  | .step i => inferInstanceAs (Decidable (∀ x ∈ st.next i, Timely st.world x.2 ∧ ∀ e ∈ x.2.arms,
      if x.1.isWrapper then ¬ Abandoned (st.log.takeWhile (·.thread ≠ i)) e else Unspoiled st.world st.log e))
  | .env (.scoreBatch e) => inferInstanceAs (Decidable (Safe st.world st.log e))
  | .env (.tick _) | .env (.record ..) | .env (.evidence ..) | .env (.score _) | .env (.exit ..) | .env (.cluster ..)
  | .env (.batch ..) | .fail _ | .post _ | .kill => .isTrue trivial

theorem clean_idle : Clean idle := by
  refine ⟨by simp [idle], by simp [idle], fun e he => ?_⟩
  rcases he with ⟨p, hp, -⟩ | ⟨ev, hev, -⟩
  · cases hp
  · cases hev

/-- Somebody logs out while the injector runs, and it ends well. -/
def loggedOut : List (Move Job Env) :=
  .post .onStartup :: turns 0 4 ++ .post (.triggerInject "network-latency" .admin (some "demo") "") :: turns 1 9 ++ turns 2 6 ++
    .post (.logout (some "demo")) :: turns 3 3

/-- The wrapper finds the request, and writes `failed`. -/
def abandoned : List (Move Job Env) :=
  loggedOut ++ [.env (.record 0 0 "chaos"), .env (.exit 0 0), .env (.tick 100)] ++ turns 2 9

end Wardence.Live.Checked
