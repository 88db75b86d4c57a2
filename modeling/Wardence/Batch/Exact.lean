import Wardence.Batch.Progress
/-!
# The progress file is exact

One statement of the script at a time: each keeps the file in step with the
database, as long as it is sure of what it counts.
-/
namespace Wardence.Batch

open Threads

/-! ## A statement -/

/-- A resumed plan is in step with the database and no injector of its is left
running; a growing count is the attempt's own episode, and all the plan's are scored. -/
def Sure (w : World) : Stmt → Prop
  | .loadPlan => ∀ ps, w.unfinished = some ps → Flat w ps.toProgress
  | .countAfter pid c before => before < w.realEpisodeCount c →
    (w.rowOf pid).isSome = true ∧ ∀ e ∈ w.episodes, e.plan = some w.plans → e.scored = true
  | _ => True

section Step
variable {w w' : World} {p : Progress} {φ φ' : Phase} {s : Stmt}

theorem Sync.still (h : Sync w) (hf : w'.file = w.file) (he : w'.episodes = w.episodes) (hn : w'.plans = w.plans)
    (hp : ∀ q ∈ w'.procs, q.recording.isSome = true → q ∈ w.procs)
    (hr : ∀ c pid, w'.Running c pid → w.Running c pid) : Sync w' := by
  refine h.drift hf (fun c => .still ?_ (le_of_eq ?_) (hr c)) (by rw [he, hn]; exact h.rows) ?_
  · simp only [World.recorded, he, hn]
  · simp only [World.scored, he, hn]
  · intro q hq c n hc
    rw [hn]
    exact h.procs q (hp q hq (by rw [hc]; rfl)) c n hc

/-- The plan's chunks are saved anew, in step with the database. -/
theorem Sync.save (h : Sync w) {ps : PlanState} (ht : Tied w ps.toProgress)
    (hc : ps.status = .complete → ps.Finished ∧ Flat w ps.toProgress) : Sync { w with file := some ps } := by
  refine ⟨?_, ?_, h.rows, h.procs⟩
  · rintro ps' hps
    obtain rfl := Option.some.inj hps
    exact ⟨fun c hg => ⟨(ht.kept c hg).1, (ht.kept c hg).2, (ht.kept c hg).3, (ht.kept c hg).4⟩, ht.dropped, ht.within⟩
  · rintro ps' hps
    obtain rfl := Option.some.inj hps
    exact hc

theorem Filed.tied (h : Sync w) (hf : Filed w p) : Tied w p := by
  obtain ⟨ps, hps, rfl, -⟩ := hf
  exact h.tied ps hps

theorem Tied.of_flat (h : Tied w p) (hfl : Flat w p) {c : String} (hg : p.gaveUpOn c = false) : w.scored c = w.recorded c :=
  (h.level_scored hg (hfl c hg)).trans (hfl c hg).1.symm

theorem tied_advance {idx : Nat} {c : String} (h : Tied w p) (hd : p.Due idx c)
    (hothers : ∀ c', p.gaveUpOn c' = false → c' ≠ c → Level w p c') (hrec : w.recorded c = p.counted c + 1)
    (hsc : w.scored c = p.counted c + 1) (hrun : ∀ pid, ¬ w.Running c pid) :
    Tied w (p.count idx (p.done idx + 1)) ∧ Flat w (p.count idx (p.done idx + 1)) := by
  obtain ⟨⟨item, hi, rfl, hlt⟩, hg⟩ := hd
  have hidx : idx < p.plan.length := (List.getElem?_eq_some_iff.1 hi).1
  have hcount : (p.count idx (p.done idx + 1)).counted item.faultClass = p.counted item.faultClass + 1 := by
    have := p.counted_count (n := p.done idx + 1) hi
    omega
  have hflat : Flat w (p.count idx (p.done idx + 1)) := by
    intro c' hg'
    by_cases hc : c' = item.faultClass
    · subst hc
      exact ⟨hrec.trans hcount.symm, hrun⟩
    · obtain ⟨h1, h2⟩ := hothers c' hg' hc
      exact ⟨h1.trans (Progress.counted_count_ne hi (Ne.symm hc)).symm, h2⟩
  refine ⟨⟨fun c' hg' => (hflat c' hg').close ?_, h.dropped, ?_⟩, hflat⟩
  · by_cases hc : c' = item.faultClass
    · subst hc
      exact hcount.le.trans hsc.ge
    · rw [Progress.counted_count_ne hi (Ne.symm hc)]
      exact (h.kept c' hg').counted
  · intro k item' hk hg'
    rw [Progress.done_count hidx]
    by_cases hki : k = idx
    · rw [if_pos hki]
      obtain rfl : item' = item := Option.some.inj ((hki ▸ hk : p.plan[idx]? = some item').symm.trans hi)
      exact hlt
    · rw [if_neg hki]
      exact h.within k item' hk hg'

theorem tied_skip {idx n : Nat} {item : Item} (h : Tied w p) (hfl : Flat w p) (hi : p.plan[idx]? = some item)
    (hg : p.gaveUpOn item.faultClass = true) : Tied w (p.count idx n) ∧ Flat w (p.count idx n) := by
  have hcount : ∀ c, p.gaveUpOn c = false → (p.count idx n).counted c = p.counted c := by
    intro c hc
    refine Progress.counted_count_ne hi ?_
    rintro rfl
    rw [hg] at hc
    cases hc
  have hflat : Flat w (p.count idx n) := fun c hc => ⟨(hfl c hc).1.trans (hcount c hc).symm, (hfl c hc).2⟩
  refine ⟨⟨fun c hc => (hflat c hc).close ?_, h.dropped, ?_⟩, hflat⟩
  · rw [hcount c hc]
    exact (h.kept c hc).counted
  · intro k item' hk hg'
    rw [Progress.done_count (List.getElem?_eq_some_iff.1 hi).1]
    by_cases hki : k = idx
    · obtain rfl : item' = item := Option.some.inj ((hki ▸ hk : p.plan[idx]? = some item').symm.trans hi)
      rw [Progress.gaveUpOn_count, hg] at hg'
      cases hg'
    · rw [if_neg hki]
      exact h.within k item' hk hg'

theorem tied_drop {c : String} {g : GaveUp} (h : Tied w p) (hfl : Flat w p) : Tied w (p.drop c g) ∧ Flat w (p.drop c g) := by
  have hsub : ∀ c', (p.drop c g).gaveUpOn c' = false → p.gaveUpOn c' = false := by
    intro c' hg
    rw [Progress.gaveUpOn_drop, Bool.or_eq_false_iff] at hg
    exact hg.2
  have hflat : Flat w (p.drop c g) := fun c' hg => hfl c' (hsub c' hg)
  refine ⟨⟨fun c' hg => (hflat c' hg).close (h.kept c' (hsub c' hg)).counted, fun c' _ => ?_,
    fun k item hk hg => h.within k item hk (hsub _ hg)⟩, hflat⟩
  cases hg : p.gaveUpOn c' with
  | true => exact h.dropped c' hg
  | false => exact ⟨h.of_flat hfl hg, (hfl c' hg).2⟩

theorem counted_startOf {items : List Item} (c : String) : (startOf items).counted c = 0 := by
  unfold Progress.counted startOf
  induction items with
  | nil => rfl
  | cons item items ih => simpa [List.replicate_succ] using ih

theorem done_startOf {items : List Item} (idx : Nat) : (startOf items).done idx = 0 := by
  simp only [Progress.done, startOf, List.getD_eq_getElem?_getD, List.getElem?_replicate]
  split <;> rfl

theorem sync_newPlan (h : Sync w) (items : List Item) (hw : app (.newPlan (startOf items)) w = some w') :
    Sync w' ∧ Filed w' (startOf items).toProgress ∧ Flat w' (startOf items).toProgress := by
  obtain rfl := Option.some.inj hw
  have hnone : ∀ c, ({ w with file := some (startOf items), plans := w.plans + 1, stamped := [] } : World).recorded c = 0 := by
    intro c
    refine List.countP_eq_zero.2 fun e he => ?_
    simp only [decide_eq_true_eq, not_and]
    intro hp
    exact absurd (h.rows e he _ hp) (Nat.not_succ_le_self _)
  have hrun : ∀ c pid, ¬ ({ w with file := some (startOf items), plans := w.plans + 1, stamped := [] } : World).Running c pid := by
    rintro c pid ⟨q, hq, hr⟩
    exact absurd (h.procs q (List.mem_of_getElem? hq) _ _ hr) (Nat.not_succ_le_self _)
  have hflat : Flat ({ w with file := some (startOf items), plans := w.plans + 1, stamped := [] } : World) (startOf items).toProgress :=
    fun c _ => ⟨(hnone c).trans (counted_startOf c).symm, hrun c⟩
  refine ⟨⟨?_, ?_, ?_, ?_⟩, ⟨_, rfl, rfl, by simp [startOf]⟩, hflat⟩
  · rintro ps hps
    obtain rfl := Option.some.inj hps
    refine ⟨fun c hg => (hflat c hg).close ?_, fun c hg => ?_, fun idx item hi _ => ?_⟩
    · rw [counted_startOf]
      exact Nat.zero_le _
    · simp [Progress.gaveUpOn, startOf] at hg
    · rw [done_startOf]
      exact Nat.zero_le _
  · rintro ps hps hc
    obtain rfl := Option.some.inj hps
    cases hc
  · exact fun e he n hn => (h.rows e he n hn).trans (Nat.le_succ _)
  · exact fun q hq c n hn => (h.procs q hq c n hn).trans (Nat.le_succ _)

/-- The injector that has just been started is the only one. -/
theorem sync_inject {idx b : Nat} {c : String} (h : Sync w) (hf : Filed w p) (hfl : Flat w p) (hd : p.Due idx c)
    (hb : b ≤ w.realEpisodeCount c) (hw : app (.startInjector c) w = some w') :
    Sync w' ∧ Filed w' p ∧ InFlight w' p idx b w.procs.length := by
  obtain rfl := Option.some.inj hw
  have hrun : ∀ c' pid, ({ w with procs := w.procs ++ [⟨.injector c w.plans, none, none⟩] } : World).Running c' pid →
      w.Running c' pid ∨ c' = c ∧ pid = w.procs.length := by
    rintro c' pid ⟨q, hq, hr⟩
    rw [List.getElem?_append] at hq
    split at hq
    · exact .inl ⟨q, hq, hr⟩
    · rename_i hlt
      obtain ⟨hpid, rfl⟩ := List.getElem?_eq_some_iff.1 hq
      rw [List.length_singleton] at hpid
      refine .inr ⟨?_, by omega⟩
      rw [List.getElem_singleton] at hr
      exact (Prod.ext_iff.1 (Option.some.inj hr)).1.symm
  have hlevel : ∀ c', p.gaveUpOn c' = false → c' ≠ c →
      Level ({ w with procs := w.procs ++ [⟨.injector c w.plans, none, none⟩] } : World) p c' := by
    intro c' hg hc
    refine ⟨(hfl c' hg).1, fun pid hpid => ?_⟩
    rcases hrun c' pid hpid with h' | ⟨h', -⟩
    · exact (hfl c' hg).2 pid h'
    · exact hc h'
  have halone : ∀ pid, ({ w with procs := w.procs ++ [⟨.injector c w.plans, none, none⟩] } : World).Running c pid →
      pid = w.procs.length := by
    intro pid hpid
    rcases hrun c pid hpid with h' | ⟨-, h'⟩
    · exact ((hfl c hd.2).2 pid h').elim
    · exact h'
  have htied := Filed.tied h hf
  refine ⟨⟨?_, ?_, h.rows, ?_⟩, hf, c, ⟨.injector c w.plans, none, none⟩, hd, hlevel, ?_, rfl, halone, (hfl c hd.2).1, hb⟩
  · obtain ⟨ps, hps, rfl, -⟩ := hf
    rintro ps' hps'
    obtain rfl := Option.some.inj (hps.symm.trans hps')
    refine ⟨fun c' hg => ?_, fun c' hg => ⟨(htied.dropped c' hg).1, fun pid hpid => ?_⟩, htied.within⟩
    · by_cases hc : c' = c
      · subst hc
        exact ⟨(htied.kept c' hg).counted, (htied.kept c' hg).recorded, fun _ _ => (hfl c' hg).1,
          fun pid pid' h1 h2 => (halone pid h1).trans (halone pid' h2).symm⟩
      · exact (hlevel c' hg hc).close (htied.kept c' hg).counted
    · rcases hrun c' pid hpid with h' | ⟨rfl, -⟩
      · exact (htied.dropped c' hg).2 pid h'
      · rw [hd.2] at hg
        cases hg
  · obtain ⟨ps, hps, -, hst⟩ := hf
    intro ps' hps' hc
    obtain rfl := Option.some.inj (hps.symm.trans hps')
    exact (hst hc).elim
  · intro q hq c' n hn
    rcases List.mem_append.1 hq with hq | hq
    · exact h.procs q hq c' n hn
    · obtain rfl := List.mem_singleton.1 hq
      exact (Prod.ext_iff.1 (Option.some.inj hn)).2.ge
  · exact List.getElem?_concat_length

/-- Of an attempt whose injector has ended nothing is under way. -/
theorem InFlight.ended {idx b pid : Nat} (h : InFlight w p idx b pid) (he : (w.exitOf pid).isSome = true) {c : String}
    (hd : p.Due idx c) : ∃ q, w.procs[pid]? = some q ∧ (∀ pid', ¬ w.Running c pid') ∧
      (∀ c', p.gaveUpOn c' = false → c' ≠ c → Level w p c') ∧ w.recorded c = p.counted c + q.rows ∧
      b + q.rows ≤ w.realEpisodeCount c := by
  obtain ⟨c', q, hd', hothers, hq, -, halone, hrec, hcount⟩ := h
  obtain rfl := hd.unique hd'
  refine ⟨q, hq, fun pid' hpid => ?_, hothers, hrec, hcount⟩
  obtain rfl := halone pid' hpid
  obtain ⟨q', hq', hr⟩ := hpid
  rw [World.exitOf, hq', recording_eq.1 hr] at he
  cases he

/-- What one statement keeps. -/
theorem rule_step (hr : Rule φ s w φ') (hw : app s w = some w') (hs : Sync w) (hh : Holds w φ) (hsure : Sure w s) :
    Sync w' ∧ Holds w' φ' := by
  cases hr with
  | calm _ _ hc =>
    cases s with
    | look =>
      obtain rfl := Option.some.inj hw
      exact ⟨hs, hh⟩
    | sleepUntil t =>
      simp only [app] at hw
      split at hw
      · obtain rfl := Option.some.inj hw
        exact ⟨hs, hh⟩
      · cases hw
    | checkStop =>
      obtain rfl := Option.some.inj hw
      exact ⟨hs, hh⟩
    | stamp | unlinkPauseFlag =>
      obtain rfl := Option.some.inj hw
      exact ⟨hs.still rfl rfl rfl (fun _ h _ => h) fun _ _ h => h, hh⟩
    | _ => exact hc.elim
  | reap =>
    obtain rfl := Option.some.inj hw
    refine ⟨hs.still rfl rfl rfl ?_ fun c pid' h => (running_modify (fun q => recording_ended q _) rfl h).1, trivial⟩
    intro q hq hrec
    obtain ⟨q', hq', rfl | rfl⟩ := mem_modify hq
    · exact hq'
    · rw [recording_ended] at hrec
      cases hrec
  | load hu =>
    obtain rfl := Option.some.inj hw
    obtain ⟨hf, hst⟩ := Option.filter_eq_some_iff.1 hu
    exact ⟨hs, ⟨_, hf, rfl, by simpa using hst⟩, hsure _ hu⟩
  | missing =>
    obtain rfl := Option.some.inj hw
    exact ⟨hs, trivial⟩
  | new =>
    obtain ⟨h1, h2, h3⟩ := sync_newPlan hs _ hw
    exact ⟨h1, h2, h3⟩
  | clean hσ | dirty hσ =>
    obtain rfl := Option.some.inj hw
    rcases hσ with rfl | rfl <;> exact ⟨hs, hh⟩
  | fix | goOn =>
    obtain rfl := Option.some.inj hw
    exact ⟨hs, hh⟩
  | stop =>
    obtain rfl := Option.some.inj hw
    exact ⟨hs, hh.1⟩
  | count hd =>
    obtain rfl := Option.some.inj hw
    exact ⟨hs, hh.1, hh.2, fun c' hd' => by rw [hd.unique hd']⟩
  | poll =>
    obtain rfl := Option.some.inj hw
    exact ⟨hs, hh⟩
  | inject hd =>
    obtain ⟨hf, hfl, hb⟩ := hh
    exact sync_inject hs hf hfl hd (hb _ hd) hw
  | verified he =>
    simp only [app, he, Option.isSome_some, if_true, Option.some.injEq] at hw
    subst hw
    exact ⟨hs, hh.1, hh.2, by rw [he]; rfl⟩
  | unverified =>
    simp only [app] at hw
    split at hw
    · obtain rfl := Option.some.inj hw
      exact ⟨hs, hh.1⟩
    · cases hw
  | score =>
    rename_i p idx b pid f
    obtain ⟨hf, ⟨c, q, hd, hothers, hq, hprog, halone, hrec, hcount⟩, he⟩ := hh
    obtain rfl := Option.some.inj hw
    have hrun : ∀ c' pid', ({ w with procs := w.procs ++ [⟨.scorer, none, none⟩] } : World).Running c' pid' → w.Running c' pid' := by
      rintro c' pid' ⟨q', hq', hr'⟩
      rw [List.getElem?_append] at hq'
      split at hq'
      · exact ⟨q', hq', hr'⟩
      · obtain ⟨hlt, rfl⟩ := List.getElem?_eq_some_iff.1 hq'
        rw [List.getElem_singleton] at hr'
        cases hr'
    have hold : (w.procs ++ [⟨.scorer, none, none⟩])[pid]? = w.procs[pid]? :=
      List.getElem?_append_left (List.getElem?_eq_some_iff.1 hq).1
    refine ⟨hs.still rfl rfl rfl ?_ hrun, hf, ⟨c, q, hd, ?_, hold.trans hq, hprog, fun pid' h => halone pid' (hrun c pid' h),
      hrec, hcount⟩, ?_⟩
    · intro q' hq' hr'
      rcases List.mem_append.1 hq' with h | h
      · exact h
      · obtain rfl := List.mem_singleton.1 h
        cases hr'
    · exact fun c' hg hc => ⟨(hothers c' hg hc).1, fun pid' h => (hothers c' hg hc).2 pid' (hrun c' pid' h)⟩
    · rwa [World.exitOf, hold]
  | scored he =>
    simp only [app, he, Option.isSome_some, if_true, Option.some.injEq] at hw
    subst hw
    exact ⟨hs, hh⟩
  | unscored =>
    simp only [app] at hw
    split at hw
    · obtain rfl := Option.some.inj hw
      exact ⟨hs, hh.1⟩
    · cases hw
  | failed hd hle =>
    rename_i p idx b pid c f
    obtain rfl := Option.some.inj hw
    obtain ⟨hf, hfl, he⟩ := hh
    obtain ⟨q, -, hrun, hothers, hrec, hcount⟩ := hfl.ended he hd
    refine ⟨hs, hf, fun c' hg => ?_⟩
    by_cases hc : c' = c
    · subst hc
      exact ⟨by omega, hrun⟩
    · exact hothers c' hg hc
  | succeeded hd hlt =>
    obtain rfl := Option.some.inj hw
    obtain ⟨hf, hfl, he⟩ := hh
    obtain ⟨q, hq, hrun, hothers, hrec, hcount⟩ := hfl.ended he hd
    obtain ⟨hrow, hall⟩ := hsure hlt
    have hone : q.rows = 1 := by
      rw [World.rowOf, hq] at hrow
      exact if_pos hrow
    rw [hone] at hrec
    exact ⟨hs, hf, _, hd, hothers, hrec, (World.scored_eq_recorded.2 fun e he' hp _ => hall e he' hp).trans hrec, hrun⟩
  | advance hp hst =>
    obtain ⟨hf, c, hd, hothers, hrec, hsc, hrun⟩ := hh
    obtain rfl := Option.some.inj hw
    obtain ⟨ht, hfl⟩ := tied_advance (hf.tied hs) hd hothers hrec hsc hrun
    rw [← hp] at ht hfl
    exact ⟨hs.save ht fun h => (hst h).elim, ⟨_, rfl, rfl, hst⟩, hfl⟩
  | skip hi hg hp hst =>
    obtain rfl := Option.some.inj hw
    obtain ⟨ht, hfl⟩ := tied_skip (hh.1.tied hs) hh.2 hi hg
    rw [← hp] at ht hfl
    exact ⟨hs.save ht fun h => (hst h).elim, ⟨_, rfl, rfl, hst⟩, hfl⟩
  | giveUp _ hp hst =>
    obtain rfl := Option.some.inj hw
    obtain ⟨ht, hfl⟩ := tied_drop (hh.1.tied hs) hh.2
    rw [← hp] at ht hfl
    exact ⟨hs.save ht fun h => (hst h).elim, ⟨_, rfl, rfl, hst⟩, hfl⟩
  | pause hσ hp hst =>
    obtain rfl := Option.some.inj hw
    rename_i σ p ps f _
    have hf : Filed w p := by
      cases hσ with
      | unclean | down => exact hh.1
      | refused | broken => exact hh
    refine ⟨hs.save (hp ▸ hf.tied hs) fun h => ?_, trivial⟩
    rw [hst] at h
    cases h
  | complete hfin hp hst =>
    obtain rfl := Option.some.inj hw
    exact ⟨hs.save (hp ▸ hh.1.tied hs) fun _ => ⟨hp ▸ hfin, hp ▸ hh.2⟩, trivial⟩
  | archive =>
    obtain rfl := Option.some.inj hw
    exact ⟨⟨fun _ h => (by cases h), fun _ h => (by cases h), hs.rows, hs.procs⟩, trivial⟩
  | finish =>
    obtain rfl := Option.some.inj hw
    exact ⟨hs.still rfl rfl rfl (fun _ h _ => h) fun _ _ h => h, trivial⟩

end Step

/-! ## A run -/

theorem holds_idle {w : World} {φ : Phase} (h : φ.stage = .idle) : Holds w φ := by
  obtain ⟨σ, f⟩ := φ
  obtain rfl : σ = .idle := h
  trivial

theorem holds_fault {w : World} (φ : Phase) (s : Stmt) : Holds w (discipline.fault φ s) := by
  obtain ⟨σ, f⟩ := φ
  cases σ <;> trivial

theorem sync_contract : Contract Sure (fun w _ => Sync w) fun w _ _ φ => Holds w φ where
  idle := holds_idle
  step hr ha hs hh hc := rule_step hr ha hs hh hc
  fail h := h
  others h _ := h
  fault φ s _ := holds_fault φ s
  post h := h.still rfl rfl rfl (fun _ h _ => h) fun _ _ h => h
  entry _ := trivial
  env x h := sync_env x h
  around x h := holds_env x h
  kill h := h.still rfl rfl rfl (fun _ h _ => h) fun _ _ h => h

section Runs
variable {w : World}

/-- The file `ps` says of each class that is not given up how many episodes the plan's
runs recorded and scored, but for one in progress; a complete plan, exactly. -/
structure Exact (w : World) (ps : PlanState) : Prop where
  within : ∀ c, ps.gaveUpOn c = false → ps.counted c ≤ w.scored c ∧ w.scored c ≤ ps.counted c + 1
  complete : ps.status = .complete →
    (∀ (idx : Nat) (item : Item), ps.plan[idx]? = some item → ps.gaveUpOn item.faultClass = false → ps.done idx = item.target) ∧
    (∀ c, ps.gaveUpOn c = false → w.recorded c = ps.counted c) ∧
    ∀ e ∈ w.episodes, e.plan = some w.plans → e.scored = true

theorem Sync.exact (h : Sync w) {ps : PlanState} (hf : w.file = some ps) : Exact w ps := by
  have ht := h.tied ps hf
  refine ⟨fun c hg => ⟨(ht.kept c hg).counted, World.scored_le_recorded.trans (ht.kept c hg).recorded⟩, fun hc => ?_⟩
  obtain ⟨hfin, hfl⟩ := h.complete ps hf hc
  refine ⟨fun idx item hi hg => ?_, fun c hg => (hfl c hg).1, fun e he hp => ?_⟩
  · refine le_antisymm (ht.within idx item hi hg) ((hfin idx item hi).resolve_right ?_)
    rw [hg]
    exact Bool.false_ne_true
  · have hall : w.scored e.faultClass = w.recorded e.faultClass := by
      cases hg : ps.gaveUpOn e.faultClass with
      | true => exact (ht.dropped _ hg).1
      | false => exact ht.of_flat hfl hg
    exact World.scored_eq_recorded.1 hall e he hp rfl

theorem World.Untouched.sync (h : w.Untouched) : Sync w := by
  refine ⟨fun ps hps => ?_, fun ps hps => ?_, fun e he n hn => ?_, fun q hq => ?_⟩
  · rw [h.file] at hps
    cases hps
  · rw [h.file] at hps
    cases hps
  · rw [h.episodes e he] at hn
    cases hn
  · rw [h.procs] at hq
    cases hq

/-- In a sure run the progress file is exact, whatever crashes, fails or pauses. -/
theorem progress_exact (w : World) (hw : w.Untouched) (ms : List (Move (Option (List Item)) Env))
    (hc : batch.Admits (Always Sure) ⟨w, [], []⟩ ms) (ps : PlanState) (hf : (batch.run ⟨w, [], []⟩ ms).world.file = some ps) :
    Exact (batch.run ⟨w, [], []⟩ ms).world ps :=
  (sync_contract.holds hw.sync hc).exact hf

end Runs

/-! ## Runs that are sure, and runs that are not -/

theorem running_iff {w : World} {c : String} : (∀ pid, ¬ w.Running c pid) ↔ ∀ q ∈ w.procs, q.recording ≠ some (c, w.plans) := by
  constructor
  · intro h q hq hr
    obtain ⟨pid, hpid⟩ := List.mem_iff_getElem?.1 hq
    exact h pid ⟨q, hpid, hr⟩
  · rintro h pid ⟨q, hq, hr⟩
    exact h q (List.mem_of_getElem? hq) hr

theorem counted_eq_zero {p : Progress} {c : String} (h : c ∉ p.plan.map (·.faultClass)) : p.counted c = 0 := by
  refine List.sum_eq_zero fun n hn => ?_
  obtain ⟨k, hk⟩ := List.mem_iff_getElem?.1 hn
  obtain ⟨item, m, hi, -, rfl⟩ := List.getElem?_zipWith_eq_some.1 hk
  refine if_neg ?_
  rintro rfl
  exact h (List.mem_map_of_mem (List.mem_of_getElem? hi))

/-- The classes that anything is known of. -/
def World.classes (w : World) (p : Progress) : List String :=
  p.plan.map (·.faultClass) ++ w.episodes.map (·.faultClass) ++ w.procs.filterMap fun q => q.recording.map (·.1)

instance (w : World) (p : Progress) : Decidable (Flat w p) :=
  decidable_of_iff (∀ c ∈ w.classes p, p.gaveUpOn c = false →
      w.recorded c = p.counted c ∧ ∀ q ∈ w.procs, q.recording ≠ some (c, w.plans)) <| by
    constructor
    · intro h c hg
      by_cases hc : c ∈ w.classes p
      · exact ⟨(h c hc hg).1, running_iff.2 (h c hc hg).2⟩
      · simp only [World.classes, List.mem_append, not_or] at hc
        refine ⟨?_, running_iff.2 fun q hq hr => hc.2 (List.mem_filterMap.2 ⟨q, hq, by rw [hr]; rfl⟩)⟩
        rw [counted_eq_zero hc.1.1, World.recorded, List.countP_eq_zero]
        intro e he
        simp only [decide_eq_true_eq, not_and]
        rintro - rfl
        exact hc.1.2 (List.mem_map_of_mem he)
    · exact fun h c _ hg => ⟨(h c hg).1, running_iff.1 (h c hg).2⟩

instance (w : World) : (s : Stmt) → Decidable (Sure w s)
  | .loadPlan => inferInstanceAs (Decidable (∀ ps ∈ w.unfinished, Flat w ps.toProgress))
  | .countAfter pid c before => inferInstanceAs (Decidable (before < w.realEpisodeCount c →
      (w.rowOf pid).isSome = true ∧ ∀ e ∈ w.episodes, e.plan = some w.plans → e.scored = true))
  | .look | .sleepUntil _ | .checkStop | .stamp _ | .infraReady | .checkBaselines | .fixBaselines | .pauseRequested | .unlinkPauseFlag | .newPlan _
  | .savePlan _ | .archivePlan | .countBefore _ | .startInjector _ | .startScorer | .wait _ | .kill _ | .finish => .isTrue trivial

/-- Thread `i` makes an attempt: its injector `pid` records episode `r` and the scorer scores it, or fails. -/
def attempted (i pid r : Nat) (scorer : Bool) : List (Move (Option (List Item)) Env) :=
  .env (.tick 1000) :: steps i 20 ++ [.env (.record pid), .env (.exit pid 0)] ++ steps i 5 ++ .env (.tick 35) :: steps i 5 ++
    (if scorer then [.env (.score r), .env (.exit (pid + 1) 0)] else [.env (.exit (pid + 1) 1)])

/-- The scorer fails in the middle of a plan, and the plan is resumed. -/
def failedScorer : List (Move (Option (List Item)) Env) :=
  .post (some [⟨"oom", 1⟩]) :: attempted 0 0 0 false ++ steps 0 10 ++ .post none :: attempted 1 2 1 true ++ steps 1 8

/-- Two crashes, each between a score and the save. -/
def crashes : List (Move (Option (List Item)) Env) :=
  .post (some [⟨"oom", 2⟩]) :: attempted 0 0 0 true ++ .kill :: .post none :: attempted 1 2 1 true

theorem progress_inexact :
    (∃ ps, (batch.run ⟨quietWorld, [], []⟩ failedScorer).world.file = some ps ∧
      ¬ Exact (batch.run ⟨quietWorld, [], []⟩ failedScorer).world ps) ∧
    ∃ ps, (batch.run ⟨quietWorld, [], []⟩ crashes).world.file = some ps ∧
      ¬ Exact (batch.run ⟨quietWorld, [], []⟩ crashes).world ps := by
  constructor
  · obtain ⟨ps, hf, hst⟩ := (Option.any_eq_true _ _).1 (show (batch.run ⟨quietWorld, [], []⟩ failedScorer).world.file.any
      (·.status = .complete) = true by decide +kernel)
    refine ⟨ps, hf, fun h => absurd (h.complete (by simpa using hst)).2.2 ?_⟩
    decide +kernel
  · obtain ⟨ps, hf, hps⟩ := (Option.any_eq_true _ _).1 (show (batch.run ⟨quietWorld, [], []⟩ crashes).world.file.any
      (fun ps => ps.gaveUpOn "oom" = false ∧ ps.counted "oom" = 0) = true by decide +kernel)
    obtain ⟨hg, hc⟩ : ps.gaveUpOn "oom" = false ∧ ps.counted "oom" = 0 := by simpa using hps
    refine ⟨ps, hf, fun h => absurd (h.within "oom" hg).2 ?_⟩
    rw [hc]
    decide +kernel

/-- An episode, a crash while nothing is under way, and another. -/
def calmCrash : List (Move (Option (List Item)) Env) :=
  .post (some [⟨"oom", 2⟩]) :: attempted 0 0 0 true ++ steps 0 10 ++ .kill :: .post none :: attempted 1 2 1 true ++ steps 1 8

theorem progress_exact_crash : ∃ ps, (batch.run ⟨quietWorld, [], []⟩ calmCrash).world.file = some ps ∧ ps.status = .complete ∧
    Exact (batch.run ⟨quietWorld, [], []⟩ calmCrash).world ps := by
  obtain ⟨ps, hf, hst⟩ := (Option.any_eq_true _ _).1 (show (batch.run ⟨quietWorld, [], []⟩ calmCrash).world.file.any
    (·.status = .complete) = true by decide +kernel)
  refine ⟨ps, hf, by simpa using hst, ?_⟩
  exact progress_exact quietWorld ⟨rfl, rfl, rfl, by decide⟩ calmCrash (by decide +kernel) ps hf

end Wardence.Batch
