import Wardence.Batch.Runs
/-!
# The progress file and the database

What the runner counts against what its plan's injectors recorded and a scorer
scored. No statement compares the two, so that file and database stay in step as
long as no run of the script resumes a plan that is out of step, and no attempt is
counted on the strength of somebody else's row.
-/
namespace Wardence.Batch

open Threads

/-! ## Counts -/

/-- The episodes of the class that the plan's chunks count. -/
def Progress.counted (p : Progress) (c : String) : Nat :=
  (p.plan.zipWith (fun item n => if item.faultClass = c then n else 0) p.completed).sum

namespace World

/-- The episodes of the class that the plan's runs have recorded, and those of them that have been scored. -/
def recorded (w : World) (c : String) : Nat := w.episodes.countP fun e => e.plan = some w.plans ∧ e.faultClass = c

def scored (w : World) (c : String) : Nat :=
  w.episodes.countP fun e => e.plan = some w.plans ∧ e.faultClass = c ∧ e.scored = true

/-- Process `pid` may yet record an episode of the class for the plan. -/
def Running (w : World) (c : String) (pid : Nat) : Prop :=
  ∃ q, w.procs[pid]? = some q ∧ q.recording = some (c, w.plans)

end World

theorem sum_zipWith_set {α : Type} (f : α → Nat → Nat) (n : Nat) {l : List α} {m : List Nat} {idx : Nat} {a : α}
    (hl : l[idx]? = some a) (hm : m.length = l.length) :
    (l.zipWith f (m.set idx n)).sum + f a (m.getD idx 0) = (l.zipWith f m).sum + f a n := by
  induction l generalizing m idx with
  | nil => cases hl
  | cons x l ih =>
    cases m with
    | nil => cases hm
    | cons k m =>
      cases idx with
      | zero =>
        obtain rfl : x = a := by simpa using hl
        simp only [List.set_cons_zero, List.zipWith_cons_cons, List.sum_cons, List.getD_cons_zero]
        omega
      | succ idx =>
        have := ih (m := m) (show l[idx]? = some a by simpa using hl) (by simpa using hm)
        simp only [List.set_cons_succ, List.zipWith_cons_cons, List.sum_cons, List.getD_cons_succ]
        omega

namespace Progress
variable {p : Progress} {idx n : Nat} {item : Item} {c : String}

theorem counted_count (hi : p.plan[idx]? = some item) :
    (p.count idx n).counted item.faultClass + p.done idx = p.counted item.faultClass + n := by
  have := sum_zipWith_set (fun item' n => if item'.faultClass = item.faultClass then n else 0) n hi p.sized
  simpa [counted, count, done] using this

theorem counted_count_ne (hi : p.plan[idx]? = some item) (hc : item.faultClass ≠ c) :
    (p.count idx n).counted c = p.counted c := by
  have := sum_zipWith_set (fun item' n => if item'.faultClass = c then n else 0) n hi p.sized
  simpa [counted, count, hc] using this

@[simp] theorem counted_drop {c' : String} {g : GaveUp} : (p.drop c' g).counted c = p.counted c := rfl

end Progress

namespace World
variable {w : World} {c : String}

theorem scored_le_recorded : w.scored c ≤ w.recorded c :=
  List.countP_mono_left fun e _ he => by
    simp only [decide_eq_true_eq] at he ⊢
    exact ⟨he.1, he.2.1⟩

/-- Every episode of the class that the plan's runs recorded has its score. -/
theorem scored_eq_recorded : w.scored c = w.recorded c ↔
    ∀ e ∈ w.episodes, e.plan = some w.plans → e.faultClass = c → e.scored = true := by
  have hsplit : w.scored c = (w.episodes.filter fun e => e.plan = some w.plans ∧ e.faultClass = c).countP (·.scored) := by
    rw [scored, List.countP_filter]
    refine List.countP_congr fun e _ => ?_
    simp only [decide_eq_true_eq, Bool.and_eq_true]
    tauto
  have htotal : w.recorded c = (w.episodes.filter fun e => e.plan = some w.plans ∧ e.faultClass = c).length := by
    rw [recorded, List.countP_eq_length_filter]
  rw [hsplit, htotal, List.countP_eq_length]
  simp only [List.mem_filter, decide_eq_true_eq, and_imp]

end World

/-! ## In step -/

/-- Of the class, all that is recorded is counted, and nothing is under way. -/
def Level (w : World) (p : Progress) (c : String) : Prop := w.recorded c = p.counted c ∧ ∀ pid, ¬ w.Running c pid

/-- A class that is not given up: what is counted is scored, and at most one episode is yet to be counted. -/
structure Close (w : World) (p : Progress) (c : String) : Prop where
  counted : p.counted c ≤ w.scored c
  recorded : w.recorded c ≤ p.counted c + 1
  running : ∀ pid, w.Running c pid → w.recorded c = p.counted c
  alone : ∀ pid pid', w.Running c pid → w.Running c pid' → pid = pid'

/-- What may be said of the file's chunks at any time. -/
structure Tied (w : World) (p : Progress) : Prop where
  kept : ∀ c, p.gaveUpOn c = false → Close w p c
  dropped : ∀ c, p.gaveUpOn c = true → w.scored c = w.recorded c ∧ ∀ pid, ¬ w.Running c pid
  within : ∀ (idx : Nat) (item : Item), p.plan[idx]? = some item → p.gaveUpOn item.faultClass = false → p.done idx ≤ item.target

def Flat (w : World) (p : Progress) : Prop := ∀ c, p.gaveUpOn c = false → Level w p c

structure Sync (w : World) : Prop where
  tied : ∀ ps : PlanState, w.file = some ps → Tied w ps.toProgress
  complete : ∀ ps : PlanState, w.file = some ps → ps.status = .complete → ps.Finished ∧ Flat w ps.toProgress
  rows : ∀ e ∈ w.episodes, ∀ n, e.plan = some n → n ≤ w.plans
  procs : ∀ q ∈ w.procs, ∀ c n, q.recording = some (c, n) → n ≤ w.plans

/-- An attempt at chunk `idx` whose injector is `pid`: what it recorded is all that is not counted. -/
def InFlight (w : World) (p : Progress) (idx before pid : Nat) : Prop :=
  ∃ c q, p.Due idx c ∧ (∀ c', p.gaveUpOn c' = false → c' ≠ c → Level w p c') ∧
    w.procs[pid]? = some q ∧ q.program = .injector c w.plans ∧ (∀ pid', w.Running c pid' → pid' = pid) ∧
    w.recorded c = p.counted c + q.rows ∧ before + q.rows ≤ w.realEpisodeCount c

/-- What a thread in phase `φ` may count on. -/
def Holds (w : World) (φ : Phase) : Prop :=
  match φ.stage with
  | .ready p | .unclean p => Filed w p ∧ Flat w p
  | .opened p idx b _ => Filed w p ∧ Flat w p ∧ ∀ c, p.Due idx c → b ≤ w.realEpisodeCount c
  | .injecting p idx b pid => Filed w p ∧ InFlight w p idx b pid
  | .injected p idx b pid | .scoring p idx b pid _ | .scored p idx b pid =>
    Filed w p ∧ InFlight w p idx b pid ∧ (w.exitOf pid).isSome = true
  | .earned p idx => Filed w p ∧ ∃ c, p.Due idx c ∧ (∀ c', p.gaveUpOn c' = false → c' ≠ c → Level w p c') ∧
    w.recorded c = p.counted c + 1 ∧ w.scored c = p.counted c + 1 ∧ ∀ pid, ¬ w.Running c pid
  | .broken p | .refused p => Filed w p
  | _ => True

theorem Level.close {w : World} {p : Progress} {c : String} (h : Level w p c) (hs : p.counted c ≤ w.scored c) : Close w p c :=
  ⟨hs, h.1.le.trans (Nat.le_succ _), fun _ _ => h.1, fun pid _ hp => (h.2 pid hp).elim⟩

/-- Where all that is recorded is counted, it is scored. -/
theorem Tied.level_scored {w : World} {p : Progress} {c : String} (h : Tied w p) (hg : p.gaveUpOn c = false) (hl : Level w p c) :
    w.scored c = p.counted c :=
  le_antisymm (World.scored_le_recorded.trans hl.1.le) (h.kept c hg).counted

/-! ## What happens around the runner -/

/-- What can come of a class while no thread acts: an injector records, others end, rows get their scores. -/
inductive Drift (w w' : World) (c : String) : Prop
  | still : w'.recorded c = w.recorded c → w.scored c ≤ w'.scored c → (∀ pid, w'.Running c pid → w.Running c pid) → Drift w w' c
  | record (pid : Nat) : w.Running c pid → w'.recorded c = w.recorded c + 1 → w.scored c ≤ w'.scored c →
    (∀ pid', w'.Running c pid' → w.Running c pid' ∧ pid' ≠ pid) → Drift w w' c

section Drift
variable {w w' : World} {p : Progress} {c : String}

theorem Close.drift (h : Close w p c) (hd : Drift w w' c) : Close w' p c := by
  cases hd with
  | still hr hs hp =>
    exact ⟨h.counted.trans hs, hr.le.trans h.recorded, fun pid hpid => hr.trans (h.running pid (hp pid hpid)),
      fun pid pid' h1 h2 => h.alone pid pid' (hp pid h1) (hp pid' h2)⟩
  | record pid hrun hr hs hp =>
    have hnone : ∀ pid', ¬ w'.Running c pid' := fun pid' h' => (hp pid' h').2 (h.alone pid' pid (hp pid' h').1 hrun)
    refine ⟨h.counted.trans hs, ?_, fun pid' h' => (hnone pid' h').elim, fun pid' _ h' => (hnone pid' h').elim⟩
    rw [hr, h.running pid hrun]

theorem Level.drift (h : Level w p c) (hd : Drift w w' c) : Level w' p c := by
  cases hd with
  | still hr hs hp => exact ⟨hr.trans h.1, fun pid hpid => h.2 pid (hp pid hpid)⟩
  | record pid hrun => exact (h.2 pid hrun).elim

theorem Tied.drift (h : Tied w p) (hd : ∀ c, Drift w w' c) : Tied w' p := by
  refine ⟨fun c hg => (h.kept c hg).drift (hd c), fun c hg => ?_, h.within⟩
  obtain ⟨heq, hrun⟩ := h.dropped c hg
  cases hd c with
  | still hr hs hp => exact ⟨le_antisymm World.scored_le_recorded (by omega), fun pid hpid => hrun pid (hp pid hpid)⟩
  | record pid hpid => exact (hrun pid hpid).elim

theorem Sync.drift (h : Sync w) (hf : w'.file = w.file) (hd : ∀ c, Drift w w' c)
    (hr : ∀ e ∈ w'.episodes, ∀ n, e.plan = some n → n ≤ w'.plans)
    (hp : ∀ q ∈ w'.procs, ∀ c n, q.recording = some (c, n) → n ≤ w'.plans) : Sync w' :=
  ⟨fun ps hps => (h.tied ps (hf ▸ hps)).drift hd,
    fun ps hps hc => ⟨(h.complete ps (hf ▸ hps) hc).1, fun c hg => ((h.complete ps (hf ▸ hps) hc).2 c hg).drift (hd c)⟩, hr, hp⟩

/-- A change to one process that makes nothing record leaves the others running. -/
theorem running_modify {pid pid' : Nat} {g : Proc → Proc} (hg : ∀ q, (g q).recording = none) {ps : List Proc} (hw : w.procs = ps)
    (h : { w with procs := ps.modify pid g }.Running c pid') : w.Running c pid' ∧ pid' ≠ pid := by
  obtain ⟨q, hq, hr⟩ := h
  obtain ⟨q', hq', rfl⟩ := getElem?_modify_some hq
  by_cases hp : pid = pid'
  · rw [if_pos hp, hg] at hr
    cases hr
  · rw [if_neg hp] at hr
    exact ⟨⟨q', hw ▸ hq', hr⟩, Ne.symm hp⟩

/-- What an episode adds to the counts. -/
theorem recorded_append {e : Episode} (he : w'.episodes = w.episodes ++ [e]) (hn : w'.plans = w.plans) (c : String) :
    w'.recorded c = w.recorded c + if e.plan = some w.plans ∧ e.faultClass = c then 1 else 0 := by
  unfold World.recorded
  rw [he, hn, List.countP_append, List.countP_singleton]
  simp only [decide_eq_true_eq]

theorem scored_mono (he : w.episodes.Sublist w'.episodes) (hn : w'.plans = w.plans) (c : String) :
    w.scored c ≤ w'.scored c := by
  unfold World.scored
  rw [hn]
  exact he.countP_le

theorem drift_env (x : Env) (w : World) (c : String) : Drift w (env x w) c := by
  have hended : ∀ (code : Int) (q : Proc), (q.ended code).recording = none := fun code q => recording_ended q code
  cases x with
  | tick | setClock | observe | sigint | touchPauseFlag => exact .still rfl le_rfl fun _ h => h
  | record pid =>
    simp only [env]
    cases hq : w.procs[pid]?.bind Proc.recording with
    | none => exact .still rfl le_rfl fun _ h => h
    | some x =>
      obtain ⟨c', n⟩ := x
      obtain ⟨q, hpid, hrec⟩ := Option.bind_eq_some_iff.1 hq
      have hnone : ∀ q : Proc, ({ q with row := some w.episodes.length } : Proc).recording = none := by
        rintro ⟨_ | _, _ | _, r⟩ <;> rfl
      have hrun : ∀ pid', _ → w.Running c pid' ∧ pid' ≠ pid := fun pid' => running_modify hnone rfl
      by_cases hc : n = w.plans ∧ c' = c
      · obtain ⟨rfl, rfl⟩ := hc
        refine .record pid ⟨q, hpid, hrec⟩ ?_ (scored_mono (List.sublist_append_left _ _) (by rfl) c') hrun
        refine (recorded_append (e := ⟨c', some w.plans, false⟩) (by rfl) (by rfl) c').trans ?_
        rw [if_pos ⟨rfl, rfl⟩]
      · refine .still ?_ (scored_mono (List.sublist_append_left _ _) (by rfl) c) fun pid' h => (hrun pid' h).1
        refine (recorded_append (e := ⟨c', some n, false⟩) (by rfl) (by rfl) c).trans ?_
        rw [if_neg (fun h => hc ⟨Option.some.inj h.1, h.2⟩), Nat.add_zero]
  | exit pid code => exact .still rfl le_rfl fun _ h => (running_modify (hended code) rfl h).1
  | score r =>
    refine .still ?_ ?_ fun _ h => h
    · exact countP_modify_of (f := fun e : Episode => { e with scored := true }) (fun _ => rfl) _ _
    · refine countP_modify_le (f := fun e : Episode => { e with scored := true }) ?_ _ _
      intro e he
      simp only [decide_eq_true_eq] at he ⊢
      exact ⟨he.1, he.2.1, trivial⟩
  | live c' =>
    refine .still ?_ (scored_mono (List.sublist_append_left _ _) (by rfl) c) fun _ h => h
    refine (recorded_append (e := ⟨c', none, false⟩) (by rfl) (by rfl) c).trans ?_
    rw [if_neg (by simp), Nat.add_zero]

theorem sync_env (x : Env) (h : Sync w) : Sync (env x w) := by
  refine h.drift ?_ (drift_env x w) ?_ ?_
  · cases x with
    | record pid => simp only [env]; cases w.procs[pid]?.bind Proc.recording <;> rfl
    | _ => rfl
  · intro e he n hn
    cases x with
    | record pid =>
      simp only [env] at he ⊢
      cases hq : w.procs[pid]?.bind Proc.recording with
      | none =>
        rw [hq] at he
        exact h.rows e he n hn
      | some x =>
        obtain ⟨q, hpid, hrec⟩ := Option.bind_eq_some_iff.1 hq
        rw [hq] at he
        rcases List.mem_append.1 he with he | he
        · exact h.rows e he n hn
        · obtain rfl := List.mem_singleton.1 he
          exact h.procs q (List.mem_of_getElem? hpid) x.1 n (by rw [hrec, ← Option.some.inj hn])
    | score r =>
      obtain ⟨e', he', rfl | rfl⟩ := mem_modify he
      · exact h.rows e he' n hn
      · exact h.rows e' he' n hn
    | live c =>
      rcases List.mem_append.1 he with he | he
      · exact h.rows e he n hn
      · obtain rfl := List.mem_singleton.1 he
        cases hn
    | _ => exact h.rows e he n hn
  · intro q hq c n hn
    cases x with
    | record pid =>
      simp only [env] at hq ⊢
      cases hb : w.procs[pid]?.bind Proc.recording with
      | none =>
        rw [hb] at hq
        exact h.procs q hq c n hn
      | some x =>
        rw [hb] at hq
        obtain ⟨q', hq', rfl | rfl⟩ := mem_modify hq
        · exact h.procs q hq' c n hn
        · cases congrArg Proc.row (recording_eq.1 hn)
    | exit pid code =>
      obtain ⟨q', hq', rfl | rfl⟩ := mem_modify hq
      · exact h.procs q hq' c n hn
      · rw [recording_ended] at hn
        cases hn
    | _ => exact h.procs q hq c n hn

theorem inFlight_env {idx b pid : Nat} (x : Env) (h : InFlight w p idx b pid) : InFlight (env x w) p idx b pid := by
  obtain ⟨c, q, hdue, hothers, hq, hprog, halone, hrec, hcount⟩ := h
  have hdrift := drift_env x w c
  have hrun : ∀ pid', (env x w).Running c pid' → pid' = pid := by
    intro pid' h'
    cases hdrift with
    | still _ _ hp => exact halone pid' (hp pid' h')
    | record _ _ _ _ hp => exact halone pid' (hp pid' h').1
  have hothers' : ∀ c', p.gaveUpOn c' = false → c' ≠ c → Level (env x w) p c' :=
    fun c' hg hc => (hothers c' hg hc).drift (drift_env x w c')
  have hcount' := count_env x w c
  -- What is left is the process itself, and what it may have recorded.
  suffices hs : ∃ q', (env x w).procs[pid]? = some q' ∧ q'.program = .injector c (env x w).plans ∧
      (env x w).recorded c = p.counted c + q'.rows ∧ b + q'.rows ≤ (env x w).realEpisodeCount c by
    obtain ⟨q', h1, h2, h3, h4⟩ := hs
    exact ⟨c, q', hdue, hothers', h1, h2, hrun, h3, h4⟩
  have hkeep : (env x w).procs[pid]? = some q → (env x w).plans = w.plans → (env x w).recorded c = w.recorded c →
      ∃ q', (env x w).procs[pid]? = some q' ∧ q'.program = .injector c (env x w).plans ∧
        (env x w).recorded c = p.counted c + q'.rows ∧ b + q'.rows ≤ (env x w).realEpisodeCount c :=
    fun h1 h2 h3 => ⟨q, h1, h2 ▸ hprog, h3.trans hrec, hcount.trans hcount'⟩
  cases x with
  | tick | setClock | observe | sigint | touchPauseFlag => exact hkeep hq rfl rfl
  | score r => exact hkeep hq rfl (countP_modify_of (f := fun e : Episode => { e with scored := true }) (fun _ => rfl) _ _)
  | live c' =>
    refine hkeep hq rfl ((recorded_append (e := ⟨c', none, false⟩) (by rfl) (by rfl) c).trans ?_)
    rw [if_neg (by simp), Nat.add_zero]
  | exit pid' code =>
    by_cases hp : pid' = pid
    · subst hp
      refine ⟨q.ended code, ?_, hprog, hrec, hcount⟩
      simp only [env, List.getElem?_modify_eq, hq]
      rfl
    · refine hkeep ?_ rfl rfl
      simp only [env, List.getElem?_modify, if_neg hp, hq]
      rfl
  | record pid' =>
    cases hb : w.procs[pid']?.bind Proc.recording with
    | none =>
      have he : env (.record pid') w = w := by simp only [env, hb]
      rw [he] at hkeep ⊢
      exact hkeep hq rfl rfl
    | some x =>
      obtain ⟨c', n⟩ := x
      obtain ⟨q', hpid', hrec'⟩ := Option.bind_eq_some_iff.1 hb
      obtain rfl := recording_eq.1 hrec'
      have he : env (.record pid') w = { w with
          episodes := w.episodes ++ [⟨c', some n, false⟩]
          procs := w.procs.modify pid' ({ · with row := some w.episodes.length }) } := by simp only [env, hb]
      have hplans : (env (.record pid') w).plans = w.plans := by rw [he]
      have hprocs : (env (.record pid') w).procs = w.procs.modify pid' ({ · with row := some w.episodes.length }) := by rw [he]
      have hrows : (env (.record pid') w).recorded c = w.recorded c + if some n = some w.plans ∧ c' = c then 1 else 0 :=
        recorded_append (by rw [he]) hplans c
      have hmore : (env (.record pid') w).realEpisodeCount c = w.realEpisodeCount c + if c' = c then 1 else 0 :=
        count_append (e := ⟨c', some n, false⟩) (by rw [he]) c
      by_cases hp : pid' = pid
      -- The injector of the attempt.
      · subst hp
        rw [hq, Option.some.injEq] at hpid'
        subst hpid'
        obtain ⟨rfl, rfl⟩ := Program.injector.inj hprog
        refine ⟨⟨.injector c' w.plans, none, some w.episodes.length⟩, ?_, by rw [hplans], ?_, ?_⟩
        · simp only [hprocs, List.getElem?_modify_eq, hq]
          rfl
        · rw [hrows, if_pos ⟨rfl, rfl⟩, hrec]
          rfl
        · rw [hmore, if_pos rfl]
          exact Nat.succ_le_succ hcount
      -- Any other is of another class or plan.
      · have hne : ¬ (some n = some w.plans ∧ c' = c) := by
          rintro ⟨hn, rfl⟩
          exact hp (halone pid' ⟨_, hpid', by rw [hrec', Option.some.inj hn]⟩)
        rw [if_neg hne] at hrows
        refine hkeep ?_ hplans hrows
        simp only [hprocs, List.getElem?_modify, if_neg hp, hq]
        rfl

theorem flat_env (x : Env) (h : Flat w p) : Flat (env x w) p := fun c hg => (h c hg).drift (drift_env x w c)

theorem holds_env (x : Env) {φ : Phase} (h : Holds w φ) : Holds (env x w) φ := by
  obtain ⟨σ, f⟩ := φ
  cases σ with
  | ready p | unclean p => exact ⟨filed_env x h.1, flat_env x h.2⟩
  | opened p idx b d => exact ⟨filed_env x h.1, flat_env x h.2.1, fun c hd => (h.2.2 c hd).trans (count_env x w c)⟩
  | injecting p idx b pid => exact ⟨filed_env x h.1, inFlight_env x h.2⟩
  | injected p idx b pid | scored p idx b pid => exact ⟨filed_env x h.1, inFlight_env x h.2.1, exitOf_env x h.2.2⟩
  | scoring p idx b pid spid => exact ⟨filed_env x h.1, inFlight_env x h.2.1, exitOf_env x h.2.2⟩
  | earned p idx =>
    obtain ⟨hf, c, hd, hothers, hrec, hsc, hrun⟩ := h
    refine ⟨filed_env x hf, c, hd, fun c' hg hc => (hothers c' hg hc).drift (drift_env x w c'), ?_⟩
    cases drift_env x w c with
    | still hr hs hp =>
      refine ⟨hr.trans hrec, le_antisymm ?_ (hsc ▸ hs), fun pid hpid => hrun pid (hp pid hpid)⟩
      exact World.scored_le_recorded.trans (hr.trans hrec).le
    | record pid hpid => exact (hrun pid hpid).elim
  | broken p | refused p => exact filed_env x h
  | _ => trivial

end Drift

end Wardence.Batch
