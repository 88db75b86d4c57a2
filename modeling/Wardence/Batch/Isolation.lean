import Wardence.Batch.Runs
/-!
# A broken class does not stop the batch

What a run of the script may do after an attempt failed, told from its log: what it
has seen of its injectors, and whether it has seen something to pause for.
-/
namespace Wardence.Batch

open Threads

/-! ## What a run has seen -/

def World.programOf (w : World) (pid : Nat) : Option Program := w.procs[pid]?.map (·.program)

/-- The class of an injector whose end the event saw, and whether it had recorded an episode. -/
def injection (ev : Event World Stmt) : Option (String × Bool) :=
  match ev.stmt with
  | .wait pid =>
    match ev.seen.programOf pid with
    | some (.injector c _) => some (c, (ev.seen.rowOf pid).isSome)
    | _ => none
  | _ => none

/-- Whether the event saw something to pause for: no infrastructure, a scorer that
failed, baselines that are not clean, the user's request. -/
def grounds (ev : Event World Stmt) : Option Bool :=
  match ev.stmt with
  | .infraReady => some (!ev.seen.infraReady)
  | .checkBaselines => some (!ev.seen.baselinesClean)
  | .pauseRequested => some ev.seen.pausing
  | .wait pid => some (ev.seen.programOf pid = some .scorer ∧ ev.seen.exitOf pid ≠ some 0)
  | _ => none

/-- How many injections of the class failed in a row, the last ones that run `i` saw. -/
def failures (i : Nat) (c : String) : Log → Nat
  | [] => 0
  | ev :: l =>
    if ev.thread = i ∧ ev.raised = false then
      match injection ev with
      | some (c', recorded) => if c' = c then (if recorded then 0 else failures i c l + 1) else failures i c l
      | none => failures i c l
    else failures i c l

/-- What run `i` found when it last looked whether to pause. -/
def reading (i : Nat) (l : Log) : Option Bool := l.findSome? fun ev => if ev.thread = i ∧ ev.raised = false then grounds ev else none

/-- Run `i` has saved that the plan is complete. -/
def Completed (i : Nat) (l : Log) : Prop :=
  ∃ ev ∈ l, ev.thread = i ∧ ev.raised = false ∧ ∃ ps : PlanState, ev.stmt = .savePlan ps ∧ ps.status = .complete

/-- Run `i` has found no plan to go on with, and has done nothing else. -/
def Begun (i : Nat) (l : Log) : Prop :=
  ∀ ev ∈ l, ev.thread = i → ev.stmt.Calm ∨ ev.stmt = .loadPlan ∧ ev.seen.unfinished = none

/-- The progress file says that the class is given up. -/
def World.gaveUp (w : World) (c : String) : Prop := ∃ ps, w.file = some ps ∧ ps.gaveUpOn c = true

/-- When run `i` may execute `s` after `l`: it starts no injector of a class that has
failed too often, and by then has given up every class that has; it gives up no other
class; a plan is complete when its chunks are at their targets or given up; and
it ends only with a complete plan, something to pause for, or no plan. -/
def Proper (i : Nat) (w : World) (l : Log) : Stmt → Prop
  | .startInjector c => failures i c l < MAX_CONSECUTIVE_REAL_FAILURES ∧
    ∀ c', MAX_CONSECUTIVE_REAL_FAILURES ≤ failures i c' l → w.gaveUp c'
  | .savePlan ps =>
    (ps.status = .complete → ps.Finished ∧ ∀ c, MAX_CONSECUTIVE_REAL_FAILURES ≤ failures i c l → ps.gaveUpOn c = true) ∧
    ∀ c, ps.gaveUpOn c = true → w.gaveUp c ∨ MAX_CONSECUTIVE_REAL_FAILURES ≤ failures i c l
  | .finish => Completed i l ∨ reading i l = some true ∨ Begun i l
  | _ => True

def Isolated : Log → Prop
  | [] => True
  | ev :: l => Isolated l ∧ (ev.raised = false → Proper ev.thread ev.seen l ev.stmt)

/-- An injector that is waited for has ended with 0; a growing count is the attempt's own episode. -/
def Verified (w : World) : Stmt → Prop
  | .wait pid => w.programOf pid = some .scorer ∨ w.exitOf pid = none ∨ w.exitOf pid = some 0
  | .countAfter pid c before => before < w.realEpisodeCount c → (w.rowOf pid).isSome = true
  | _ => True

/-! ## What a phase tells -/

/-- The attempt's injector is `pid`, and what it recorded has been added to the count. -/
def Attempt (w : World) (c : String) (before pid : Nat) : Prop :=
  ∃ q n, w.procs[pid]? = some q ∧ q.program = .injector c n ∧ before + q.rows ≤ w.realEpisodeCount c

/-- The failures are as `f` says. -/
def Told (f : String → Nat) (i : Nat) (l : Log) : Prop := ∀ c, failures i c l = f c

/-- They are, but for the attempt at hand, of class `c`, whose injector has ended. -/
def Telling (f : String → Nat) (i : Nat) (l : Log) (c : String) (recorded : Bool) : Prop :=
  failures i c l = (if recorded then 0 else f c + 1) ∧ ∀ c', c' ≠ c → failures i c' l = f c'

/-- The attempt's injector has ended. -/
def Spent (w : World) (p : Progress) (f : String → Nat) (i : Nat) (l : Log) (idx before pid : Nat) : Prop :=
  (w.exitOf pid).isSome = true ∧
    ∃ c, p.Due idx c ∧ Attempt w c before pid ∧ Telling f i l c (w.rowOf pid).isSome

def Tells (w : World) (l : Log) (i : Nat) (φ : Phase) : Prop :=
  match φ.stage with
  | .idle | .dead => True
  | .fresh | .blank => Begun i l ∧ Told φ.fails i l
  | .ready p => Filed w p ∧ Told φ.fails i l
  | .unclean p => Filed w p ∧ Told φ.fails i l ∧ reading i l = some true
  | .opened p idx b d => Filed w p ∧ Told φ.fails i l ∧ (d = true → reading i l = some true) ∧
    ∀ c, p.Due idx c → b ≤ w.realEpisodeCount c
  | .injecting p idx b pid => Filed w p ∧ Told φ.fails i l ∧ ∃ c, p.Due idx c ∧ Attempt w c b pid
  | .injected p idx b pid | .scored p idx b pid => Filed w p ∧ Spent w p φ.fails i l idx b pid
  | .scoring p idx b pid spid => Filed w p ∧ Spent w p φ.fails i l idx b pid ∧ w.programOf spid = some .scorer
  | .earned p _ => Filed w p ∧ Told φ.fails i l
  | .refused p => Filed w p ∧ reading i l = some true
  | .broken _ => False
  | .closing => Completed i l ∨ reading i l = some true

/-! ## The log grows -/

section Log
variable {i k : Nat} {c : String} {l : Log} {ev : Event World Stmt} {w : World} {s : Stmt} {φ : Phase} {f : String → Nat}

theorem failures_elsewhere (h : ev.thread ≠ i ∨ ev.raised = true) : failures i c (ev :: l) = failures i c l := by
  rw [failures, if_neg]
  rintro ⟨h1, h2⟩
  rcases h with h | h
  · exact h h1
  · rw [h2] at h
    cases h

theorem reading_elsewhere (h : ev.thread ≠ i ∨ ev.raised = true) : reading i (ev :: l) = reading i l := by
  have hno : ¬ (ev.thread = i ∧ ev.raised = false) := by
    rintro ⟨h1, h2⟩
    rcases h with h | h
    · exact h h1
    · rw [h2] at h
      cases h
  rw [reading, List.findSome?_cons, if_neg hno]
  rfl

theorem failures_other (h : injection ev = none) : failures i c (ev :: l) = failures i c l := by
  rw [failures, h]
  exact ite_self _

theorem failures_injection {b : Bool} (h : injection ⟨i, s, w, false⟩ = some (c, b)) :
    failures i c (⟨i, s, w, false⟩ :: l) = (if b then 0 else failures i c l + 1) ∧
      ∀ c', c' ≠ c → failures i c' (⟨i, s, w, false⟩ :: l) = failures i c' l := by
  constructor
  · rw [failures, if_pos ⟨rfl, rfl⟩, h]
    exact if_pos rfl
  · intro c' hc
    rw [failures, if_pos ⟨rfl, rfl⟩, h]
    exact if_neg (Ne.symm hc)

theorem reading_other (h : grounds ev = none) : reading i (ev :: l) = reading i l := by
  rw [reading, List.findSome?_cons, h, ite_self]
  rfl

theorem reading_grounds {b : Bool} (h : grounds ⟨i, s, w, false⟩ = some b) : reading i (⟨i, s, w, false⟩ :: l) = some b := by
  rw [reading, List.findSome?_cons, if_pos ⟨rfl, rfl⟩, h]

theorem Completed.cons (h : Completed i l) : Completed i (ev :: l) := by
  obtain ⟨ev', hev, h'⟩ := h
  exact ⟨ev', .tail _ hev, h'⟩

theorem Begun.cons (h : Begun i l) (hev : ev.thread = i → ev.stmt.Calm ∨ ev.stmt = .loadPlan ∧ ev.seen.unfinished = none) :
    Begun i (ev :: l) := by
  rintro ev' (_ | ⟨_, hev'⟩)
  · exact hev
  · exact h ev' hev'

theorem Told.cons (h : Told f i l) (he : ∀ c, failures i c (ev :: l) = failures i c l) : Told f i (ev :: l) :=
  fun c => (he c).trans (h c)

/-- Only the last part of a log that has no event of thread `i` is that of a run not begun. -/
theorem told_entry (h : ∀ ev ∈ l, ev.thread ≠ i) : Begun i l ∧ Told (fun _ => 0) i l := by
  refine ⟨fun ev hev hi => (h ev hev hi).elim, fun c => ?_⟩
  induction l with
  | nil => rfl
  | cons ev l ih =>
    rw [failures_elsewhere (.inl (h ev (.head l)))]
    exact ih fun ev' hev' => h ev' (.tail ev hev')

/-- An event that tells nothing of run `i`. -/
theorem tells_cons (h : Tells w l i φ) (hfail : ∀ c, failures i c (ev :: l) = failures i c l)
    (hread : reading i (ev :: l) = reading i l) (hev : ev.thread = i → ev.stmt.Calm) : Tells w (ev :: l) i φ := by
  obtain ⟨σ, f⟩ := φ
  have htold : ∀ {f}, Told f i l → Told f i (ev :: l) := fun h => h.cons hfail
  have hspent : ∀ {p idx b pid}, Spent w p f i l idx b pid → Spent w p f i (ev :: l) idx b pid := by
    rintro p idx b pid ⟨he, c, hd, ha, h1, h2⟩
    exact ⟨he, c, hd, ha, (hfail c).trans h1, fun c' hc => (hfail c').trans (h2 c' hc)⟩
  cases σ with
  | idle | dead => trivial
  | fresh | blank => exact ⟨h.1.cons fun hi => .inl (hev hi), htold h.2⟩
  | ready p | earned p => exact ⟨h.1, htold h.2⟩
  | unclean p => exact ⟨h.1, htold h.2.1, hread.trans h.2.2⟩
  | opened p idx b d => exact ⟨h.1, htold h.2.1, fun hd => hread.trans (h.2.2.1 hd), h.2.2.2⟩
  | injecting p idx b pid => exact ⟨h.1, htold h.2.1, h.2.2⟩
  | injected p idx b pid | scored p idx b pid => exact ⟨h.1, hspent h.2⟩
  | scoring p idx b pid spid => exact ⟨h.1, hspent h.2.1, h.2.2⟩
  | refused p => exact ⟨h.1, hread.trans h.2⟩
  | broken p => exact h
  | closing => exact h.imp Completed.cons hread.trans

theorem tells_calm (h : Tells w l i φ) (hs : s.Calm) : Tells w (⟨i, s, w, false⟩ :: l) i φ := by
  refine tells_cons h (fun c => failures_other ?_) (reading_other ?_) fun _ => hs
  · cases s <;> first | rfl | exact hs.elim
  · cases s <;> first | rfl | exact hs.elim

end Log

/-! ## What happens around -/

section Env
variable {w : World} {c : String} {b pid : Nat} {i : Nat} {l : Log} {φ : Phase}

/-- What may become of a process: it records an episode, or what it is and has recorded stays. -/
theorem proc_env (x : Env) {q : Proc} (hq : w.procs[pid]? = some q) : ∃ q', (env x w).procs[pid]? = some q' ∧
    q'.program = q.program ∧ (q'.row = q.row ∨
      ∃ c n, q.recording = some (c, n) ∧ q'.row.isSome = true ∧ (env x w).realEpisodeCount c = w.realEpisodeCount c + 1) := by
  have hmod : ∀ (pid' : Nat) (g : Proc → Proc), (∀ q, (g q).program = q.program) → (pid' = pid → (g q).row = q.row) →
      ∃ q', (w.procs.modify pid' g)[pid]? = some q' ∧ q'.program = q.program ∧ q'.row = q.row := by
    intro pid' g hg hrow
    rw [List.getElem?_modify, hq]
    by_cases hp : pid' = pid
    · exact ⟨g q, by simp [hp], hg q, hrow hp⟩
    · exact ⟨q, by simp [hp], rfl, rfl⟩
  cases x with
  | exit pid' code =>
    obtain ⟨q', h1, h2, h3⟩ := hmod pid' (·.ended code) (fun _ => rfl) fun _ => rfl
    exact ⟨q', h1, h2, .inl h3⟩
  | record pid' =>
    cases hb : w.procs[pid']?.bind Proc.recording with
    | none =>
      have he : env (.record pid') w = w := by simp only [env, hb]
      rw [he]
      exact ⟨q, hq, rfl, .inl rfl⟩
    | some x =>
      obtain ⟨c, n⟩ := x
      have he : env (.record pid') w = { w with
          episodes := w.episodes ++ [⟨c, some n, false⟩]
          procs := w.procs.modify pid' ({ · with row := some w.episodes.length }) } := by simp only [env, hb]
      have hcount : (env (.record pid') w).realEpisodeCount c = w.realEpisodeCount c + 1 := by
        rw [he]
        exact (count_append (e := ⟨c, some n, false⟩) (by rfl) c).trans (by rw [if_pos rfl])
      by_cases hp : pid' = pid
      · subst hp
        rw [hq] at hb
        refine ⟨{ q with row := some w.episodes.length }, ?_, rfl, .inr ⟨c, n, hb, rfl, hcount⟩⟩
        rw [he]
        simp [hq]
      · obtain ⟨q', h1, h2, h3⟩ := hmod pid' ({ · with row := some w.episodes.length }) (fun _ => rfl) fun h => (hp h).elim
        rw [he]
        exact ⟨q', h1, h2, .inl h3⟩
  | _ => exact ⟨q, hq, rfl, .inl rfl⟩

theorem programOf_env (x : Env) {r : Program} (h : w.programOf pid = some r) : (env x w).programOf pid = some r := by
  obtain ⟨q, hq, rfl⟩ := Option.map_eq_some_iff.1 h
  obtain ⟨q', hq', hp, -⟩ := proc_env x hq
  rw [World.programOf, hq', Option.map_some, hp]

theorem attempt_env (x : Env) (h : Attempt w c b pid) : Attempt (env x w) c b pid := by
  obtain ⟨q, n, hq, hp, hb⟩ := h
  obtain ⟨q', hq', hp', hrow⟩ := proc_env x hq
  refine ⟨q', n, hq', hp'.trans hp, ?_⟩
  rcases hrow with hrow | ⟨c', n', hrec, hrow, hcount⟩
  · have : q'.rows = q.rows := by rw [Proc.rows, Proc.rows, hrow]
    rw [this]
    exact hb.trans (count_env x w c)
  · obtain rfl := recording_eq.1 hrec
    obtain ⟨rfl, rfl⟩ := Program.injector.inj hp
    rw [Proc.rows, if_pos hrow, hcount]
    exact Nat.succ_le_succ hb

/-- What a process has recorded when it ends it has recorded for good. -/
theorem rowOf_env (x : Env) (h : (w.exitOf pid).isSome = true) : ((env x w).rowOf pid).isSome = (w.rowOf pid).isSome := by
  cases hq : w.procs[pid]? with
  | none =>
    rw [World.exitOf, hq] at h
    cases h
  | some q =>
    obtain ⟨q', hq', -, hrow | ⟨c, n, hrec, -⟩⟩ := proc_env x hq
    · rw [World.rowOf, World.rowOf, hq, hq', Option.bind_some, Option.bind_some, hrow]
    · rw [World.exitOf, hq, recording_eq.1 hrec] at h
      cases h

theorem spent_env (x : Env) {p : Progress} {f : String → Nat} {idx : Nat} (h : Spent w p f i l idx b pid) :
    Spent (env x w) p f i l idx b pid := by
  obtain ⟨he, c, hd, ha, ht⟩ := h
  exact ⟨exitOf_env x he, c, hd, attempt_env x ha, by rwa [rowOf_env x he]⟩

theorem tells_env (x : Env) (h : Tells w l i φ) : Tells (env x w) l i φ := by
  obtain ⟨σ, f⟩ := φ
  cases σ with
  | idle | dead => trivial
  | fresh | blank | broken | closing => exact h
  | ready p | unclean p | earned p | refused p => exact ⟨filed_env x h.1, h.2⟩
  | opened p idx b d =>
    exact ⟨filed_env x h.1, h.2.1, h.2.2.1, fun c hd => (h.2.2.2 c hd).trans (count_env x w c)⟩
  | injecting p idx b pid =>
    obtain ⟨hf, ht, c, hd, ha⟩ := h
    exact ⟨filed_env x hf, ht, c, hd, attempt_env x ha⟩
  | injected p idx b pid | scored p idx b pid => exact ⟨filed_env x h.1, spent_env x h.2⟩
  | scoring p idx b pid spid => exact ⟨filed_env x h.1, spent_env x h.2.1, programOf_env x h.2.2⟩

end Env

/-! ## A statement -/

section Step
variable {w w' : World} {p : Progress} {i : Nat} {l : Log} {φ φ' : Phase} {s : Stmt} {f : String → Nat} {c : String}

theorem Filed.gaveUp (h : Filed w p) (hc : p.gaveUpOn c = true) : w.gaveUp c := by
  obtain ⟨ps, hf, rfl, -⟩ := h
  exact ⟨ps, hf, hc⟩

/-- A plan that is saved with no class given up that was not before. -/
theorem proper_save {ps : PlanState} (hf : Filed w p) (hg : ∀ c, ps.gaveUpOn c = true → p.gaveUpOn c = true)
    (hst : ps.status ≠ .complete) : Proper i w l (.savePlan ps) :=
  ⟨fun h => (hst h).elim, fun _ hc => .inl (hf.gaveUp (hg _ hc))⟩

/-- Of an attempt that is over the failures are known. -/
theorem Spent.told {idx b pid : Nat} (h : Spent w p f i l idx b pid) (hd : p.Due idx c) :
    Telling f i l c (w.rowOf pid).isSome ∧ ((w.rowOf pid).isSome = true → b < w.realEpisodeCount c) := by
  obtain ⟨-, c', hd', ⟨q, n, hq, -, hb⟩, ht⟩ := h
  obtain rfl := hd.unique hd'
  refine ⟨ht, fun hrow => ?_⟩
  rw [World.rowOf, hq, Option.bind_some] at hrow
  rw [Proc.rows, if_pos hrow] at hb
  exact hb

theorem Telling.told {r : Bool} (h : Telling f i l c r) :
    Told (Function.update f c (if r then 0 else f c + 1)) i l := by
  intro c'
  by_cases hc : c' = c
  · subst hc
    rw [Function.update_self]
    exact h.1
  · rw [Function.update_of_ne hc]
    exact h.2 c' hc

theorem tells_step (hr : Rule φ s w φ') (hw : app s w = some w') (h : Tells w l i φ) (hv : Verified w s) :
    Proper i w l s ∧ Tells w' (⟨i, s, w, false⟩ :: l) i φ' := by
  have htold : ∀ {f}, injection ⟨i, s, w, false⟩ = none → Told f i l → Told f i (⟨i, s, w, false⟩ :: l) :=
    fun hi h => h.cons fun c => failures_other hi
  cases hr with
  | calm _ _ hc =>
    cases s with
    | look | checkStop | stamp =>
      obtain rfl := Option.some.inj hw
      exact ⟨trivial, tells_calm h trivial⟩
    | sleepUntil t =>
      simp only [app] at hw
      split at hw
      · obtain rfl := Option.some.inj hw
        exact ⟨trivial, tells_calm h trivial⟩
      · cases hw
    | unlinkPauseFlag =>
      obtain rfl := Option.some.inj hw
      exact ⟨trivial, tells_calm h trivial⟩
    | _ => exact hc.elim
  | reap => exact ⟨trivial, trivial⟩
  | load hu =>
    obtain rfl := Option.some.inj hw
    obtain ⟨hf, hst⟩ := Option.filter_eq_some_iff.1 hu
    exact ⟨trivial, ⟨_, hf, rfl, by simpa using hst⟩, htold rfl h.2⟩
  | missing hu =>
    obtain rfl := Option.some.inj hw
    exact ⟨trivial, h.1.cons fun _ => .inr ⟨rfl, hu⟩, htold rfl h.2⟩
  | new =>
    obtain rfl := Option.some.inj hw
    exact ⟨trivial, ⟨_, rfl, rfl, by simp [startOf]⟩, htold rfl h.2⟩
  | clean hσ =>
    obtain rfl := Option.some.inj hw
    rcases hσ with rfl | rfl
    · exact ⟨trivial, h.1, htold rfl h.2⟩
    · exact ⟨trivial, h.1, htold rfl h.2.1⟩
  | dirty hσ hdirty =>
    obtain rfl := Option.some.inj hw
    have hread : reading i (⟨i, .checkBaselines, w, false⟩ :: l) = some true :=
      reading_grounds (by simp only [grounds, hdirty, Bool.not_false])
    rcases hσ with rfl | rfl
    · exact ⟨trivial, h.1, htold rfl h.2, hread⟩
    · exact ⟨trivial, h.1, htold rfl h.2.1, hread⟩
  | fix =>
    obtain rfl := Option.some.inj hw
    exact ⟨trivial, h.1, htold rfl h.2.1, (reading_other rfl).trans h.2.2⟩
  | goOn =>
    obtain rfl := Option.some.inj hw
    exact ⟨trivial, h.1, htold rfl h.2⟩
  | stop hstop =>
    obtain rfl := Option.some.inj hw
    exact ⟨trivial, h.1, reading_grounds (by simp only [grounds, hstop])⟩
  | count hd =>
    obtain rfl := Option.some.inj hw
    exact ⟨trivial, h.1, htold rfl h.2, fun hd => Bool.noConfusion hd, fun c' hd' => by rw [hd.unique hd']⟩
  | poll =>
    obtain rfl := Option.some.inj hw
    exact ⟨trivial, h.1, htold rfl h.2.1, fun hd => reading_grounds (by simp only [grounds, hd]), h.2.2.2⟩
  | inject hd hcap =>
    rename_i p idx b c f
    obtain ⟨hf, ht, -, hb⟩ := h
    obtain rfl := Option.some.inj hw
    refine ⟨⟨?_, fun c' hc => hf.gaveUp (hcap c' (hc.trans (ht c').le))⟩, hf, htold rfl ht, c, hd, ?_⟩
    · rw [ht c]
      by_contra hc
      have := hcap c (Nat.le_of_not_lt hc)
      rw [hd.2] at this
      cases this
    · exact ⟨⟨.injector c w.plans, none, none⟩, w.plans, List.getElem?_concat_length, rfl, hb c hd⟩
  | verified he =>
    rename_i p idx b pid f
    obtain ⟨hf, ht, c, hd, ha⟩ := h
    simp only [app, he, Option.isSome_some, if_true, Option.some.injEq] at hw
    subst hw
    have hinj : injection ⟨i, .wait pid, w, false⟩ = some (c, (w.rowOf pid).isSome) := by
      obtain ⟨q, n, hq, hp, -⟩ := ha
      simp only [injection, World.programOf, hq, Option.map_some, hp]
    obtain ⟨h1, h2⟩ := failures_injection (i := i) (l := l) hinj
    refine ⟨trivial, hf, by rw [he]; rfl, c, hd, ha, ?_, fun c' hc => (h2 c' hc).trans (ht c')⟩
    rw [h1, ht c]
  | unverified he =>
    obtain ⟨-, -, c, -, q, n, hq, hp, -⟩ := h
    rcases hv with hv | hv | hv
    · rw [World.programOf, hq, Option.map_some, hp] at hv
      cases hv
    · simp only [app, hv, Option.isSome_none, Bool.false_eq_true, if_false, reduceCtorEq] at hw
    · exact (he hv).elim
  | score =>
    rename_i p idx b pid f
    obtain ⟨hf, he, c, hd, ⟨q, n, hq, hp, hb⟩, ht⟩ := h
    obtain rfl := Option.some.inj hw
    have hold : (w.procs ++ [⟨.scorer, none, none⟩])[pid]? = w.procs[pid]? :=
      List.getElem?_append_left (List.getElem?_eq_some_iff.1 hq).1
    have hrow : ({ w with procs := w.procs ++ [⟨.scorer, none, none⟩] } : World).rowOf pid = w.rowOf pid := by
      rw [World.rowOf, hold, World.rowOf]
    refine ⟨trivial, hf, ⟨?_, c, hd, ⟨q, n, hold.trans hq, hp, hb⟩, ?_⟩, ?_⟩
    · rwa [World.exitOf, hold]
    · rw [hrow]
      exact ⟨(failures_other rfl).trans ht.1, fun c' hc => (failures_other rfl).trans (ht.2 c' hc)⟩
    · rw [World.programOf, List.getElem?_concat_length, Option.map_some]
  | scored he =>
    rename_i p idx b pid spid f
    obtain ⟨hf, ⟨hx, c, hd, ha, ht⟩, hsp⟩ := h
    simp only [app, he, Option.isSome_some, if_true, Option.some.injEq] at hw
    subst hw
    have hinj : injection ⟨i, .wait spid, w, false⟩ = none := by simp only [injection, hsp]
    exact ⟨trivial, hf, hx, c, hd, ha, (failures_other hinj).trans ht.1, fun c' hc => (failures_other hinj).trans (ht.2 c' hc)⟩
  | unscored he =>
    simp only [app] at hw
    split at hw
    · obtain rfl := Option.some.inj hw
      refine ⟨trivial, h.1, reading_grounds ?_⟩
      simp only [grounds, h.2.2, he, ne_eq, not_false_eq_true, and_self, decide_true]
    · cases hw
  | failed hd hle =>
    obtain rfl := Option.some.inj hw
    obtain ⟨ht, hrow⟩ := h.2.told hd
    cases hr : (w.rowOf _).isSome with
    | true => exact absurd (hrow hr) (Nat.not_lt_of_le hle)
    | false =>
      rw [hr] at ht
      exact ⟨trivial, h.1, htold rfl ht.told⟩
  | succeeded hd hlt =>
    obtain rfl := Option.some.inj hw
    obtain ⟨ht, -⟩ := h.2.told hd
    rw [hv hlt] at ht
    exact ⟨trivial, h.1, htold rfl ht.told⟩
  | advance hp hst =>
    obtain rfl := Option.some.inj hw
    exact ⟨proper_save h.1 (fun c hc => by rw [hp] at hc; exact hc) hst, ⟨_, rfl, rfl, hst⟩, htold rfl h.2⟩
  | skip _ _ hp hst =>
    obtain rfl := Option.some.inj hw
    exact ⟨proper_save h.1 (fun c hc => by rw [hp] at hc; exact hc) hst, ⟨_, rfl, rfl, hst⟩, htold rfl h.2⟩
  | giveUp hmax hp hst =>
    obtain rfl := Option.some.inj hw
    refine ⟨⟨fun hc => (hst hc).elim, fun c' hc => ?_⟩, ⟨_, rfl, rfl, hst⟩, htold rfl h.2⟩
    rw [hp, Progress.gaveUpOn_drop, Bool.or_eq_true, decide_eq_true_eq] at hc
    rcases hc with rfl | hc
    · exact .inr (hmax.trans (h.2 c').ge)
    · exact .inl (h.1.gaveUp hc)
  | pause hσ hp hst =>
    rename_i σ p ps f _
    obtain rfl := Option.some.inj hw
    have hgrounds : Filed w p ∧ reading i l = some true := by
      cases hσ with
      | unclean => exact ⟨h.1, h.2.2⟩
      | refused => exact h
      | broken => exact h.elim
      | down => exact ⟨h.1, h.2.2.1 rfl⟩
    refine ⟨proper_save hgrounds.1 (fun c hc => by rw [hp] at hc; exact hc) ?_, .inr ((reading_other rfl).trans hgrounds.2)⟩
    rw [hst]
    exact Status.noConfusion
  | complete hfin hp hst hcap =>
    rename_i p ps f
    obtain rfl := Option.some.inj hw
    obtain ⟨hf, ht⟩ := h
    subst hp
    refine ⟨⟨fun _ => ⟨hfin, fun c hc => hcap c (hc.trans (ht c).le)⟩, fun c hc => .inl (hf.gaveUp hc)⟩, .inl ?_⟩
    exact ⟨_, .head l, rfl, rfl, ps, rfl, hst⟩
  | archive =>
    obtain rfl := Option.some.inj hw
    exact ⟨trivial, h.imp Completed.cons (reading_other rfl).trans⟩
  | finish hσ =>
    rcases hσ with rfl | rfl
    · exact ⟨h.elim .inl fun h => .inr (.inl h), trivial⟩
    · exact ⟨.inr (.inr h.1), trivial⟩

theorem isolation_contract : Contract Verified (fun _ l => Isolated l) Tells where
  idle {w l i φ} h := by
    obtain ⟨σ, f⟩ := φ
    obtain rfl : σ = .idle := h
    trivial
  step hr ha hs hh hc := by
    obtain ⟨hp, ht⟩ := tells_step hr ha hh hc
    exact ⟨⟨hs, fun _ => hp⟩, ht⟩
  fail h := ⟨h, fun hr => Bool.noConfusion hr⟩
  others h hk := tells_cons h (fun c => failures_elsewhere (.inr rfl)) (reading_elsewhere (.inr rfl)) fun hi => (hk hi.symm).elim
  fault φ s h := by
    obtain ⟨σ, f⟩ := φ
    cases σ <;> trivial
  post h := h
  entry h := told_entry h
  env _ h := h
  around x h := tells_env x h
  kill h := h

end Step

/-- In a run whose injectors end with 0, a class that fails too often is given up, no
other is, and the script ends only with a complete plan or with something to pause for. -/
theorem batch_isolates (w : World) (ms : List (Move (Option (List Item)) Env))
    (hc : batch.Admits (Always Verified) ⟨w, [], []⟩ ms) : Isolated (batch.run ⟨w, [], []⟩ ms).log :=
  isolation_contract.holds trivial hc

/-! ## Runs with a broken class -/

instance (s : Stmt) : Decidable s.Calm := by
  cases s <;> first | exact .isTrue trivial | exact .isFalse id

instance (i : Nat) (l : Log) : Decidable (Begun i l) :=
  inferInstanceAs (Decidable (∀ ev ∈ l, ev.thread = i → ev.stmt.Calm ∨ ev.stmt = .loadPlan ∧ ev.seen.unfinished = none))

def Stmt.completes : Stmt → Bool
  | .savePlan ps => ps.status = .complete
  | _ => false

instance (i : Nat) (l : Log) : Decidable (Completed i l) :=
  decidable_of_iff (∃ ev ∈ l, ev.thread = i ∧ ev.raised = false ∧ ev.stmt.completes = true) <| by
    have : ∀ s : Stmt, s.completes = true ↔ ∃ ps : PlanState, s = .savePlan ps ∧ ps.status = .complete := by
      rintro (_ | _ | _) <;> simp [Stmt.completes]
    simp only [this, Completed]

instance (w : World) : (s : Stmt) → Decidable (Verified w s)
  | .wait pid => inferInstanceAs (Decidable (w.programOf pid = some .scorer ∨ w.exitOf pid = none ∨ w.exitOf pid = some 0))
  | .countAfter pid c before => inferInstanceAs (Decidable (before < w.realEpisodeCount c → (w.rowOf pid).isSome = true))
  | .look | .sleepUntil _ | .checkStop | .stamp _ | .infraReady | .checkBaselines | .fixBaselines | .pauseRequested | .unlinkPauseFlag | .loadPlan
  | .newPlan _ | .savePlan _ | .archivePlan | .countBefore _ | .startInjector _ | .startScorer | .kill _ | .finish =>
    .isTrue trivial

/-- The injector of the first class ends with 1: it could not verify its injection. -/
def unverified : List (Move (Option (List Item)) Env) :=
  .post (some [⟨"oom", 1⟩, ⟨"disk-full", 1⟩]) :: steps 0 30 ++ .env (.exit 0 1) :: steps 0 10

theorem Isolated.last {l : Log} {i : Nat} (h : Isolated l)
    (hl : l.head?.any (fun ev => ev.thread = i ∧ ev.stmt = .finish ∧ ev.raised = false) = true) :
    Completed i l.tail ∨ reading i l.tail = some true ∨ Begun i l.tail := by
  cases l with
  | nil => cases hl
  | cons ev l =>
    simp only [List.head?_cons, Option.any_some, decide_eq_true_eq] at hl
    obtain ⟨rfl, hs, hr⟩ := hl
    have := h.2 hr
    rwa [hs] at this

theorem unverified_stops : ¬ Isolated (batch.run ⟨quietWorld, [], []⟩ unverified).log := by
  intro h
  have hlast := h.last (i := 0) (by decide +kernel)
  revert hlast
  decide +kernel

/-- `n` attempts of run 0, from its injector `pid` on: each ends with 0 and has recorded nothing. -/
def vain : Nat → Nat → List (Move (Option (List Item)) Env)
  | 0, _ => []
  | n + 1, pid => .env (.tick 1000) :: steps 0 30 ++ .env (.exit pid 0) :: steps 0 5 ++ .env (.tick 35) :: steps 0 5 ++
    .env (.exit (pid + 1) 0) :: vain n (pid + 2)

/-- Three injections of the first class fail; the other class comes to its target. -/
def broken : List (Move (Option (List Item)) Env) :=
  .post (some [⟨"oom", 1⟩, ⟨"disk-full", 1⟩]) :: vain 3 0 ++ .env (.tick 1000) :: steps 0 30 ++
    [.env (.record 6), .env (.exit 6 0)] ++ steps 0 5 ++ .env (.tick 35) :: steps 0 5 ++ [.env (.score 0), .env (.exit 7 0)] ++
    steps 0 12

set_option maxRecDepth 4000 in
theorem batch_isolates_broken :
    (batch.run ⟨quietWorld, [], []⟩ broken).world.archived.map (fun ps => (ps.completed, ps.gaveUp.map (·.1))) =
      [([0, 1], ["oom"])] ∧
    Isolated (batch.run ⟨quietWorld, [], []⟩ broken).log :=
  ⟨by decide +kernel, batch_isolates quietWorld broken (by decide +kernel)⟩

end Wardence.Batch
