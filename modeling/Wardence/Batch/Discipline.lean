import Wardence.Batch.Programs
import Mathlib.Tactic.SplitIfs
/-!
# What the batch runner does, in order

The typestate discipline of a run of the script. A stage says what the progress
file holds and how far the attempt at hand has come; `fails` counts, for each
class, the attempts of this run that failed in a row.
-/
namespace Wardence.Batch

open Threads Code

/-- Chunk `idx` has come to its target, or its class is given up. -/
def Progress.Settled (p : Progress) (idx : Nat) : Prop :=
  ∀ item : Item, p.plan[idx]? = some item → item.target ≤ p.done idx ∨ p.gaveUpOn item.faultClass = true

def Progress.Finished (p : Progress) : Prop := ∀ idx, p.Settled idx

inductive Stage where
  | idle
  /-- Before the plan is loaded, and without one to resume. -/
  | fresh
  | blank
  /-- Between two attempts. -/
  | ready (p : Progress)
  /-- An attempt at chunk `idx`, by what it has done: counted `before` rows (`down`: and
  found the infrastructure not ready), started its injector, seen it end with 0, started
  the scorer, seen it end with 0, and counted more rows than before. -/
  | opened (p : Progress) (idx before : Nat) (down : Bool)
  | injecting (p : Progress) (idx before pid : Nat)
  | injected (p : Progress) (idx before pid : Nat)
  | scoring (p : Progress) (idx before pid spid : Nat)
  | scored (p : Progress) (idx before pid : Nat)
  | earned (p : Progress) (idx : Nat)
  /-- The injector ended otherwise. -/
  | broken (p : Progress)
  /-- The baselines are not clean; the scorer failed, or a pause was asked for. -/
  | unclean (p : Progress)
  | refused (p : Progress)
  /-- Has saved that the plan is paused or complete. -/
  | closing
  | dead

/-- There is something to pause for. -/
inductive Stage.Pausable (p : Progress) : Stage → Prop
  | unclean : Pausable p (.unclean p)
  | refused : Pausable p (.refused p)
  | broken : Pausable p (.broken p)
  | down {idx b} : Pausable p (.opened p idx b true)

structure Phase where
  stage : Stage
  fails : String → Nat

/-- The statements that change nothing a stage speaks of. -/
def Stmt.Calm : Stmt → Prop
  | .look | .sleepUntil _ | .checkStop | .stamp _ | .unlinkPauseFlag => True
  | _ => False

/-- Chunk `idx` is of class `c`, short of its target and not given up. -/
def Progress.Due (p : Progress) (idx : Nat) (c : String) : Prop :=
  (∃ item : Item, p.plan[idx]? = some item ∧ item.faultClass = c ∧ p.done idx < item.target) ∧ p.gaveUpOn c = false

/-- Every class that has failed too often is given up. -/
def Capped (fails : String → Nat) (p : Progress) : Prop :=
  ∀ c, MAX_CONSECUTIVE_REAL_FAILURES ≤ fails c → p.gaveUpOn c = true

open Function in
inductive Rule : Phase → Stmt → World → Phase → Prop
  | calm {σ f s w} : σ ≠ .idle → σ ≠ .dead → s.Calm → Rule ⟨σ, f⟩ s w ⟨σ, f⟩
  | reap {f pid w} : Rule ⟨.dead, f⟩ (.kill pid) w ⟨.dead, f⟩
  -- the plan
  | load {f ps w} : w.unfinished = some ps → Rule ⟨.fresh, f⟩ .loadPlan w ⟨.ready ps.toProgress, f⟩
  | missing {f w} : w.unfinished = none → Rule ⟨.fresh, f⟩ .loadPlan w ⟨.blank, f⟩
  | new {items f w} : Rule ⟨.blank, f⟩ (.newPlan (startOf items)) w ⟨.ready (startOf items).toProgress, f⟩
  -- the baselines and the pause request
  | clean {σ p f w} : σ = .ready p ∨ σ = .unclean p → w.baselinesClean = true →
    Rule ⟨σ, f⟩ .checkBaselines w ⟨.ready p, f⟩
  | dirty {σ p f w} : σ = .ready p ∨ σ = .unclean p → w.baselinesClean = false →
    Rule ⟨σ, f⟩ .checkBaselines w ⟨.unclean p, f⟩
  | fix {p f w} : Rule ⟨.unclean p, f⟩ .fixBaselines w ⟨.unclean p, f⟩
  | goOn {p f w} : w.pausing = false → Rule ⟨.ready p, f⟩ .pauseRequested w ⟨.ready p, f⟩
  | stop {p f w} : w.pausing = true → Rule ⟨.ready p, f⟩ .pauseRequested w ⟨.refused p, f⟩
  -- an attempt
  | count {p idx c f w} : p.Due idx c →
    Rule ⟨.ready p, f⟩ (.countBefore c) w ⟨.opened p idx (w.realEpisodeCount c) false, f⟩
  | poll {p idx b d f w} : Rule ⟨.opened p idx b d, f⟩ .infraReady w ⟨.opened p idx b (!w.infraReady), f⟩
  | inject {p idx b c f w} : p.Due idx c → Capped f p →
    Rule ⟨.opened p idx b false, f⟩ (.startInjector c) w ⟨.injecting p idx b w.procs.length, f⟩
  | verified {p idx b pid f w} : w.exitOf pid = some 0 →
    Rule ⟨.injecting p idx b pid, f⟩ (.wait pid) w ⟨.injected p idx b pid, f⟩
  | unverified {p idx b pid f w} : w.exitOf pid ≠ some 0 → Rule ⟨.injecting p idx b pid, f⟩ (.wait pid) w ⟨.broken p, f⟩
  | score {p idx b pid f w} : Rule ⟨.injected p idx b pid, f⟩ .startScorer w ⟨.scoring p idx b pid w.procs.length, f⟩
  | scored {p idx b pid spid f w} : w.exitOf spid = some 0 →
    Rule ⟨.scoring p idx b pid spid, f⟩ (.wait spid) w ⟨.scored p idx b pid, f⟩
  | unscored {p idx b pid spid f w} : w.exitOf spid ≠ some 0 →
    Rule ⟨.scoring p idx b pid spid, f⟩ (.wait spid) w ⟨.refused p, f⟩
  | failed {p idx b pid c f w} : p.Due idx c → w.realEpisodeCount c ≤ b →
    Rule ⟨.scored p idx b pid, f⟩ (.countAfter pid c b) w ⟨.ready p, update f c (f c + 1)⟩
  | succeeded {p idx b pid c f w} : p.Due idx c → b < w.realEpisodeCount c →
    Rule ⟨.scored p idx b pid, f⟩ (.countAfter pid c b) w ⟨.earned p idx, update f c 0⟩
  -- what is saved
  | advance {p idx ps f w} : ps.toProgress = p.count idx (p.done idx + 1) → ps.status ≠ .complete → Capped f p →
    Rule ⟨.earned p idx, f⟩ (.savePlan ps) w ⟨.ready ps.toProgress, f⟩
  | skip {p idx item n ps f w} : p.plan[idx]? = some item → p.gaveUpOn item.faultClass = true →
    ps.toProgress = p.count idx n → ps.status ≠ .complete → Capped f p →
    Rule ⟨.ready p, f⟩ (.savePlan ps) w ⟨.ready ps.toProgress, f⟩
  | giveUp {p c g ps f w} : MAX_CONSECUTIVE_REAL_FAILURES ≤ f c → ps.toProgress = p.drop c g → ps.status ≠ .complete →
    Capped f ps.toProgress → Rule ⟨.ready p, f⟩ (.savePlan ps) w ⟨.ready ps.toProgress, f⟩
  | pause {σ p ps f w} : σ.Pausable p → ps.toProgress = p → ps.status = .paused → Capped f p →
    Rule ⟨σ, f⟩ (.savePlan ps) w ⟨.closing, f⟩
  | complete {p ps f w} : p.Finished → ps.toProgress = p → ps.status = .complete → Capped f p →
    Rule ⟨.ready p, f⟩ (.savePlan ps) w ⟨.closing, f⟩
  | archive {f w} : Rule ⟨.closing, f⟩ .archivePlan w ⟨.closing, f⟩
  | finish {σ f w} : σ = .closing ∨ σ = .blank → Rule ⟨σ, f⟩ .finish w ⟨.idle, f⟩

theorem Rule.awake {φ φ' : Phase} {s : Stmt} {w : World} (h : Rule φ s w φ') : φ.stage ≠ .idle := by
  cases h with
  | clean hσ | dirty hσ => rcases hσ with rfl | rfl <;> simp
  | pause hσ => cases hσ <;> simp
  | finish hσ => rcases hσ with rfl | rfl <;> simp
  | calm hi => exact hi
  | _ => simp

theorem Rule.asleep {φ φ' : Phase} {w : World} (h : Rule φ .finish w φ') : φ'.stage = .idle := by
  cases h with
  | calm _ _ hc => exact hc.elim
  | finish => rfl

theorem Progress.Due.unique {p : Progress} {idx : Nat} {c c' : String} (h : p.Due idx c) (h' : p.Due idx c') : c = c' := by
  obtain ⟨⟨item, hi, rfl, -⟩, -⟩ := h
  obtain ⟨⟨item', hi', rfl, -⟩, -⟩ := h'
  rw [Option.some.inj (hi.symm.trans hi')]

/-- The stage after an exception. -/
def Stage.fault : Stage → Stage
  | .idle => .idle
  | _ => .dead

def discipline : Typestate World Stmt (Option (List Item)) Phase where
  entry _ := ⟨.fresh, fun _ => 0⟩
  rule := Rule
  fault φ _ := ⟨φ.stage.fault, φ.fails⟩
  rests _ := True
  mine _ _ := True
  mine_entry _ := trivial
  mine_rule _ _ := trivial
  mine_fault _ _ := trivial

/-! ## The script keeps to it -/

section Programs
variable {α β : Type} {φ φ' : Phase} {s : Stmt} {p : Progress} {idx b : Nat} {d : Bool} {f : String → Nat}

/-- An exception may come anywhere. -/
abbrev Keeps (p : Routine α) (φ : Phase) (Q : α → Phase → Prop) : Prop := Obeys batch discipline p φ Q fun _ => True

theorem keeps_bind {p : Routine α} {f : α → Routine β} {Q : β → Phase → Prop}
    (h : Keeps p φ fun a ψ => Keeps (f a) ψ Q) : Keeps (p >>= f) φ Q := Obeys.graft (h.mono (fun _ _ h => h) fun _ _ => trivial)

theorem keeps_stmt {Q : World → Phase → Prop} (h : ∀ w w', app s w = some w' → ∃ φ', Rule φ s w φ' ∧ Q w φ') :
    Keeps (stmt s) φ Q := ⟨h, trivial⟩

theorem keeps_exec {Q : Unit → Phase → Prop} (h : ∀ w w', app s w = some w' → ∃ φ', Rule φ s w φ' ∧ Q () φ') :
    Keeps (exec s) φ Q := ⟨h, trivial⟩

theorem calm_exec (h : s.Calm) : (exec s).Only Stmt.Calm := ⟨h, fun _ => trivial, rfl⟩

theorem calm_look : look.Only Stmt.Calm := ⟨trivial, fun _ => trivial, rfl⟩

theorem calm_sleep {d : Nat} : (sleep d).Only Stmt.Calm := calm_look.graft fun _ => calm_exec (s := .sleepUntil _) trivial

theorem keeps_calm {p : Routine α} {Q : α → Phase → Prop} (hp : p.Only Stmt.Calm) (hi : φ.stage ≠ .idle)
    (hd : φ.stage ≠ .dead) (hq : ∀ a, Q a φ) : Keeps p φ Q :=
  hp.obeys (fun _ _ hs => .calm hi hd hs) (fun _ _ => trivial) trivial hq

theorem calm_waitChunks {chunks remaining : Nat} : (waitChunks chunks remaining).Only Stmt.Calm := by
  induction chunks generalizing remaining with
  | zero => trivial
  | succ chunks ih =>
    unfold waitChunks
    split
    · trivial
    · refine ⟨trivial, fun w => ?_, rfl⟩
      simp only [graft_done]
      split
      · trivial
      · exact calm_sleep.graft fun _ => ih

theorem calm_waitForTargetRecency {target c : String} {ps : PlanState} : (waitForTargetRecency target c ps).Only Stmt.Calm := by
  unfold waitForTargetRecency
  split
  · trivial
  · exact calm_look.graft fun w => calm_waitChunks

theorem calm_stamp {target : String} : (stmt (.stamp target) : Routine World).Only Stmt.Calm := ⟨trivial, fun _ => trivial, rfl⟩

theorem keeps_pollInfra {n : Nat} :
    Keeps (pollInfra n) ⟨.opened p idx b d, f⟩ fun ready φ => φ = ⟨.opened p idx b (!ready), f⟩ := by
  induction n generalizing d with
  | zero => exact keeps_bind (keeps_stmt fun w _ _ => ⟨_, .poll, rfl⟩)
  | succ n ih =>
    refine keeps_bind (keeps_stmt fun w _ _ => ⟨_, .poll, ?_⟩)
    cases w.infraReady with
    | true => exact rfl
    | false => exact keeps_bind (keeps_calm calm_sleep (by simp) (by simp) fun _ => ih)

/-- A child that is started in `φ` and waited for in `χ`, which goes on as `Q` says. -/
theorem keeps_runScript (χ : Nat → Phase) {Q : Nat × Bool → Phase → Prop} (hs : ∀ w, Rule φ s w (χ w.procs.length))
    (hf : ∀ pid, (χ pid).stage.fault = .dead)
    (hw : ∀ pid w, ∃ φ', Rule (χ pid) (.wait pid) w φ' ∧ Q (pid, w.exitOf pid = some 0) φ') : Keeps (runScript s) φ Q := by
  refine keeps_bind (keeps_stmt fun w _ _ => ⟨_, hs w, ?_⟩)
  refine ⟨fun w' _ _ => hw _ w', ?_⟩
  simp only [discipline, hf]
  exact keeps_bind (keeps_exec fun _ _ _ => ⟨_, .reap, trivial⟩)

/-- What `run_one_episode` leaves: an attempt that is scored, or something to pause for. -/
def Ran (ps : PlanState) (idx b : Nat) (f : String → Nat) : PlanState × Option Nat → Phase → Prop
  | (ps', r), φ => ps'.toProgress = ps.toProgress ∧ ps'.status = ps.status ∧ φ.fails = f ∧
    match r with
    | some pid => φ.stage = .scored ps.toProgress idx b pid
    | none => φ.stage.Pausable ps.toProgress

theorem keeps_runOneEpisode {ps : PlanState} {c : String} (hd : ps.Due idx c) (hf : Capped f ps.toProgress) :
    Keeps (runOneEpisode c ps) ⟨.opened ps.toProgress idx b d, f⟩ (Ran ps idx b f) := by
  unfold runOneEpisode
  split
  · trivial
  rename_i target _ _
  refine keeps_bind (keeps_pollInfra.mono ?_ fun _ h => h)
  rintro ready _ rfl
  cases ready with
  | false => exact ⟨rfl, rfl, rfl, .down⟩
  | true =>
    refine keeps_bind (keeps_calm calm_waitForTargetRecency (by simp) (by simp) fun _ => ?_)
    refine keeps_bind (keeps_runScript (fun pid => ⟨.injecting ps.toProgress idx b pid, f⟩) (fun w => .inject hd hf) (fun _ => rfl) fun pid w => ?_)
    by_cases he : w.exitOf pid = some 0
    · refine ⟨_, .verified he, ?_⟩
      simp only [he, decide_true, Bool.not_true, Bool.false_eq_true, if_false]
      refine keeps_bind (keeps_calm calm_stamp (by simp) (by simp) fun w' => ?_)
      refine keeps_bind (keeps_calm calm_sleep (by simp) (by simp) fun _ => ?_)
      refine keeps_bind (keeps_runScript (fun spid => ⟨.scoring ps.toProgress idx b pid spid, f⟩) (fun w => .score) (fun _ => rfl) fun spid w'' => ?_)
      by_cases hs : w''.exitOf spid = some 0
      · refine ⟨_, .scored hs, ?_⟩
        simp only [hs, decide_true, Bool.not_true, Bool.false_eq_true, if_false]
        exact ⟨rfl, rfl, rfl, rfl⟩
      · refine ⟨_, .unscored hs, ?_⟩
        simp only [hs, decide_false, Bool.not_false, if_true]
        exact ⟨rfl, rfl, rfl, .refused⟩
    · refine ⟨_, .unverified he, ?_⟩
      simp only [he, decide_false, Bool.not_false, if_true]
      exact ⟨rfl, rfl, rfl, .broken⟩

/-! ## The plan's loops -/

/-- Every class that is not given up has last succeeded, if at all tried. -/
def Quiet (f : String → Nat) (p : Progress) : Prop := ∀ c, p.gaveUpOn c = false → f c = 0

theorem Quiet.capped {p : Progress} (h : Quiet f p) : Capped f p := by
  intro c hc
  by_contra hg
  rw [h c (by simpa using hg)] at hc
  exact absurd hc (by decide)

/-- `p` has come to be `p'`. -/
structure Progress.Grows (p p' : Progress) : Prop where
  plan : p'.plan = p.plan
  done : ∀ idx, p.done idx ≤ p'.done idx
  gaveUp : ∀ c, p.gaveUpOn c = true → p'.gaveUpOn c = true

namespace Progress
variable {p p' p'' : Progress} {idx n : Nat} {c : String} {g : GaveUp}

theorem Grows.refl (p : Progress) : p.Grows p := ⟨rfl, fun _ => le_rfl, fun _ h => h⟩

theorem Grows.trans (h : p.Grows p') (h' : p'.Grows p'') : p.Grows p'' :=
  ⟨h'.plan.trans h.plan, fun idx => (h.done idx).trans (h'.done idx), fun c hc => h'.gaveUp c (h.gaveUp c hc)⟩

theorem Grows.settled (h : p.Grows p') (hs : p.Settled idx) : p'.Settled idx := by
  intro item hi
  rw [h.plan] at hi
  exact (hs item hi).imp (fun hd => hd.trans (h.done idx)) (h.gaveUp _)

theorem done_count (hi : idx < p.plan.length) (k : Nat) : (p.count idx n).done k = if k = idx then n else p.done k := by
  unfold Progress.done Progress.count
  by_cases hk : k = idx
  · subst hk
    simp [p.sized, hi]
  · simp [hk, List.getElem?_set_ne (Ne.symm hk)]

@[simp] theorem plan_count : (p.count idx n).plan = p.plan := rfl
@[simp] theorem gaveUpOn_count : (p.count idx n).gaveUpOn c = p.gaveUpOn c := rfl
@[simp] theorem plan_drop : (p.drop c g).plan = p.plan := rfl
@[simp] theorem done_drop : (p.drop c g).done idx = p.done idx := rfl

theorem gaveUpOn_drop (c' : String) : (p.drop c g).gaveUpOn c' = (decide (c' = c) || p.gaveUpOn c') := by
  unfold gaveUpOn drop put
  by_cases hc : c' = c
  · simp [hc]
  · have hne : ∀ x : String × GaveUp, decide (x.1 = c') = true → decide (x.1 ≠ c) = true := by
      rintro ⟨k, v⟩ hk
      simp only [decide_eq_true_eq] at hk ⊢
      exact hk ▸ hc
    simp only [List.any_cons, hc, decide_false, Bool.false_or, Ne.symm hc]
    rw [Bool.eq_iff_iff]
    simp only [List.any_eq_true, List.mem_filter]
    constructor
    · rintro ⟨x, ⟨hx, -⟩, hk⟩
      exact ⟨x, hx, hk⟩
    · rintro ⟨x, hx, hk⟩
      exact ⟨x, ⟨hx, hne x hk⟩, hk⟩

theorem grows_count (hi : idx < p.plan.length) (hn : p.done idx ≤ n) : p.Grows (p.count idx n) := by
  refine ⟨rfl, fun k => ?_, fun _ h => h⟩
  rw [done_count hi]
  split
  · rename_i hk
    exact hk ▸ hn
  · exact le_rfl

theorem grows_drop : p.Grows (p.drop c g) := ⟨rfl, fun _ => le_rfl, fun c' h => by rw [gaveUpOn_drop, h, Bool.or_true]⟩

end Progress

/-- What the loops leave: the plan paused, or ready to go on, with chunk `idx` settled. -/
def Left (p : Progress) (idx : Nat) : PlanState × Bool → Phase → Prop
  | (_, true), φ => φ.stage = .closing
  | (ps, false), φ => φ.stage = .ready ps.toProgress ∧ ps.status ≠ .complete ∧ Quiet φ.fails ps.toProgress ∧
    p.Grows ps.toProgress ∧ ps.Settled idx

theorem Left.mono {p p' : Progress} {r : PlanState × Bool} (h : Left p' idx r φ) (hp : p.Grows p') : Left p idx r φ := by
  obtain ⟨ps, _ | _⟩ := r
  · obtain ⟨hφ, hs, hq, hg, hi⟩ := h
    exact ⟨hφ, hs, hq, hp.trans hg, hi⟩
  · exact h

theorem keeps_savePlan {ps : PlanState} {Q : Unit → Phase → Prop} (h : ∀ w, Rule φ (.savePlan ps) w φ') (hq : Q () φ') :
    Keeps (savePlan ps) φ Q := keeps_exec fun w _ _ => ⟨φ', h w, hq⟩

theorem keeps_pause {ps : PlanState} {Q : PlanState × Bool → Phase → Prop} (h : φ.stage.Pausable ps.toProgress)
    (hc : Capped φ.fails ps.toProgress) (hq : ∀ ps', Q (ps', true) ⟨.closing, φ.fails⟩) : Keeps (pause ps) φ Q :=
  keeps_bind (keeps_savePlan (fun _ => .pause h rfl rfl hc) (hq _))

theorem plan_advance (ps : PlanState) : (ps.advance idx).toProgress = ps.toProgress.count idx (ps.done idx + 1) := rfl

/-- A round of a chunk's loop: `left` failures are left, and the others are quiet. -/
theorem keeps_attempt {item : Item} {left : Nat} {next : PlanState → Routine (PlanState × Bool)} {ps : PlanState}
    (hs : ps.status ≠ .complete) (hd : ps.Due idx item.faultClass) (hi : ps.plan[idx]? = some item)
    (hf : f item.faultClass + left = MAX_CONSECUTIVE_REAL_FAILURES) (hl : 0 < left)
    (hq : ∀ c, c ≠ item.faultClass → ps.gaveUpOn c = false → f c = 0)
    (hnext : ∀ ps' f', ps'.status ≠ .complete → ps'.toProgress = ps.toProgress.count idx (ps.done idx + 1) →
      Quiet f' ps'.toProgress → Keeps (next ps') ⟨.ready ps'.toProgress, f'⟩ (Left ps'.toProgress idx)) :
    Keeps (attempt idx item next left ps) ⟨.ready ps.toProgress, f⟩ (Left ps.toProgress idx) := by
  induction left generalizing f ps with
  | zero => exact absurd hl (Nat.lt_irrefl 0)
  | succ left ih =>
    have hidx : idx < ps.plan.length := (List.getElem?_eq_some_iff.1 hi).1
    have hcap : Capped f ps.toProgress := by
      intro c hc
      by_contra hg
      have hg' : ps.gaveUpOn c = false := by simpa using hg
      by_cases hci : c = item.faultClass
      · subst hci
        omega
      · rw [hq c hci hg'] at hc
        exact absurd hc (by decide)
    unfold attempt
    refine keeps_bind (keeps_stmt fun w _ _ => ⟨_, .count hd, ?_⟩)
    refine keeps_bind ((keeps_runOneEpisode hd hcap).mono ?_ fun _ h => h)
    rintro ⟨ps', r⟩ ⟨σ, f'⟩ ⟨hp, hs', hf', hr⟩
    obtain rfl : f' = f := hf'
    cases r with
    | none => exact keeps_pause (hp ▸ hr) (hp ▸ hcap) fun _ => rfl
    | some pid =>
      obtain rfl : σ = _ := hr
      refine keeps_bind (keeps_stmt fun w' _ _ => ?_)
      by_cases hc : w'.realEpisodeCount item.faultClass ≤ w.realEpisodeCount item.faultClass
      -- No new row: the slot is tried again, or the class given up.
      · refine ⟨_, .failed hd hc, ?_⟩
        rw [if_pos hc, ← hp]
        cases left with
        | zero =>
          have hquiet : Quiet (Function.update f' item.faultClass (f' item.faultClass + 1)) (ps'.giveUp idx item).toProgress := by
            intro c hg
            simp only [PlanState.giveUp, Progress.gaveUpOn_drop, Bool.or_eq_false_iff, decide_eq_false_iff_not] at hg
            rw [Function.update_of_ne hg.1]
            exact hq c hg.1 (hp ▸ hg.2)
          have hmax : MAX_CONSECUTIVE_REAL_FAILURES ≤ Function.update f' item.faultClass (f' item.faultClass + 1) item.faultClass := by
            rw [Function.update_self]
            omega
          refine keeps_bind (keeps_savePlan (fun _ => .giveUp hmax rfl (hs' ▸ hs) hquiet.capped) ?_)
          refine ⟨rfl, hs' ▸ hs, hquiet, Progress.grows_drop, fun item' hi' => .inr ?_⟩
          have : item' = item := by
            have h' : ps.plan[idx]? = some item' := hp ▸ hi'
            exact Option.some.inj (h'.symm.trans hi)
          simp only [PlanState.giveUp, Progress.gaveUpOn_drop, this, decide_true, Bool.true_or]
        | succ left =>
          refine ih (hs' ▸ hs) (hp ▸ hd) (hp ▸ hi) ?_ (Nat.succ_pos _) ?_ (hp ▸ hnext)
          · rw [Function.update_self]
            omega
          · intro c hne hg
            rw [Function.update_of_ne hne]
            exact hq c hne (hp ▸ hg)
      -- A new row: counted, saved and, unless a pause is asked for, on.
      · refine ⟨_, .succeeded hd (Nat.lt_of_not_le hc), ?_⟩
        rw [if_neg hc, ← hp]
        have hquiet : Quiet (Function.update f' item.faultClass 0) (ps'.advance idx).toProgress := by
          intro c hg
          by_cases hci : c = item.faultClass
          · rw [hci, Function.update_self]
          · rw [Function.update_of_ne hci]
            exact hq c hci (hp ▸ hg)
        have hquiet' : Quiet (Function.update f' item.faultClass 0) ps'.toProgress := hquiet
        have hgrows : ps'.toProgress.Grows (ps'.advance idx).toProgress :=
          Progress.grows_count (hp ▸ hidx) (Nat.le_succ _)
        refine keeps_bind (keeps_calm (calm_exec (s := .look) trivial) (by simp) (by simp) fun _ => ?_)
        refine keeps_bind (keeps_calm (calm_exec (s := .look) trivial) (by simp) (by simp) fun _ => ?_)
        refine keeps_bind (keeps_savePlan (fun _ => .advance rfl (hs' ▸ hs) hquiet'.capped) ?_)
        refine keeps_bind (keeps_calm (calm_exec (s := .look) trivial) (by simp) (by simp) fun _ => ?_)
        refine keeps_bind (keeps_stmt fun w'' _ _ => ?_)
        cases hw : w''.pausing with
        | true =>
          refine ⟨_, .stop hw, ?_⟩
          rw [if_pos rfl]
          refine keeps_bind (keeps_pause .refused hquiet.capped fun _ => ?_)
          exact keeps_bind (keeps_calm (calm_exec (s := .unlinkPauseFlag) trivial) (by simp) (by simp) fun _ => rfl)
        | false =>
          refine ⟨_, .goOn hw, ?_⟩
          rw [if_neg (by simp)]
          refine (hnext _ _ (hs' ▸ hs) (by rw [plan_advance, hp]) hquiet).mono (fun r ψ h => h.mono ?_) fun _ h => h
          exact hgrows

theorem keeps_runChunk {item : Item} {n : Nat} {ps : PlanState} (hs : ps.status ≠ .complete) (hi : ps.plan[idx]? = some item)
    (hn : ps.done idx + n = item.target) (hg : ps.gaveUpOn item.faultClass = false) (hq : Quiet f ps.toProgress) :
    Keeps (runChunk idx item n ps) ⟨.ready ps.toProgress, f⟩ (Left ps.toProgress idx) := by
  induction n generalizing f ps with
  | zero =>
    refine ⟨rfl, hs, hq, .refl _, fun item' hi' => .inl ?_⟩
    obtain rfl : item' = item := Option.some.inj (hi'.symm.trans hi)
    exact hn.ge
  | succ n ih =>
    have hidx : idx < ps.plan.length := (List.getElem?_eq_some_iff.1 hi).1
    refine keeps_attempt hs ⟨⟨item, hi, rfl, by omega⟩, hg⟩ hi (by rw [hq _ hg, Nat.zero_add]) (by decide) (fun c _ => hq c) ?_
    intro ps' f' hs' hp hq'
    refine ih hs' ?_ ?_ ?_ hq'
    · rw [hp]
      exact hi
    · have h1 : ps'.done idx = ps.done idx + 1 := by
        rw [hp, Progress.done_count hidx, if_pos rfl]
      omega
    · rw [hp]
      exact hg

/-- The plan paused, or all chunks settled. -/
def Through : PlanState × Bool → Phase → Prop
  | (_, true), φ => φ.stage = .closing
  | (ps, false), φ => φ.stage = .ready ps.toProgress ∧ ps.Finished ∧ Quiet φ.fails ps.toProgress

theorem keeps_runPlan {items : List Item} {ps : PlanState} (hs : ps.status ≠ .complete) (hi : ps.plan.drop idx = items)
    (hb : ∀ k < idx, ps.Settled k) (hq : Quiet f ps.toProgress) :
    Keeps (runPlan idx items ps) ⟨.ready ps.toProgress, f⟩ Through := by
  induction items generalizing idx f ps with
  | nil =>
    refine ⟨rfl, fun k item hk => ?_, hq⟩
    exact hb k (Nat.lt_of_lt_of_le (List.getElem?_eq_some_iff.1 hk).1 (List.drop_eq_nil_iff.1 hi)) item hk
  | cons item rest ih =>
    have hget : ps.plan[idx]? = some item := by
      rw [← List.head?_drop, hi]
      rfl
    have hrest : ps.plan.drop (idx + 1) = rest := by
      rw [← List.tail_drop, hi]
      rfl
    have hbefore : ∀ {ps' : PlanState}, ps.toProgress.Grows ps'.toProgress → ps'.Settled idx → ∀ k < idx + 1, ps'.Settled k := by
      intro ps' hgrow hset k hk
      rcases Nat.lt_succ_iff_lt_or_eq.1 hk with hlt | rfl
      · exact hgrow.settled (hb k hlt)
      · exact hset
    have hsettled : ∀ {ps' : PlanState}, ps'.plan = ps.plan → item.target ≤ ps'.done idx ∨ ps'.gaveUpOn item.faultClass = true →
        ps'.Settled idx := by
      intro ps' hp h item' hi'
      rw [hp] at hi'
      obtain rfl : item' = item := Option.some.inj (hi'.symm.trans hget)
      exact h
    unfold runPlan
    by_cases hdone : item.target ≤ ps.done idx
    · rw [if_pos hdone]
      exact ih hs hrest (hbefore (.refl _) (hsettled rfl (.inl hdone))) hq
    rw [if_neg hdone]
    cases hgave : ps.gaveUpOn item.faultClass with
    | true =>
      rw [if_pos rfl]
      have hgrow : ps.toProgress.Grows (ps.skip idx item).toProgress :=
        Progress.grows_count (List.getElem?_eq_some_iff.1 hget).1 (Nat.le_of_not_le hdone)
      refine keeps_bind (keeps_savePlan (fun _ => .skip hget hgave rfl hs hq.capped) ?_)
      exact ih hs hrest (hbefore hgrow (hsettled rfl (.inr hgave))) hq
    | false =>
      rw [if_neg (by simp)]
      refine keeps_bind ((keeps_runChunk hs hget (Nat.add_sub_cancel' (Nat.le_of_not_le hdone)) hgave hq).mono ?_ fun _ h => h)
      rintro ⟨ps', _ | _⟩ ⟨σ, f'⟩ h
      · obtain ⟨rfl, hs', hq', hgrow, hset⟩ := h
        dsimp only
        rw [if_neg (by simp)]
        exact ih hs' (by rw [hgrow.plan, hrest]) (hbefore hgrow hset) hq'
      · exact h

/-! ## The script -/

theorem keeps_runBaselineCheck :
    Keeps runBaselineCheck ⟨.ready p, f⟩ fun clean φ => φ = ⟨if clean then .ready p else .unclean p, f⟩ := by
  refine keeps_bind (keeps_stmt fun w _ _ => ?_)
  cases hw : w.baselinesClean with
  | true => exact ⟨_, .clean (.inl rfl) hw, rfl⟩
  | false =>
    refine ⟨_, .dirty (.inl rfl) hw, keeps_bind (keeps_stmt fun w' _ _ => ⟨_, .fix, ?_⟩)⟩
    cases w'.fixWorks with
    | false => exact rfl
    | true =>
      refine keeps_bind (keeps_stmt fun w'' _ _ => ?_)
      cases hw'' : w''.baselinesClean with
      | true => exact ⟨_, .clean (.inr rfl) hw'', rfl⟩
      | false => exact ⟨_, .dirty (.inr rfl) hw'', rfl⟩

theorem keeps_finish {Q : Unit → Phase → Prop} (h : φ.stage = .closing ∨ φ.stage = .blank) (hq : Q () ⟨.idle, φ.fails⟩) :
    Keeps (exec .finish) φ Q := keeps_exec fun _ _ _ => ⟨_, .finish h, hq⟩

theorem keeps_resume {ps : PlanState} (hs : ps.status ≠ .complete) :
    Keeps (resume ps) ⟨.ready ps.toProgress, fun _ => 0⟩ fun _ _ => True := by
  have hq : Quiet (fun _ => 0) ps.toProgress := fun _ _ => rfl
  refine keeps_bind (keeps_calm (calm_exec (s := .unlinkPauseFlag) trivial) (by simp) (by simp) fun _ => ?_)
  refine keeps_bind (keeps_runBaselineCheck.mono ?_ fun _ h => h)
  rintro clean _ rfl
  cases clean with
  | false => exact keeps_bind (keeps_pause .unclean hq.capped fun _ => keeps_finish (.inl rfl) trivial)
  | true =>
    refine keeps_bind ((keeps_runPlan hs rfl (fun k hk => absurd hk (Nat.not_lt_zero k)) hq).mono ?_ fun _ h => h)
    rintro ⟨ps', _ | _⟩ ⟨σ, f'⟩ h
    · obtain ⟨rfl, hfin, hq'⟩ := h
      refine keeps_bind (keeps_savePlan (fun _ => .complete hfin rfl rfl hq'.capped) ?_)
      exact keeps_bind (keeps_exec fun _ _ _ => ⟨_, .archive, keeps_finish (.inl rfl) trivial⟩)
    · exact keeps_finish (.inl h) trivial

theorem keeps_main {given : Option (List Item)} : Keeps (main given) ⟨.fresh, fun _ => 0⟩ fun _ _ => True := by
  refine keeps_bind (keeps_calm (calm_exec (s := .look) trivial) (by simp) (by simp) fun _ => ?_)
  refine keeps_bind (keeps_stmt fun w _ _ => ?_)
  cases hw : w.unfinished with
  | some ps =>
    have hs : ps.status ≠ .complete := by
      simpa using (Option.filter_eq_some_iff.1 hw).2
    exact ⟨_, .load hw, keeps_resume hs⟩
  | none =>
    refine ⟨_, .missing hw, ?_⟩
    cases given with
    | none => exact keeps_finish (.inr rfl) trivial
    | some items => exact keeps_bind (keeps_exec fun _ _ _ => ⟨_, .new, keeps_resume (by simp [startOf])⟩)

theorem batch_sound : Sound batch discipline := fun _ => keeps_main

end Programs

end Wardence.Batch
