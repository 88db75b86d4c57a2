import Wardence.Live.Injectors
/-!
# Scorers and their rows

The processes that run `p3_scorer.py`, and the rows of `scores`: what statements and the world
around the API do to them.
-/
namespace Wardence.Live

open Threads

/-- The process that a statement kills, or waits for. -/
def Stmt.kills : Stmt → Option Nat
  | .kill pid => some pid
  | _ => none

def Stmt.awaits : Stmt → Option Nat
  | .waitUntil pid _ => some pid
  | _ => none

/-- The episode that a scorer scores. -/
def Program.scored : Program → Option Nat
  | .injector _ => none
  | .scorer e _ => some e

namespace World

/-- The episode whose scorer process `pid` is, or was. -/
def scorerOf (w : World) (pid : Nat) : Option Nat := w.procs[pid]?.bind (·.program.scored)

/-- Process `pid` is a scorer of `e`, and runs. -/
def Scoring (w : World) (e pid : Nat) : Prop := ∃ t, w.running pid = some (.scorer e t)

/-- No scorer of `e` runs. -/
def Over (w : World) (e : Nat) : Prop := ∀ pid, ¬ w.Scoring e pid

/-- Process `pid` is the one scorer of `e` that may be running. -/
structure Alone (w : World) (e pid : Nat) : Prop where
  scorer : w.scorerOf pid = some e
  only : ∀ p, w.Scoring e p → p = pid

end World

section Statements
variable {w w' : World} {s : Stmt} {e p q : Nat} {c : Int}

theorem exitOf_of_running {x : Program} (h : w.running p = some x) : w.exitOf p = none := by
  obtain ⟨r, hr, hrun⟩ := Option.bind_eq_some_iff.1 h
  simp only [Proc.running, Option.ite_none_right_eq_some] at hrun
  simp [World.exitOf, hr, hrun.1]

theorem scorerOf_ended : (w.setProc q (·.ended c)).scorerOf p = w.scorerOf p := by
  simp only [World.scorerOf, World.setProc, List.getElem?_modify]
  by_cases hq : q = p
  · cases w.procs[p]? <;> simp [hq, Proc.ended]
  · simp [hq]

theorem scorerOf_append {x : Proc} (hp : w'.procs = w.procs ++ [x]) (h : w.scorerOf p = some e) : w'.scorerOf p = some e := by
  obtain ⟨r, hr, -⟩ := Option.bind_eq_some_iff.1 h
  simpa only [World.scorerOf, hp, List.getElem?_append_left (List.getElem?_eq_some_iff.1 hr).1] using h

theorem app_scorerOf (ha : app s w = some w') (h : w.scorerOf p = some e) : w'.scorerOf p = some e := by
  rcases app_procs ha with hp | ⟨q, -, rfl⟩ | ⟨e', -, hp⟩ | ⟨e', t, -, hp⟩
  · simpa only [World.scorerOf, hp] using h
  · rw [scorerOf_ended, h]
  · exact scorerOf_append hp h
  · exact scorerOf_append hp h

theorem app_scores (ha : app s w = some w') : w'.scores = w.scores := by
  cases s <;> simp only [app, Option.some.injEq, Option.ite_none_left_eq_some, Option.ite_none_right_eq_some] at ha
  case claim =>
    subst ha
    split <;> rfl
  all_goals
    first
    | (subst ha; rfl)
    | (obtain ⟨-, rfl⟩ := ha; rfl)

/-- A scorer that a statement leaves running was running, or has just been started. -/
theorem app_scoring (ha : app s w = some w') (h : w'.Scoring e p) :
    w.Scoring e p ∨ ((∃ t, s = .startScorer e t) ∧ p = w.procs.length) := by
  obtain ⟨t, h⟩ := h
  rcases app_running ha h with h | ⟨⟨e', -, hx⟩ | ⟨e', t', rfl, hx⟩, hp⟩
  · exact .inl ⟨t, h⟩
  · cases hx
  · cases hx
    exact .inr ⟨⟨t, rfl⟩, hp⟩

theorem app_over (ha : app s w = some w') (hs : ∀ t, s ≠ .startScorer e t) (h : w.Over e) : w'.Over e := by
  intro p hp
  rcases app_scoring ha hp with hp | ⟨⟨t, ht⟩, -⟩
  · exact h p hp
  · exact hs t ht

theorem app_alone (ha : app s w = some w') (hs : ∀ t, s ≠ .startScorer e t) (h : w.Alone e q) : w'.Alone e q := by
  refine ⟨app_scorerOf ha h.scorer, fun p hp => ?_⟩
  rcases app_scoring ha hp with hp | ⟨⟨t, ht⟩, -⟩
  · exact h.only p hp
  · exact absurd ht (hs t)

/-- A start is the one scorer, where none was. -/
theorem start_alone {t : Nat} (ha : app (.startScorer e t) w = some w') (h : w.Over e) : w'.Alone e w.procs.length := by
  constructor
  · simp only [app, Option.some.injEq] at ha
    subst ha
    simp [World.scorerOf, Program.scored]
  · intro p hp
    rcases app_scoring ha hp with hp | ⟨-, hp⟩
    · exact absurd hp (h p)
    · exact hp

/-- The one scorer is over once it does not run. -/
theorem over_gone (h : w.Alone e q) (hq : w.alive q = false) : w.Over e := by
  rintro p ⟨t, hp⟩
  obtain rfl := h.only p ⟨t, hp⟩
  rw [alive_of_running hp] at hq
  cases hq

theorem over_exit (h : w.Alone e q) (hx : w.exitOf q ≠ none) : w.Over e := by
  rintro p ⟨t, hp⟩
  obtain rfl := h.only p ⟨t, hp⟩
  exact hx (exitOf_of_running hp)

theorem over_killed (ha : app (.kill q) w = some w') (h : w.Alone e q) : w'.Over e := by
  simp only [app, Option.some.injEq] at ha
  subst ha
  rintro p ⟨t, hp⟩
  obtain ⟨hp, hq⟩ := running_ended hp
  exact hq (h.only p ⟨t, hp⟩)

end Statements

/-! ## What others leave alone -/

/-- What whoever resolves `e` relies on: no scorer of it comes, none vanishes from the table, and without one its row is as it was. -/
structure Stays (w w' : World) (e : Nat) : Prop where
  scoring : ∀ p, w'.Scoring e p → w.Scoring e p
  scorer : ∀ p, w.scorerOf p = some e → w'.scorerOf p = some e
  scores : w.Over e → (e ∈ w'.scores ↔ e ∈ w.scores)

section Others
variable {w w' : World} {s : Stmt} {e p q : Nat}

theorem Stays.over (h : Stays w w' e) (ho : w.Over e) : w'.Over e := fun p hp => ho p (h.scoring p hp)

theorem Stays.alone (h : Stays w w' e) (ho : w.Alone e q) : w'.Alone e q :=
  ⟨h.scorer q ho.scorer, fun p hp => ho.only p (h.scoring p hp)⟩

theorem app_stays (ha : app s w = some w') (hs : ∀ t, s ≠ .startScorer e t) : Stays w w' e where
  scoring p hp := (app_scoring ha hp).resolve_right fun h => h.1.elim hs
  scorer _ hp := app_scorerOf ha hp
  scores _ := by rw [app_scores ha]

theorem env_scoring {x : Env} (h : (env x w).Scoring e p) : w.Scoring e p :=
  h.imp fun _ => (env_frame x w).running p _

theorem env_scorerOf (x : Env) : (env x w).scorerOf p = w.scorerOf p := by
  cases x with
  | exit pid c => exact scorerOf_ended
  | record | evidence | score =>
    simp only [env]
    split <;> rfl
  | _ => rfl

theorem env_scored (x : Env) (h : e ∈ w.scores) : e ∈ (env x w).scores := by
  cases x with
  | scoreBatch e' => exact .tail _ h
  | record | evidence =>
    simp only [env]
    split <;> exact h
  | score pid =>
    simp only [env]
    split
    · exact .tail _ h
    · exact h
  | _ => exact h

/-- A row of `scores` comes from a scorer of the episode. -/
theorem env_scores {x : Env} (h : e ∈ (env x w).scores) : e ∈ w.scores ∨ x = .scoreBatch e ∨ ∃ pid, w.Scoring e pid := by
  cases x with
  | scoreBatch e' =>
    rcases List.mem_cons.1 h with rfl | h
    · exact .inr (.inl rfl)
    · exact .inl h
  | record | evidence =>
    simp only [env] at h
    split at h <;> exact .inl h
  | score pid =>
    simp only [env] at h
    split at h
    · rename_i e' t hrun
      rcases List.mem_cons.1 h with rfl | h
      · exact .inr (.inr ⟨pid, t, hrun⟩)
      · exact .inl h
    · exact .inl h
  | _ => exact .inl h

theorem post_scores {j : Job} (hp : post j w = some w') : w'.scores = w.scores := by
  cases j <;> simp only [post, reduceCtorEq] at hp
  case attemptResolve e' t =>
    cases t <;> simp only [Option.ite_none_right_eq_some, Option.some.injEq, reduceCtorEq] at hp
    obtain ⟨-, rfl⟩ := hp
    rfl
  all_goals
    simp only [Option.ite_none_right_eq_some, Option.some.injEq] at hp
    obtain ⟨-, rfl⟩ := hp
    rfl

theorem same_scoring (hp : w'.procs = w.procs) : w'.Scoring e p ↔ w.Scoring e p := by
  simp only [World.Scoring, World.running, hp]

end Others

end Wardence.Live
