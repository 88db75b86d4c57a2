import Wardence.Live.World
import Wardence.Scorer
/-!
# Picking an episode to score

A `p3_scorer.py` run without an episode id takes the newest episode that is not scored, from the
table in which the live trigger keeps its own: a row there may have no `t0` yet.
-/
namespace Wardence.Live

/-- `ORDER BY t0`: a row without one comes first. -/
def Episode.start (r : Episode) : WithBot Nat := r.t0

/-- The placeholder of a row that is saved before the injection is verified. -/
def PENDING : String := "pending"

/-- The row tells when the injection began, and what it was once verified. -/
def Episode.Verified (r : Episode) : Prop := r.t0 ≠ none ∧ ∃ name ∈ r.chaosResourceName, name ≠ PENDING

namespace World

/-- The rows without a row of `scores`, with their episodes. -/
def unscored (w : World) : List (Nat × Episode) := (w.episodes.zipIdx.filter fun x => x.2 ∉ w.scores).map fun x => (x.2, x.1)

/-- The first of them, newest first. -/
def newestUnscored (w : World) : Option (Nat × Episode) := w.unscored.argmax (·.2.start)

/-- `get_unscored_episode`. -/
def getUnscoredEpisode (w : World) : Except PyErr (Option (Nat × Episode)) :=
  match w.newestUnscored with
  | none => .ok none
  | some (e, r) =>
    match r.t0 with
    | none => .error (.typeError "fromisoformat: argument must be str")
    | some t0 => .ok (if t0 + MAX_EPISODE_AGE_MINUTES * 60 < w.clock then none else some (e, r))

theorem argmax_map {α β γ δ : Type} [LinearOrder γ] [LinearOrder δ] {f : β → γ} {f' : α → δ} {g : α → β} {l : List α}
    (h : ∀ a ∈ l, ∀ b ∈ l, f (g a) < f (g b) ↔ f' a < f' b) : (l.map g).argmax f = (l.argmax f').map g := by
  induction l with
  | nil => rfl
  | cons a l ih =>
    rw [List.map_cons, List.argmax_cons, List.argmax_cons, ih fun a ha b hb => h a (.tail _ ha) b (.tail _ hb)]
    cases hm : l.argmax f' with
    | none => rfl
    | some m =>
      simp only [Option.map_some]
      by_cases hlt : f' a < f' m
      · rw [if_pos hlt, if_pos ((h a (.head _) m (.tail _ (List.argmax_mem hm))).2 hlt), Option.map_some]
      · rw [if_neg hlt, if_neg fun hf => hlt ((h a (.head _) m (.tail _ (List.argmax_mem hm))).1 hf), Option.map_some]

/-- Where every row has a `t0`, it does what the scorer's own model of it says: that has the same rows, under their names. -/
theorem getUnscoredEpisode_agrees {w : World} {db : Db} {g : Nat × Episode → String × EpisodeRow}
    (hrows : db.unscored = w.unscored.map g) (ht : ∀ x ∈ w.unscored, x.2.t0 = some (g x).2.t0) :
    ∃ o, w.getUnscoredEpisode = .ok o ∧ Txn.run (Wardence.getUnscoredEpisode w.clock) (.idle db) = (.ok (o.map g), .idle db) := by
  have hnewest : db.unscored.argmax (fun r => r.2.t0) = w.newestUnscored.map g := by
    rw [hrows]
    refine argmax_map fun a ha b hb => ?_
    rw [Episode.start, Episode.start, ht a ha, ht b hb]
    exact WithBot.coe_lt_coe.symm
  have hrun : Txn.run (Wardence.getUnscoredEpisode w.clock) (.idle db) =
      (.ok ((w.newestUnscored.map g).filter fun r => ¬ r.2.t0 + MAX_EPISODE_AGE_MINUTES * 60 < w.clock), .idle db) := by
    rw [← hnewest]
    rfl
  rw [hrun, getUnscoredEpisode]
  cases hnew : w.newestUnscored with
  | none => exact ⟨none, rfl, rfl⟩
  | some x =>
    have hx := ht x (List.argmax_mem hnew)
    simp only [hx]
    refine ⟨_, rfl, ?_⟩
    by_cases hold : (g x).2.t0 + MAX_EPISODE_AGE_MINUTES * 60 < w.clock
    · simp [hold]
    · simpa [hold] using Nat.le_of_not_lt hold

/-- It does not raise, and what it returns has been verified. -/
def PicksVerified (w : World) : Prop := ∃ o, w.getUnscoredEpisode = .ok o ∧ ∀ x ∈ o, x.2.Verified

/-- Some unscored row has a `t0`, if there is any, and the newest of them is too old or verified. -/
structure Pickable (w : World) : Prop where
  started : w.unscored ≠ [] → ∃ x ∈ w.unscored, x.2.t0 ≠ none
  verified : ∀ x ∈ w.newestUnscored, ∀ t0 ∈ x.2.t0,
    t0 + MAX_EPISODE_AGE_MINUTES * 60 < w.clock ∨ ∃ name ∈ x.2.chaosResourceName, name ≠ PENDING

/-- The newest row has a `t0` if any has. -/
theorem newest_started {w : World} {x y : Nat × Episode} (h : w.newestUnscored = some x) (hy : y ∈ w.unscored)
    (hs : y.2.t0 ≠ none) : x.2.t0 ≠ none := by
  intro hx
  have hle : y.2.start ≤ x.2.start := List.le_of_mem_argmax (f := fun y : Nat × Episode => y.2.start) hy h
  obtain ⟨t0, ht⟩ := Option.ne_none_iff_exists'.1 hs
  rw [Episode.start, Episode.start, hx, ht] at hle
  exact absurd hle (WithBot.not_coe_le_bot t0)

end World

end Wardence.Live
