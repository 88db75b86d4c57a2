import Mathlib.Algebra.Order.Field.Basic
import Mathlib.Order.Monotone.Basic
import Mathlib.Tactic.Linarith
/-!
# Along a line of knots

A point that is at the first place until the first time, reaches each place at its time, moves
evenly between two of them, and stays at the last. When neither the times nor the places ever
go down, the point does not go back and does not leave the line.
-/
namespace Polyline

variable {K : Type} [Field K] [LinearOrder K]

/-- How much of the way from time `t` to time `u` is gone at `x`. -/
def share (t u x : K) : K := if u > t then min 1 (max 0 ((x - t) / (u - t))) else 1

/-- Where the point is at `x`. -/
def along : List K → List K → K → K
  | t :: u :: ts, f :: g :: fs, x => if x ≥ u then along (u :: ts) (g :: fs) x else f + (g - f) * share t u x
  | _, f :: _, _ => f
  | _, [], _ => 0

section
variable {t u x : K}

theorem share_nonneg [IsStrictOrderedRing K] : 0 ≤ share t u x := by
  unfold share
  split
  · exact le_min zero_le_one (le_max_left _ _)
  · exact zero_le_one

theorem share_le_one : share t u x ≤ 1 := by
  unfold share
  split
  · exact min_le_left _ _
  · exact le_refl _

end

variable [IsStrictOrderedRing K]

theorem share_mono (t u : K) : Monotone (share t u) := by
  intro x y h
  unfold share
  split
  · rename_i htu
    have hdiv : (x - t) / (u - t) ≤ (y - t) / (u - t) := div_le_div_of_nonneg_right (by linarith) (by linarith)
    exact min_le_min_left _ (max_le_max_left _ hdiv)
  · exact le_refl _

/-- On the way from `f` to `g`. -/
theorem between {t u x f g : K} (hfg : f ≤ g) : f ≤ f + (g - f) * share t u x ∧ f + (g - f) * share t u x ≤ g := by
  have hgap : 0 ≤ g - f := sub_nonneg.2 hfg
  have hlow := mul_nonneg hgap (share_nonneg (t := t) (u := u) (x := x))
  have hhigh := mul_le_mul_of_nonneg_left (share_le_one (t := t) (u := u) (x := x)) hgap
  constructor
  · linarith
  · linarith

/-- The point is on the line. -/
theorem along_bounds (ts : List K) (f : K) (fs : List K) (x : K) (hfs : (f :: fs).Pairwise (· ≤ ·)) :
    f ≤ along ts (f :: fs) x ∧ along ts (f :: fs) x ≤ (f :: fs).getLast (List.cons_ne_nil _ _) := by
  induction fs generalizing ts f with
  | nil => simp [along]
  | cons g fs ih =>
    obtain ⟨hfirst, hrest⟩ := List.pairwise_cons.1 hfs
    have hfg : f ≤ g := hfirst g (.head _)
    have hlast : g ≤ (g :: fs).getLast (List.cons_ne_nil _ _) := (ih [] g hrest).1.trans (ih [] g hrest).2
    rw [List.getLast_cons (List.cons_ne_nil _ _)]
    match ts with
    | [] | [_] => exact ⟨le_refl _, hfg.trans hlast⟩
    | t :: u :: ts =>
      unfold along
      split
      · obtain ⟨hlow, hhigh⟩ := ih (u :: ts) g hrest
        exact ⟨hfg.trans hlow, hhigh⟩
      · obtain ⟨hlow, hhigh⟩ := between (t := t) (u := u) (x := x) hfg
        exact ⟨hlow, hhigh.trans hlast⟩

/-- The point does not go back. -/
theorem along_mono (ts fs : List K) (hfs : fs.Pairwise (· ≤ ·)) : Monotone (along ts fs) := by
  intro x y hxy
  induction fs generalizing ts with
  | nil => simp [along]
  | cons f fs ih =>
    match ts, fs with
    | [], _ | [_], _ | _ :: _ :: _, [] => simp [along]
    | t :: u :: ts, g :: fs =>
      obtain ⟨hfirst, hrest⟩ := List.pairwise_cons.1 hfs
      have hfg : f ≤ g := hfirst g (.head _)
      unfold along
      by_cases hx : x ≥ u
      · rw [if_pos hx, if_pos (hx.le.trans hxy)]
        exact ih _ hrest
      · rw [if_neg hx]
        split
        · exact (between hfg).2.trans (along_bounds (u :: ts) g fs y hrest).1
        · have := mul_le_mul_of_nonneg_left (share_mono t u hxy) (sub_nonneg.2 hfg)
          linarith

end Polyline
