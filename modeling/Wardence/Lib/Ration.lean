import Mathlib.Data.List.Nodup
import Mathlib.Logic.Function.Basic
/-!
# Rationing a stream

A budget is spent on the members of a roster, one request at a time and in any
order. Who has had nothing yet is served while anything is left; the others only
from what is left beside one piece for everyone still without, and only up to
their share. `Fair` is what every such decision keeps, and it is why nobody is
ever turned away empty-handed.
-/
namespace Ration

variable {κ : Type}

/-- The members, the budget, and one member's share. -/
structure Plan (κ : Type) where
  roster : List κ
  cap : Nat
  share : Nat

namespace Plan
variable (P : Plan κ)

/-- The members that have had nothing. -/
def uncovered (n : κ → Nat) : List κ := P.roster.filter (n · = 0)

/-- The decision for member `c` when `used` pieces are gone. -/
def serves [DecidableEq κ] (n : κ → Nat) (used : Nat) (c : κ) : Bool :=
  if P.cap ≤ used then false
  else if c ∈ P.uncovered n then true
  else if P.cap - used ≤ (P.uncovered n).length then false
  else n c < P.share

/-- What is left is enough for everyone who has had nothing, and nobody has had
more than a share. -/
structure Fair (n : κ → Nat) (used : Nat) : Prop where
  reserve : used + (P.uncovered n).length ≤ P.cap
  share : ∀ c ∈ P.roster, n c ≤ P.share

variable {P} {n : κ → Nat} {used : Nat} {c : κ}

theorem fair_start (h : P.roster.length ≤ P.cap) : P.Fair (fun _ => 0) 0 := by
  refine ⟨?_, fun _ _ => Nat.zero_le _⟩
  rw [Nat.zero_add]
  exact Nat.le_trans (List.length_filter_le _ _) h

theorem mem_uncovered : c ∈ P.uncovered n ↔ c ∈ P.roster ∧ n c = 0 := by simp [uncovered]

variable [DecidableEq κ]

/-- Another piece for a member: one less without any, if it had none. -/
theorem uncovered_update (hr : P.roster.Nodup) :
    (P.uncovered (Function.update n c (n c + 1))).length = (P.uncovered n).length - if c ∈ P.uncovered n then 1 else 0 := by
  have hfilter : P.uncovered (Function.update n c (n c + 1)) = (P.uncovered n).erase c := by
    rw [uncovered, uncovered, List.Nodup.erase_eq_filter (hr.filter _), List.filter_filter]
    refine List.filter_congr fun x _ => ?_
    by_cases hx : x = c
    · subst hx
      simp
    · simp [hx]
  rw [hfilter, List.length_erase]
  split <;> rfl

/-- Whoever has had nothing is served. -/
theorem serves_first (h : P.Fair n used) (hc : c ∈ P.roster) (hn : n c = 0) : P.serves n used c = true := by
  have hmem := mem_uncovered.2 ⟨hc, hn⟩
  have hpos := List.length_pos_of_mem hmem
  have hleft : ¬ P.cap ≤ used := by
    have := h.reserve
    omega
  rw [serves, if_neg hleft, if_pos hmem]

/-- Serving a member keeps the rest provided for. -/
theorem Fair.serve (h : P.Fair n used) (hr : P.roster.Nodup) (hs : 0 < P.share) (hv : P.serves n used c = true) :
    P.Fair (Function.update n c (n c + 1)) (used + 1) := by
  unfold serves at hv
  have hres := h.reserve
  refine ⟨?_, fun d hd => ?_⟩
  · rw [uncovered_update hr]
    split at hv
    · cases hv
    · by_cases hc : c ∈ P.uncovered n
      · have hpos := List.length_pos_of_mem hc
        rw [if_pos hc]
        omega
      · rw [if_neg hc] at hv ⊢
        split at hv
        · cases hv
        · omega
  · by_cases hdc : d = c
    · subst hdc
      rw [Function.update_self]
      split at hv
      · cases hv
      · by_cases hc : d ∈ P.uncovered n
        · rw [(mem_uncovered.1 hc).2]
          exact hs
        · rw [if_neg hc] at hv
          split at hv
          · cases hv
          · exact of_decide_eq_true hv
    · rw [Function.update_of_ne hdc]
      exact h.share d hd

end Plan

end Ration
