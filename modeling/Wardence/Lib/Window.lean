import Mathlib.Data.List.Perm.Basic
import Mathlib.Data.List.Count
import Mathlib.Order.Lattice
/-!
# Windows of a log

The entries of a log whose key lies in a half-open range, and lists that hold
exactly these, in the order of their keys.
-/
namespace Windows

variable {α κ : Type} [LinearOrder κ]

/-- The entries with a key in `[a, b)`. -/
def window (key : α → κ) (log : List α) (a b : κ) : List α := log.filter fun x => a ≤ key x ∧ key x < b

/-- Exactly the entries of the window, each as often as in the log, in order. -/
structure Pulled (key : α → κ) (log : List α) (a b : κ) (xs : List α) : Prop where
  perm : xs.Perm (window key log a b)
  sorted : xs.Pairwise fun x y => key x ≤ key y

variable {key : α → κ} {log xs ys : List α} {a b c : κ} {x : α}

theorem mem_window : x ∈ window key log a b ↔ x ∈ log ∧ a ≤ key x ∧ key x < b := by simp [window]

theorem window_empty (h : b ≤ a) : window key log a b = [] :=
  List.eq_nil_iff_forall_not_mem.2 fun _ hx => absurd ((mem_window.1 hx).2.1.trans_lt (mem_window.1 hx).2.2) h.not_gt

theorem window_mono {a' b' : κ} (h : window key log a b = []) (ha : a ≤ a') (hb : b' ≤ b) : window key log a' b' = [] :=
  List.eq_nil_iff_forall_not_mem.2 fun x hx => by
    obtain ⟨hm, hl, hr⟩ := mem_window.1 hx
    exact List.eq_nil_iff_forall_not_mem.1 h x (mem_window.2 ⟨hm, ha.trans hl, hr.trans_le hb⟩)

/-- Windows side by side. -/
theorem window_append (key : α → κ) (log : List α) (hab : a ≤ b) (hbc : b ≤ c) :
    (window key log a b ++ window key log b c).Perm (window key log a c) := by
  induction log with
  | nil => exact .refl _
  | cons x log ih =>
    simp only [window, List.filter_cons] at ih ⊢
    rcases lt_or_ge (key x) b with hx | hx
    · have hc : key x < c := hx.trans_le hbc
      by_cases ha : a ≤ key x
      · simpa [ha, hx, hc, hx.not_ge] using ih
      · simpa [ha, hx.not_ge] using ih
    · have ha : a ≤ key x := hab.trans hx
      by_cases hc : key x < c
      · simpa [ha, hx, hc, hx.not_gt] using (List.perm_middle.trans (ih.cons x))
      · simpa [hc, hx.not_gt] using ih

namespace Pulled

theorem mem (h : Pulled key log a b xs) (hx : x ∈ xs) : x ∈ log ∧ a ≤ key x ∧ key x < b := mem_window.1 (h.perm.mem_iff.1 hx)

theorem nil (h : window key log a b = []) : Pulled key log a b [] := ⟨by rw [h], .nil⟩

theorem eq_nil (h : Pulled key log a b []) : window key log a b = [] := h.perm.nil_eq.symm

theorem append (h : Pulled key log a b xs) (h' : Pulled key log b c ys) (hab : a ≤ b) (hbc : b ≤ c) :
    Pulled key log a c (xs ++ ys) :=
  ⟨(h.perm.append h'.perm).trans (window_append _ _ hab hbc),
    List.pairwise_append.2 ⟨h.sorted, h'.sorted, fun _ hx _ hy => (h.mem hx).2.2.le.trans (h'.mem hy).2.1⟩⟩

/-- The end moves where no entries are. -/
theorem stretch (h : Pulled key log a b xs) (hab : a ≤ b) (hbc : b ≤ c) (hn : window key log b c = []) :
    Pulled key log a c xs := by
  simpa using h.append (.nil hn) hab hbc

theorem shrink (h : Pulled key log a c xs) (hab : a ≤ b) (hbc : b ≤ c) (hn : window key log b c = []) :
    Pulled key log a b xs := by
  refine ⟨h.perm.trans ?_, h.sorted⟩
  have := window_append key log hab hbc
  rw [hn, List.append_nil] at this
  exact this.symm

theorem count [DecidableEq α] (h : Pulled key log a b xs) (ha : a ≤ key x) (hb : key x < b) : xs.count x = log.count x := by
  rw [h.perm.count_eq, window, List.count_filter]
  simp [ha, hb]

end Pulled

end Windows
