import Mathlib.Data.Set.Card
/-!
# What a list of roots keeps alive

A heap is a reference function: the objects that an object refers to. Where the roots
refer to each other and to leaves only, nothing else is reachable, and its number is bounded.
-/
namespace Heap

variable {α : Type} {refs : α → List α} {roots : List α} {x : α}

/-- Reachable from the roots. -/
inductive Reaches (refs : α → List α) (roots : List α) : α → Prop
  | root {x : α} : x ∈ roots → Reaches refs roots x
  | ref {x y : α} : Reaches refs roots x → y ∈ refs x → Reaches refs roots y

/-- Roots that refer to roots only. -/
theorem Reaches.closed (h : ∀ x ∈ roots, ∀ y ∈ refs x, y ∈ roots) (hx : Reaches refs roots x) : x ∈ roots := by
  induction hx with
  | root hx => exact hx
  | ref _ hy ih => exact h _ ih _ hy

/-- What a root refers to is a root or a leaf. -/
def Fringed (refs : α → List α) (roots : List α) : Prop := ∀ x ∈ roots, ∀ y ∈ refs x, y ∈ roots ∨ refs y = []

theorem Fringed.reaches (h : Fringed refs roots) (hx : Reaches refs roots x) :
    x ∈ roots ∨ refs x = [] ∧ ∃ r ∈ roots, x ∈ refs r := by
  induction hx with
  | root hx => exact .inl hx
  | @ref r y _ hy ih =>
    rcases ih with hr | ⟨hleaf, -⟩
    · exact (h r hr y hy).imp id fun hl => ⟨hl, r, hr, hy⟩
    · rw [hleaf] at hy
      cases hy

/-- What is not a root is a leaf. -/
theorem Fringed.leaf (h : Fringed refs roots) (hx : Reaches refs roots x) (hr : x ∉ roots) : refs x = [] :=
  ((h.reaches hx).resolve_left hr).1

theorem length_flatMap_le {e : ℕ} (h : ∀ x ∈ roots, (refs x).length ≤ e) : (roots.flatMap refs).length ≤ roots.length * e := by
  induction roots with
  | nil => simp
  | cons r rs ih =>
    have hr := h r List.mem_cons_self
    have hrs := ih fun x hx => h x (List.mem_cons_of_mem _ hx)
    rw [List.flatMap_cons, List.length_append, List.length_cons, Nat.succ_mul]
    omega

/-- The roots, and the leaves that they refer to. -/
theorem Fringed.encard_le {n e : ℕ} (h : Fringed refs roots) (hn : roots.length ≤ n) (he : ∀ x ∈ roots, (refs x).length ≤ e) :
    {x | Reaches refs roots x}.encard ≤ n * (1 + e) := by
  classical
  have hsub : {x | Reaches refs roots x} ⊆ ((roots ++ roots.flatMap refs).toFinset : Set α) := by
    intro x hx
    rw [List.coe_toFinset]
    refine List.mem_append.2 ((h.reaches hx).imp id fun ⟨_, r, hr, hxr⟩ => List.mem_flatMap.2 ⟨r, hr, hxr⟩)
  have hlen : (roots ++ roots.flatMap refs).length ≤ n * (1 + e) := by
    rw [List.length_append, Nat.mul_add, Nat.mul_one]
    exact Nat.add_le_add hn ((length_flatMap_le he).trans (Nat.mul_le_mul_right e hn))
  refine (Set.encard_le_encard hsub).trans ?_
  rw [Set.encard_coe_eq_coe_finsetCard]
  exact_mod_cast (List.toFinset_card_le _).trans hlen

end Heap
