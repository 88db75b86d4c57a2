import Mathlib.Data.List.Perm.Basic
import Mathlib.Data.List.Perm.Subperm
import Mathlib.Algebra.Order.Ring.Rat
/-!
# Programs that draw

A program with random choices reads the numbers it draws from a source, and what holds for
every source holds for every outcome of the draws. `Always` is the rule for it: a property of
the result, put together along the program.
-/
namespace Chance

variable {α β : Type}

/-- The numbers that are still to be drawn. -/
abbrev Source := ℕ → ℕ

abbrev Draw (α : Type) := StateM Source α

def draw : Draw ℕ := fun s => (s 0, fun n => s (n + 1))

/-- A number below `n`. -/
def randbelow (n : ℕ) : Draw ℕ := do
  let x ← draw
  return x % n

/-- A number from 0 to 1, less than 1. -/
def random : Draw ℚ := do
  let x ← randbelow (2 ^ 53)
  return x / 2 ^ 53

/-- So many elements, one after the other, without putting them back; all of them if there are fewer. -/
def sample : List α → ℕ → Draw (List α)
  | _, 0 => return []
  | pool, k + 1 => do
    let i ← randbelow pool.length
    match pool[i]? with
    | none => return []
    | some x => do
      let rest ← sample (pool.eraseIdx i) k
      return x :: rest

def shuffle (xs : List α) : Draw (List α) := sample xs xs.length

/-- The running sums. -/
def accumulate : ℚ → List ℚ → List ℚ
  | _, [] => []
  | total, w :: ws => (total + w) :: accumulate (total + w) ws

/-- One element, by weight: the first whose running sum is above a random part of the whole. -/
def choice (pool : List α) (weights : List ℚ) : Draw (Option α) := do
  let cumWeights := accumulate 0 weights
  let u ← random
  let x := u * cumWeights.getLast?.getD 0
  return pool[min (cumWeights.countP (· ≤ x)) (pool.length - 1)]?

/-! ## Whatever is drawn -/

/-- `P` of the result, whatever is drawn. -/
def Always (p : Draw α) (P : α → Prop) : Prop := ∀ s, P (p.run s).1

section Always
variable {p : Draw α} {f : α → Draw β} {P P' : α → Prop} {Q : β → Prop}

theorem Always.pure {a : α} (h : P a) : Always (pure a) P := fun _ => h

theorem Always.bind (hp : Always p P) (hf : ∀ a, P a → Always (f a) Q) : Always (p >>= f) Q :=
  fun s => hf _ (hp s) (p.run s).2

theorem Always.mono (hp : Always p P) (h : ∀ a, P a → P' a) : Always p P' := fun s => h _ (hp s)

/-- A draw of which nothing is used but that it came. -/
theorem Always.any (p : Draw α) : Always p fun _ => True := fun _ => trivial

end Always

theorem randbelow_lt {n : ℕ} (h : 0 < n) : Always (randbelow n) (· < n) :=
  .bind (.any draw) fun x _ => .pure (Nat.mod_lt x h)

/-- A sample is made of elements of the pool, each at most as often as it is there. -/
theorem sample_subperm (pool : List α) (k : ℕ) :
    Always (sample pool k) fun out => List.Subperm out pool ∧ out.length = min k pool.length := by
  induction k generalizing pool with
  | zero => exact .pure ⟨List.nil_subperm, (Nat.zero_min _).symm⟩
  | succ k ih =>
    cases pool with
    | nil => exact .bind (.any _) fun _ _ => .pure ⟨List.nil_subperm, rfl⟩
    | cons y ys =>
      refine .bind (randbelow_lt (Nat.zero_lt_succ _)) fun i hi => ?_
      rw [List.getElem?_eq_getElem hi]
      refine .bind (ih _) fun rest ⟨hrest, hlen⟩ => .pure ⟨?_, ?_⟩
      · exact ((List.subperm_cons _).2 hrest).trans (List.getElem_cons_eraseIdx_perm hi).subperm
      · rw [List.length_cons, hlen, List.length_eraseIdx_of_lt hi]
        omega

theorem nodup_of_subperm {xs ys : List α} (h : List.Subperm xs ys) (hn : ys.Nodup) : xs.Nodup := by
  obtain ⟨l, hperm, hsub⟩ := h
  exact hperm.nodup_iff.1 (hsub.nodup hn)

theorem shuffle_perm (xs : List α) : Always (shuffle xs) (List.Perm · xs) :=
  (sample_subperm xs xs.length).mono fun _ ⟨hout, hlen⟩ => hout.perm_of_length_le (by omega)

/-- What is chosen is in the pool, and something is chosen unless that is empty. -/
theorem choice_mem {pool : List α} (weights : List ℚ) (h : pool ≠ []) : Always (choice pool weights) fun o => ∃ x ∈ pool, o = some x := by
  refine .bind (.any random) fun u _ => .pure ?_
  have hpos := List.length_pos_of_ne_nil h
  have hlt : ∀ n, min n (pool.length - 1) < pool.length := fun n => by omega
  rw [List.getElem?_eq_getElem (hlt _)]
  exact ⟨_, List.getElem_mem _, rfl⟩

theorem choice_nil (weights : List ℚ) : Always (choice ([] : List α) weights) (· = none) := .bind (.any random) fun _ _ => .pure rfl

end Chance
