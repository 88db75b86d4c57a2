import Mathlib.Algebra.BigOperators.Group.List.Basic
import Mathlib.Data.List.Induction
import Mathlib.Data.List.Nodup
/-!
# Tallies

A dictionary that a loop over rows fills: each row updates the entry under its key, which begins with a
default. What is under a key is what the rows with that key make of the default, and a measure that
every row adds to adds up to the same over the entries as over the rows. An entry may be a tally itself.
-/
namespace Tally

variable {α κ σ τ M : Type*} [DecidableEq κ]

/-- `d.setdefault(k, init)`, and then `f` on what is under `k`. Keys stand in the order of their first use. -/
def bump (init : σ) (k : κ) (f : σ → σ) : List (κ × σ) → List (κ × σ)
  | [] => [(k, f init)]
  | (k', s) :: d => if k' = k then (k', f s) :: d else (k', s) :: bump init k f d

def tally (key : α → κ) (init : σ) (add : α → σ → σ) (rows : List α) : List (κ × σ) :=
  rows.foldl (fun d r => bump init (key r) (add r) d) []

/-- What is under a key, or what an entry begins with. -/
def entry (init : σ) (d : List (κ × σ)) (k : κ) : σ := (d.lookup k).getD init

def keys (d : List (κ × σ)) : List κ := d.map Prod.fst

/-- A measure of the entries, added up. -/
def total [AddCommMonoid M] (value : κ → σ → M) (d : List (κ × σ)) : M := (d.map fun e => value e.1 e.2).sum

section Bump
variable (init : σ) (k : κ) (f : σ → σ) (d : List (κ × σ))

theorem lookup_bump (k' : κ) : (bump init k f d).lookup k' = if k' = k then some (f (entry init d k)) else d.lookup k' := by
  induction d with
  | nil =>
    by_cases h : k' = k
    · simp [bump, entry, h]
    · simp [bump, h, List.lookup_cons, beq_false_of_ne h]
  | cons e d ih =>
    obtain ⟨k₁, s⟩ := e
    by_cases h₁ : k₁ = k
    · subst h₁
      by_cases h : k' = k₁
      · simp [bump, entry, h]
      · simp [bump, h, List.lookup_cons, beq_false_of_ne h]
    · have hne : k ≠ k₁ := fun h => h₁ h.symm
      by_cases h : k' = k₁
      · subst h
        simp [bump, h₁]
      · rw [bump, if_neg h₁, List.lookup_cons, beq_false_of_ne h]
        simpa [entry, List.lookup_cons, beq_false_of_ne h, beq_false_of_ne hne] using ih

theorem entry_bump (k' : κ) : entry init (bump init k f d) k' = if k' = k then f (entry init d k) else entry init d k' := by
  rw [entry, lookup_bump]
  split <;> rfl

theorem mem_keys_bump (k' : κ) : k' ∈ keys (bump init k f d) ↔ k' = k ∨ k' ∈ keys d := by
  induction d with
  | nil => simp [bump, keys]
  | cons e d ih =>
    obtain ⟨k₁, s⟩ := e
    by_cases h₁ : k₁ = k
    · subst h₁
      simp [bump, keys]
    · rw [bump, if_neg h₁]
      simp only [keys, List.map_cons, List.mem_cons] at ih ⊢
      rw [ih]
      tauto

theorem nodup_keys_bump (h : (keys d).Nodup) : (keys (bump init k f d)).Nodup := by
  induction d with
  | nil => simp [bump, keys]
  | cons e d ih =>
    obtain ⟨k₁, s⟩ := e
    obtain ⟨hmem, hd⟩ := List.nodup_cons.1 h
    by_cases h₁ : k₁ = k
    · rw [bump, if_pos h₁]
      exact h
    · rw [bump, if_neg h₁]
      refine List.nodup_cons.2 ⟨fun hk => ?_, ih hd⟩
      rcases (mem_keys_bump init k f d k₁).1 hk with hk | hk
      · exact h₁ hk
      · exact hmem hk

theorem total_bump [AddCommMonoid M] {value : κ → σ → M} {m : M} (hinit : value k init = 0)
    (hf : ∀ s, value k (f s) = value k s + m) : total value (bump init k f d) = total value d + m := by
  induction d with
  | nil => simp [bump, total, hf, hinit]
  | cons e d ih =>
    obtain ⟨k₁, s⟩ := e
    by_cases h₁ : k₁ = k
    · subst h₁
      rw [bump, if_pos rfl]
      simp only [total, List.map_cons, List.sum_cons, hf]
      rw [add_assoc, add_assoc, add_comm m]
    · rw [bump, if_neg h₁]
      simp only [total, List.map_cons, List.sum_cons] at ih ⊢
      rw [ih, add_assoc]

theorem forall_bump {P : κ → σ → Prop} (h : ∀ e ∈ d, P e.1 e.2) (hinit : P k (f init)) (hf : ∀ s, P k s → P k (f s)) :
    ∀ e ∈ bump init k f d, P e.1 e.2 := by
  induction d with
  | nil => simpa [bump] using hinit
  | cons e d ih =>
    obtain ⟨k₁, s⟩ := e
    obtain ⟨hs, hd⟩ := List.forall_mem_cons.1 h
    by_cases h₁ : k₁ = k
    · subst h₁
      rw [bump, if_pos rfl]
      exact List.forall_mem_cons.2 ⟨hf s hs, hd⟩
    · rw [bump, if_neg h₁]
      exact List.forall_mem_cons.2 ⟨hs, ih hd⟩

end Bump

/-! ## What a loop over rows leaves -/

section Rows
variable (key : α → κ) (init : σ) (add : α → σ → σ) (rows : List α)

theorem tally_concat (r : α) : tally key init add (rows ++ [r]) = bump init (key r) (add r) (tally key init add rows) := by
  simp [tally]

theorem entry_tally (k : κ) : entry init (tally key init add rows) k =
    (rows.filter fun r => key r = k).foldl (fun s r => add r s) init := by
  induction rows using List.reverseRecOn with
  | nil => rfl
  | append_singleton rows r ih =>
    rw [tally_concat, entry_bump, List.filter_append, List.foldl_append, ← ih]
    by_cases h : k = key r
    · subst h
      simp
    · have hne : key r ≠ k := fun h' => h h'.symm
      simp [h, hne]

theorem mem_keys_tally (k : κ) : k ∈ keys (tally key init add rows) ↔ ∃ r ∈ rows, key r = k := by
  induction rows using List.reverseRecOn with
  | nil => simp [tally, keys]
  | append_singleton rows r ih =>
    rw [tally_concat, mem_keys_bump, ih]
    simp only [List.mem_append, List.mem_singleton, or_and_right, exists_or, exists_eq_left]
    rw [or_comm, eq_comm]

theorem nodup_keys_tally : (keys (tally key init add rows)).Nodup := by
  induction rows using List.reverseRecOn with
  | nil => exact List.nodup_nil
  | append_singleton rows r ih =>
    rw [tally_concat]
    exact nodup_keys_bump _ _ _ _ ih

theorem total_tally [AddCommMonoid M] {value : κ → σ → M} {g : α → M} (hinit : ∀ k, value k init = 0)
    (hadd : ∀ r s, value (key r) (add r s) = value (key r) s + g r) :
    total value (tally key init add rows) = (rows.map g).sum := by
  induction rows using List.reverseRecOn with
  | nil => rfl
  | append_singleton rows r ih =>
    rw [tally_concat, total_bump _ _ _ _ (hinit _) (hadd r), ih, List.map_append, List.sum_append, List.map_singleton,
      List.sum_singleton]

/-- A counter under each key. -/
theorem entry_count (k : κ) : entry 0 (tally key 0 (fun _ n => n + 1) rows) k = rows.countP fun r => key r = k := by
  rw [entry_tally, List.countP_eq_length_filter]
  generalize (rows.filter fun r => key r = k) = rows
  induction rows using List.reverseRecOn with
  | nil => rfl
  | append_singleton rows r ih => rw [List.foldl_append, ih, List.length_append]; rfl

/-- A list under each key. -/
theorem entry_list (value : α → σ) (k : κ) : entry [] (tally key [] (fun r l => l ++ [value r]) rows) k =
    (rows.filter fun r => key r = k).map value := by
  rw [entry_tally]
  generalize (rows.filter fun r => key r = k) = rows
  induction rows using List.reverseRecOn with
  | nil => rfl
  | append_singleton rows r ih => rw [List.foldl_append, ih, List.map_append]; rfl

end Rows

theorem lookup_map (f : κ → σ → τ) (d : List (κ × σ)) (k : κ) :
    (d.map fun e => (e.1, f e.1 e.2)).lookup k = (d.lookup k).map (f k) := by
  induction d with
  | nil => rfl
  | cons e d ih =>
    obtain ⟨k₁, s⟩ := e
    by_cases hk : k = k₁
    · subst hk
      simp
    · simpa [List.lookup_cons, beq_false_of_ne hk] using ih

theorem lookup_of_key (init : σ) {d : List (κ × σ)} {k : κ} (h : k ∈ keys d) : d.lookup k = some (entry init d k) := by
  rw [entry]
  cases hd : d.lookup k with
  | none =>
    obtain ⟨e, he, rfl⟩ := List.mem_map.1 h
    have := List.lookup_eq_none_iff.1 hd e he
    simp at this
  | some s => rfl

theorem lookup_of_not_key {d : List (κ × σ)} {k : κ} (h : k ∉ keys d) : d.lookup k = none := by
  refine List.lookup_eq_none_iff.2 fun e he => ?_
  have hne : k ≠ e.1 := by
    rintro rfl
    exact h (List.mem_map.2 ⟨e, he, rfl⟩)
  simpa using hne

/-- Each key stands once, so it is found with what it has. -/
theorem filter_key {d : List (κ × σ)} (hd : (keys d).Nodup) (k : κ) :
    (d.filter fun e => e.1 = k).map Prod.snd = (d.lookup k).toList := by
  induction d with
  | nil => rfl
  | cons e d ih =>
    obtain ⟨k₁, s₁⟩ := e
    obtain ⟨hmem, hd⟩ := List.nodup_cons.1 hd
    by_cases hk : k₁ = k
    · subst hk
      have hrest := ih hd
      rw [lookup_of_not_key hmem, Option.toList_none] at hrest
      simp [List.map_eq_nil_iff.1 hrest]
    · have hne : k ≠ k₁ := fun h => hk h.symm
      simpa [hk, List.lookup_cons, beq_false_of_ne hne] using ih hd

theorem entry_of_mem (init : σ) {d : List (κ × σ)} (hd : (keys d).Nodup) {k : κ} {s : σ} (h : (k, s) ∈ d) : entry init d k = s := by
  induction d with
  | nil => exact absurd h List.not_mem_nil
  | cons e d ih =>
    obtain ⟨k₁, s₁⟩ := e
    obtain ⟨hmem, hd⟩ := List.nodup_cons.1 hd
    rcases List.mem_cons.1 h with heq | hin
    · obtain ⟨rfl, rfl⟩ := Prod.mk.inj heq
      simp [entry]
    · have hne : k ≠ k₁ := by
        rintro rfl
        exact hmem (List.mem_map.2 ⟨_, hin, rfl⟩)
      rw [← ih hd hin]
      simp [entry, List.lookup_cons, beq_false_of_ne hne]

theorem mem_of_key {d : List (κ × σ)} (init : σ) {k : κ} (h : k ∈ keys d) : (k, entry init d k) ∈ d := by
  induction d with
  | nil => exact absurd h List.not_mem_nil
  | cons e d ih =>
    obtain ⟨k₁, s₁⟩ := e
    by_cases hk : k = k₁
    · subst hk
      simp [entry]
    · have hin : k ∈ keys d := (List.mem_cons.1 h).resolve_left hk
      have := ih hin
      simp only [entry, List.lookup_cons, beq_false_of_ne hk] at this ⊢
      exact List.mem_cons_of_mem _ this

/-- A measure of the entries is one of the keys. -/
theorem total_eq_sum_keys [AddCommMonoid M] (init : σ) {d : List (κ × σ)} (hd : (keys d).Nodup) (value : κ → σ → M) :
    total value d = ((keys d).map fun k => value k (entry init d k)).sum := by
  rw [total, keys, List.map_map]
  congr 1
  refine List.map_congr_left fun e he => ?_
  rw [Function.comp_apply, entry_of_mem init hd he]

end Tally
