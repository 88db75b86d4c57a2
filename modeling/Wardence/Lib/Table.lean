import Mathlib.Data.List.AList
/-!
# Tables with a primary key

A table holds at most one row under each key. `AList` carries that as a field,
so a table with two rows under one key cannot be built; its `lookup` is a
`SELECT` by key and its `insert` is `INSERT ... ON CONFLICT DO UPDATE`.
-/
namespace Keyed

/-- Rows `ν` under a primary key `κ`. -/
abbrev Table (κ ν : Type) := AList (fun _ : κ => ν)

/-- What a constant table gives is in it. -/
theorem mem_of_lookup {κ ν : Type} [BEq κ] [LawfulBEq κ] {l : List (κ × ν)} {k : κ} {v : ν} (h : l.lookup k = some v) :
    (k, v) ∈ l := by
  obtain ⟨l₁, l₂, rfl, -⟩ := List.lookup_eq_some_iff.1 h
  exact List.mem_append_right l₁ List.mem_cons_self

/-- Where no two rows share an `f`, an `f` names its row's key. -/
theorem key_of_lookup {κ ν β : Type} [BEq κ] [LawfulBEq κ] {l : List (κ × ν)} {f : ν → β}
    (hn : (l.map fun r => f r.2).Nodup) {a b : κ} {v w : ν} (ha : l.lookup a = some v) (hb : l.lookup b = some w)
    (h : f v = f w) : a = b :=
  congrArg Prod.fst (List.inj_on_of_nodup_map hn (mem_of_lookup ha) (mem_of_lookup hb) h)

variable {κ ν : Type} [DecidableEq κ]

namespace Table

/-- `INSERT`: refused when the key is taken. -/
def insertNew (t : Table κ ν) (k : κ) (v : ν) : Option (Table κ ν) :=
  if k ∈ t then none else some (t.insert k v)

/-- `UPDATE ... WHERE key = k`: no row, no change. -/
def update (t : Table κ ν) (k : κ) (f : ν → ν) : Table κ ν :=
  match t.lookup k with
  | some v => t.insert k (f v)
  | none => t

/-- `SELECT key FROM t WHERE p`. -/
def keysWhere (t : Table κ ν) (p : ν → Bool) : List κ :=
  (t.entries.filter (fun r => p r.2)).map (·.1)

theorem lookup_upsert (t : Table κ ν) (k j : κ) (v : ν) :
    (t.insert k v).lookup j = if j = k then some v else t.lookup j := by
  split
  · rename_i h; subst h; exact AList.lookup_insert t
  · rename_i h; exact AList.lookup_insert_ne h

theorem lookup_update (t : Table κ ν) (k j : κ) (f : ν → ν) :
    (update t k f).lookup j = if j = k then (t.lookup k).map f else t.lookup j := by
  unfold update
  cases h : t.lookup k with
  | none =>
    by_cases hj : j = k
    · subst hj; simp [h]
    · simp [hj]
  | some v => simp [lookup_upsert]

theorem mem_iff_lookup {t : Table κ ν} {k : κ} : k ∈ t ↔ ∃ v, t.lookup k = some v := by
  rw [← AList.lookup_isSome, Option.isSome_iff_exists]

theorem insertNew_eq_some {t t' : Table κ ν} {k : κ} {v : ν} :
    insertNew t k v = some t' ↔ k ∉ t ∧ t' = t.insert k v := by
  unfold insertNew
  split <;> simp_all [eq_comm]

theorem mem_keysWhere {t : Table κ ν} {p : ν → Bool} {k : κ} :
    k ∈ keysWhere t p ↔ ∃ v, t.lookup k = some v ∧ p v = true := by
  unfold keysWhere
  simp only [List.mem_map, List.mem_filter]
  constructor
  · rintro ⟨⟨k', v⟩, ⟨hm, hp⟩, rfl⟩
    exact ⟨v, AList.mem_lookup_iff.2 hm, hp⟩
  · rintro ⟨v, hl, hp⟩
    exact ⟨⟨k, v⟩, ⟨AList.mem_lookup_iff.1 hl, hp⟩, rfl⟩

omit [DecidableEq κ] in
theorem keysWhere_nodup (t : Table κ ν) (p : ν → Bool) : (keysWhere t p).Nodup :=
  (List.filter_sublist.map _).nodup t.nodupKeys

end Table
end Keyed
