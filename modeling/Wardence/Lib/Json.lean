import Mathlib.Data.Rat.Defs
import Mathlib.Algebra.Order.Field.Rat
import Mathlib.Data.List.Forall2
/-!
# JSON as Python reads it

A parsed JSON document and the ways a Python program looks into it: `v["k"]`, `v[0]` and
`v.get("k")`, each with the exceptions it raises on a value of another type. `Found` and
`Missing` say of a path what reading it comes to: a value, or an exception of the two kinds
that a missing key and an empty list raise.
-/
namespace Py

/-- A `float`. -/
inductive Float where
  | fin (q : ℚ)
  | inf (negative : Bool)
  | nan
  deriving DecidableEq

inductive Number where
  | int (n : Int)
  | float (x : Float)
  deriving DecidableEq

inductive Json where
  | null
  | bool (b : Bool)
  | num (n : Number)
  | str (s : String)
  | arr (l : List Json)
  | obj (fields : List (String × Json))

/-- The exceptions of reading and computing. -/
inductive Exc where
  | key
  | index
  | type
  | attribute
  | overflow
  | value
  | recursion
  | request
  deriving DecidableEq

/-- Float arithmetic, and `math.exp`, on numbers of either type; `none`: an `OverflowError`. -/
structure Arithmetic where
  /-- `sum(l) / len(l)`. -/
  mean : List Number → Option Number
  exp : Number → Option Number

/-- `json.loads`, of a text in braces: such a text is an object if it is JSON. -/
inductive Loaded where
  | object (fields : List (String × Json))
  /-- `JSONDecodeError`. -/
  | undecodable
  /-- Another exception: the text is nested too deep, or an integer of it too long. -/
  | raised (e : Exc)

/-- `json.loads`, of any text. -/
inductive LoadedAny where
  | value (v : Json)
  | undecodable
  | raised (e : Exc)

namespace Json

/-- `bool(v)`. -/
def truthy : Json → Bool
  | null => false
  | bool b => b
  | num (.int n) => n ≠ 0
  | num (.float x) => x ≠ .fin 0
  | str s => s ≠ ""
  | arr l => !l.isEmpty
  | obj fields => !fields.isEmpty

/-- The value, if it is an instance of `int` or `float`; a `bool` is. -/
def number? : Json → Option Number
  | bool b => some (.int (if b then 1 else 0))
  | num n => some n
  | _ => none

def hashable : Json → Bool
  | arr _ | obj _ => false
  | _ => true

/-- `v["k"]`. -/
def key (v : Json) (k : String) : Except Exc Json :=
  match v with
  | obj fields =>
    match fields.lookup k with
    | some x => .ok x
    | none => .error .key
  | _ => .error .type

/-- `v[0]`. -/
def first : Json → Except Exc Json
  | arr (a :: _) => .ok a
  | arr [] => .error .index
  | str s =>
    match s.toList with
    | c :: _ => .ok (str (String.singleton c))
    | [] => .error .index
  | obj _ => .error .key
  | _ => .error .type

/-- `v.get(k, d)`. -/
def get (v : Json) (k : String) (d : Json) : Except Exc Json :=
  match v with
  | obj fields => .ok ((fields.lookup k).getD d)
  | _ => .error .attribute

/-- `v or w`. -/
def orElse (v w : Json) : Json := if v.truthy then v else w

/-- The items of an iteration over a value. -/
def items : Json → Except Exc (List Json)
  | arr l => .ok l
  | obj fields => .ok (fields.map fun f => str f.1)
  | str s => .ok (s.toList.map fun c => str (String.singleton c))
  | _ => .error .type

end Json

/-! ## What succeeds -/

/-- No exception. -/
def Succeeds {α : Type} (x : Except Exc α) : Prop := ∃ a, x = .ok a

section Succeeds
variable {α β : Type} {x : Except Exc α} {f : α → Except Exc β}

@[simp] theorem succeeds_ok (a : α) : Succeeds (.ok a) := ⟨a, rfl⟩
@[simp] theorem succeeds_pure (a : α) : Succeeds (pure a : Except Exc α) := ⟨a, rfl⟩

@[simp] theorem not_succeeds_error (e : Exc) : ¬ Succeeds (.error e : Except Exc α) := fun ⟨_, h⟩ => by cases h

theorem bind_eq_ok {b : β} : x >>= f = .ok b ↔ ∃ a, x = .ok a ∧ f a = .ok b := by
  cases x with
  | ok a => simp [bind, Except.bind]
  | error e => simp [bind, Except.bind]

theorem bind_eq_error {e : Exc} : x >>= f = .error e ↔ x = .error e ∨ ∃ a, x = .ok a ∧ f a = .error e := by
  cases x with
  | ok a => simp [bind, Except.bind]
  | error e => simp [bind, Except.bind]

theorem succeeds_bind : Succeeds (x >>= f) ↔ ∃ a, x = .ok a ∧ Succeeds (f a) := by
  cases x with
  | ok a => simp [bind, Except.bind]
  | error e => simp [bind, Except.bind]

@[simp] theorem succeeds_map {g : α → β} : Succeeds (g <$> x) ↔ Succeeds x := by
  cases x with
  | ok a => exact iff_of_true ⟨g a, rfl⟩ ⟨a, rfl⟩
  | error e => exact iff_of_false (not_succeeds_error e) (not_succeeds_error e)

end Succeeds

@[simp] theorem Json.get_obj (fields : List (String × Json)) (k : String) (d : Json) :
    (Json.obj fields).get k d = .ok ((fields.lookup k).getD d) := rfl

theorem Json.get_ok_iff {k : String} {d v x : Json} :
    v.get k d = .ok x ↔ ∃ fields, v = .obj fields ∧ x = (fields.lookup k).getD d := by
  cases v with
  | obj fields => simp [Json.get, eq_comm]
  | _ => simp [Json.get]

theorem Json.key_ok_iff {k : String} {v x : Json} : v.key k = .ok x ↔ ∃ fields, v = .obj fields ∧ fields.lookup k = some x := by
  cases v with
  | obj fields => cases h : fields.lookup k <;> simp [Json.key, h]
  | _ => simp [Json.key]

theorem Json.orElse_truthy {v : Json} (h : v.truthy = true) (w : Json) : v.orElse w = v := if_pos h

theorem Json.orElse_falsy {v : Json} (h : v.truthy = false) (w : Json) : v.orElse w = w := if_neg (by simp [h])

/-- One subscript. -/
inductive Step where
  | key (k : String)
  | first
  deriving DecidableEq

def Step.read : Step → Json → Except Exc Json
  | key k, v => v.key k
  | first, v => v.first

/-- `v[..][..]`. -/
def readPath : List Step → Json → Except Exc Json
  | [], v => .ok v
  | s :: rest, v => s.read v >>= readPath rest

/-- The value at the end of a path. -/
inductive Found : List Step → Json → Json → Prop
  | nil {v : Json} : Found [] v v
  | key {k : String} {fields : List (String × Json)} {v x : Json} {rest : List Step} :
    fields.lookup k = some v → Found rest v x → Found (.key k :: rest) (.obj fields) x
  | head {a x : Json} {l : List Json} {rest : List Step} : Found rest a x → Found (.first :: rest) (.arr (a :: l)) x
  | char {s : String} {c : Char} {cs : List Char} {x : Json} {rest : List Step} :
    s.toList = c :: cs → Found rest (.str (String.singleton c)) x → Found (.first :: rest) (.str s) x

/-- The path breaks off at an object without the key, or where a first element is asked of an object or of
something empty. -/
inductive Missing : List Step → Json → Prop
  | noKey {k : String} {fields : List (String × Json)} {rest : List Step} : fields.lookup k = none → Missing (.key k :: rest) (.obj fields)
  | empty {rest : List Step} : Missing (.first :: rest) (.arr [])
  | emptyStr {rest : List Step} : Missing (.first :: rest) (.str "")
  | firstOfObj {fields : List (String × Json)} {rest : List Step} : Missing (.first :: rest) (.obj fields)
  | key {k : String} {fields : List (String × Json)} {v : Json} {rest : List Step} :
    fields.lookup k = some v → Missing rest v → Missing (.key k :: rest) (.obj fields)
  | head {a : Json} {l : List Json} {rest : List Step} : Missing rest a → Missing (.first :: rest) (.arr (a :: l))
  | char {s : String} {c : Char} {cs : List Char} {rest : List Step} :
    s.toList = c :: cs → Missing rest (.str (String.singleton c)) → Missing (.first :: rest) (.str s)

/-- What `except (KeyError, IndexError)` handles. -/
def Exc.lookup (e : Exc) : Bool := e = .key || e = .index

@[simp] theorem readPath_nil (v : Json) : readPath [] v = .ok v := rfl

theorem readPath_cons (s : Step) (rest : List Step) (v : Json) : readPath (s :: rest) v = s.read v >>= readPath rest := rfl

/-- What one subscript comes to. -/
theorem read_cases (s : Step) (v : Json) :
    (∃ a, s.read v = .ok a ∧ (∀ {rest x}, Found rest a x ↔ Found (s :: rest) v x) ∧ ∀ {rest}, Missing rest a ↔ Missing (s :: rest) v) ∨
    (∃ e, s.read v = .error e ∧ (∀ {rest x}, ¬ Found (s :: rest) v x) ∧ ∀ {rest}, Missing (s :: rest) v ↔ e.lookup = true) := by
  cases s with
  | key k =>
    cases v with
    | obj fields =>
      cases h : fields.lookup k with
      | some a =>
        refine .inl ⟨a, by simp [Step.read, Json.key, h], ?_, ?_⟩
        · exact ⟨.key h, fun hf => by cases hf with | key h' hf => exact Option.some.inj (h.symm.trans h') ▸ hf⟩
        · refine ⟨.key h, fun hm => ?_⟩
          cases hm with
          | noKey h' => rw [h] at h'; cases h'
          | key h' hm => exact Option.some.inj (h.symm.trans h') ▸ hm
      | none =>
        refine .inr ⟨.key, by simp [Step.read, Json.key, h], fun hf => ?_, iff_of_true (.noKey h) rfl⟩
        cases hf with | key h' _ => rw [h] at h'; cases h'
    | _ => exact .inr ⟨.type, rfl, fun hf => (by cases hf), iff_of_false (fun hm => (by cases hm)) (by decide)⟩
  | first =>
    cases v with
    | arr l =>
      cases l with
      | nil => exact .inr ⟨.index, rfl, fun hf => (by cases hf), iff_of_true .empty rfl⟩
      | cons a l =>
        refine .inl ⟨a, rfl, ⟨.head, fun hf => ?_⟩, ⟨.head, fun hm => ?_⟩⟩
        · cases hf with | head hf => exact hf
        · cases hm with | head hm => exact hm
    | str s =>
      cases h : s.toList with
      | nil =>
        obtain rfl : s = "" := String.toList_eq_nil_iff.1 h
        refine .inr ⟨.index, rfl, fun hf => ?_, iff_of_true .emptyStr rfl⟩
        cases hf with | char h' _ => rw [h] at h'; cases h'
      | cons c cs =>
        refine .inl ⟨.str (String.singleton c), by simp [Step.read, Json.first, h], ⟨.char h, fun hf => ?_⟩, ⟨.char h, fun hm => ?_⟩⟩
        · cases hf with
          | char h' hf =>
            rw [h] at h'
            cases h'
            exact hf
        · cases hm with
          | emptyStr => cases h
          | char h' hm =>
            rw [h] at h'
            cases h'
            exact hm
    | obj fields => exact .inr ⟨.key, rfl, fun hf => (by cases hf), iff_of_true .firstOfObj rfl⟩
    | _ => exact .inr ⟨.type, rfl, fun hf => (by cases hf), iff_of_false (fun hm => (by cases hm)) (by decide)⟩

theorem readPath_ok_iff {p : List Step} {v x : Json} : readPath p v = .ok x ↔ Found p v x := by
  induction p generalizing v with
  | nil =>
    refine ⟨fun h => ?_, fun h => ?_⟩
    · cases h
      exact .nil
    · cases h
      rfl
  | cons s rest ih =>
    rw [readPath_cons]
    rcases read_cases s v with ⟨a, hr, hf, -⟩ | ⟨e, hr, hf, -⟩
    · rw [hr, ← hf]
      exact ih
    · rw [hr]
      exact iff_of_false (fun h => (by cases h)) hf

theorem readPath_missing_iff {p : List Step} {v : Json} :
    (∃ e, readPath p v = .error e ∧ e.lookup = true) ↔ Missing p v := by
  induction p generalizing v with
  | nil => exact iff_of_false (fun ⟨e, h, _⟩ => (by cases h)) fun h => (by cases h)
  | cons s rest ih =>
    rw [readPath_cons]
    rcases read_cases s v with ⟨a, hr, -, hm⟩ | ⟨e, hr, -, hm⟩
    · rw [hr, ← hm]
      exact ih
    · rw [hr, hm]
      exact ⟨fun ⟨e', h, he⟩ => (by cases h; exact he), fun h => ⟨e, rfl, h⟩⟩

theorem readPath_append (p q : List Step) (v : Json) : readPath (p ++ q) v = readPath p v >>= readPath q := by
  induction p generalizing v with
  | nil => rfl
  | cons s rest ih =>
    rw [List.cons_append, readPath_cons, readPath_cons]
    cases h : s.read v with
    | ok a => exact ih a
    | error e => rfl

theorem found_key_iff {k : String} {rest : List Step} {v x : Json} :
    Found (.key k :: rest) v x ↔ ∃ fields a, v = .obj fields ∧ fields.lookup k = some a ∧ Found rest a x := by
  constructor
  · rintro (_ | ⟨h, hf⟩)
    exact ⟨_, _, rfl, h, hf⟩
  · rintro ⟨fields, a, rfl, h, hf⟩
    exact .key h hf

theorem found_nil_iff {v x : Json} : Found [] v x ↔ x = v := ⟨fun h => (by cases h; rfl), fun h => h ▸ .nil⟩

theorem Found.of_append {p q : List Step} {v x : Json} (h : Found (p ++ q) v x) : ∃ y, Found p v y ∧ Found q y x := by
  obtain ⟨y, hp, hq⟩ := bind_eq_ok.1 (readPath_append p q v ▸ readPath_ok_iff.2 h)
  exact ⟨y, readPath_ok_iff.1 hp, readPath_ok_iff.1 hq⟩

theorem Found.append {p q : List Step} {v x y : Json} (hp : Found p v y) (hq : Found q y x) : Found (p ++ q) v x :=
  readPath_ok_iff.1 (readPath_append p q v ▸ bind_eq_ok.2 ⟨y, readPath_ok_iff.2 hp, readPath_ok_iff.2 hq⟩)

/-- Something is found on a path only in a document that holds something. -/
theorem Found.truthy {s : Step} {rest : List Step} {v x : Json} (h : Found (s :: rest) v x) : v.truthy = true := by
  cases h with
  | @key k fields a _ _ h _ =>
    cases fields with
    | nil => cases h
    | cons f fields => rfl
  | head _ => rfl
  | @char t _ _ _ _ h _ =>
    have : t ≠ "" := by
      rintro rfl
      cases h
    simp [Json.truthy, this]

/-- `[f(x) for x in l]`. -/
theorem mapM_ok_iff {α β : Type} {f : α → Except Exc β} {l : List α} {r : List β} :
    l.mapM f = .ok r ↔ List.Forall₂ (fun a b => f a = .ok b) l r := by
  induction l generalizing r with
  | nil => simp [pure, Except.pure, eq_comm]
  | cons a l ih =>
    rw [List.mapM_cons, bind_eq_ok, List.forall₂_cons_left_iff]
    refine exists_congr fun b => ⟨fun ⟨ha, h⟩ => ?_, fun ⟨r', ha, h, he⟩ => ⟨ha, ?_⟩⟩
    · obtain ⟨r', hr, he⟩ := bind_eq_ok.1 h
      exact ⟨r', ha, ih.1 hr, (Except.ok.inj he).symm⟩
    · exact bind_eq_ok.2 ⟨r', ih.2 h, he ▸ rfl⟩

end Py
