import Wardence.Lib.Js
/-!
# JSON texts

What `json.dumps` prints and what `JSON.parse` and `json.loads` read back. A string is its UTF-16
code units, which is how one side escapes it and the other holds it; integers are the only numbers.
A text is read as tokens, with any blanks between them, so it reads back whatever its layout is.
-/
namespace JsonText

open Js

inductive Value where
  | null
  | bool (b : Bool)
  | num (n : Int)
  | str (s : Text)
  | arr (l : List Value)
  | obj (fields : List (Text × Value))

inductive Token where
  | sym (c : Char)
  | null
  | bool (b : Bool)
  | num (n : Int)
  | str (s : Text)
  deriving DecidableEq

/-- `v[k]` of an object, if there is one. -/
def Value.get (k : String) : Value → Option Value
  | .obj fields => (fields.reverse.find? (·.1 = of k)).map (·.2)
  | _ => none

/-! ## Reading tokens -/

def isBlank (c : Char) : Bool := c = ' ' || c = '\n' || c = '\r' || c = '\t'

def isSym (c : Char) : Bool := c ∈ ['[', ']', '{', '}', ',', ':']

def isLetter (c : Char) : Bool := 97 ≤ c.toNat && c.toNat ≤ 122

def isDigit (c : Char) : Bool := 48 ≤ c.toNat && c.toNat ≤ 57

/-- What the characters so far began. -/
inductive Mode where
  | blank
  | str (s : Text)
  | escape (s : Text)
  /-- `left` digits of the four are to come. -/
  | hex (s : Text) (left value : Nat)
  | num (negative : Bool) (digits : List Char)
  | word (w : List Char)

def hexVal (c : Char) : Option Nat :=
  if isDigit c then some (c.toNat - 48)
  else if 97 ≤ c.toNat ∧ c.toNat ≤ 102 then some (c.toNat - 87)
  else if 65 ≤ c.toNat ∧ c.toNat ≤ 70 then some (c.toNat - 55)
  else none

/-- The unit that a backslash before `c` stands for. -/
def unescape (c : Char) : Option UInt16 :=
  match c with
  | '"' => some 34
  | '\\' => some 92
  | '/' => some 47
  | 'b' => some 8
  | 'f' => some 12
  | 'n' => some 10
  | 'r' => some 13
  | 't' => some 9
  | _ => none

def numeral (ds : List Char) : Nat := ds.foldl (fun n d => 10 * n + (d.toNat - 48)) 0

/-- The token that ends where `m` does, if it may end there. -/
def ending : Mode → Option (List Token)
  | .blank => some []
  | .num negative ds =>
    if ds = [] ∨ (ds.head? = some '0' ∧ 1 < ds.length) then none
    else some [.num (if negative then -(numeral ds : Int) else numeral ds)]
  | .word ['n', 'u', 'l', 'l'] => some [.null]
  | .word ['t', 'r', 'u', 'e'] => some [.bool true]
  | .word ['f', 'a', 'l', 's', 'e'] => some [.bool false]
  | _ => none

/-- The first character of a token, or a blank. -/
def start (c : Char) : Option (Mode × List Token) :=
  if isBlank c then some (.blank, [])
  else if isSym c then some (.blank, [.sym c])
  else if c = '"' then some (.str [], [])
  else if c = '-' then some (.num true [], [])
  else if isDigit c then some (.num false [c], [])
  else if isLetter c then some (.word [c], [])
  else none

def restart (m : Mode) (c : Char) : Option (Mode × List Token) := do
  let ts ← ending m
  let (m, ts') ← start c
  return (m, ts ++ ts')

def next (m : Mode) (c : Char) : Option (Mode × List Token) :=
  match m with
  | .blank => start c
  | .str s =>
    if c = '"' then some (.blank, [.str s])
    else if c = '\\' then some (.escape s, [])
    else if c.toNat < 32 then none
    else some (.str (s ++ units c), [])
  | .escape s =>
    match unescape c with
    | some u => some (.str (s ++ [u]), [])
    | none => if c = 'u' then some (.hex s 4 0, []) else none
  | .hex s left value => do
    let d ← hexVal c
    if left = 1 then return (.str (s ++ [(16 * value + d).toUInt16]), [])
    return (.hex s (left - 1) (16 * value + d), [])
  | .num negative ds => if isDigit c then some (.num negative (ds ++ [c]), []) else restart m c
  | .word w => if isLetter c then some (.word (w ++ [c]), []) else restart m c

/-- The tokens of a text, from the middle of one on. -/
def lex (m : Mode) : List Char → Option (List Token)
  | [] => ending m
  | c :: text => do
    let (m, ts) ← next m c
    return ts ++ (← lex m text)

/-! ## Reading values -/

mutual

def value : Nat → List Token → Option (Value × List Token)
  | 0, _ => none
  | n + 1, ts =>
    match ts with
    | .null :: ts => some (.null, ts)
    | .bool b :: ts => some (.bool b, ts)
    | .num x :: ts => some (.num x, ts)
    | .str s :: ts => some (.str s, ts)
    | .sym '[' :: .sym ']' :: ts => some (.arr [], ts)
    | .sym '[' :: ts => do
      let (v, ts) ← value n ts
      let (l, ts) ← elements n ts
      return (.arr (v :: l), ts)
    | .sym '{' :: .sym '}' :: ts => some (.obj [], ts)
    | .sym '{' :: .str k :: .sym ':' :: ts => do
      let (v, ts) ← value n ts
      let (l, ts) ← members n ts
      return (.obj ((k, v) :: l), ts)
    | _ => none

def elements : Nat → List Token → Option (List Value × List Token)
  | 0, _ => none
  | n + 1, ts =>
    match ts with
    | .sym ']' :: ts => some ([], ts)
    | .sym ',' :: ts => do
      let (v, ts) ← value n ts
      let (l, ts) ← elements n ts
      return (v :: l, ts)
    | _ => none

def members : Nat → List Token → Option (List (Text × Value) × List Token)
  | 0, _ => none
  | n + 1, ts =>
    match ts with
    | .sym '}' :: ts => some ([], ts)
    | .sym ',' :: .str k :: .sym ':' :: ts => do
      let (v, ts) ← value n ts
      let (l, ts) ← members n ts
      return ((k, v) :: l, ts)
    | _ => none

end

/-- `JSON.parse`, or `json.loads`: `none` where they raise. -/
def read (text : List Char) : Option Value := do
  let ts ← lex .blank text
  let (v, rest) ← value ts.length ts
  if rest = [] then some v else none

/-! ## Printing -/

def hexDigit (d : Nat) : Char := if d < 10 then Char.ofNat (48 + d) else Char.ofNat (87 + d)

/-- A unit of a string, as `ensure_ascii` prints it. -/
def escape (u : UInt16) : List Char :=
  if u = 34 then ['\\', '"']
  else if u = 92 then ['\\', '\\']
  else if u = 8 then ['\\', 'b']
  else if u = 12 then ['\\', 'f']
  else if u = 10 then ['\\', 'n']
  else if u = 13 then ['\\', 'r']
  else if u = 9 then ['\\', 't']
  else if 32 ≤ u.toNat ∧ u.toNat ≤ 126 then [Char.ofNat u.toNat]
  else ['\\', 'u', hexDigit (u.toNat / 4096), hexDigit (u.toNat / 256 % 16), hexDigit (u.toNat / 16 % 16), hexDigit (u.toNat % 16)]

def quote (s : Text) : List Char := '"' :: (s.flatMap escape ++ ['"'])

def integer (n : Int) : List Char := if n < 0 then '-' :: Nat.toDigits 10 n.natAbs else Nat.toDigits 10 n.natAbs

/-- The blanks at a bracket and after a comma, by the depth. -/
structure Layout where
  gap : Nat → List Char
  sep : Nat → List Char
  gap_blank : ∀ d, ∀ c ∈ gap d, isBlank c = true
  sep_blank : ∀ d, ∀ c ∈ sep d, isBlank c = true

/-- `json.dumps(v)`. -/
def compact : Layout := ⟨fun _ => [], fun _ => [' '], by simp, by simp [isBlank]⟩

mutual

def print (L : Layout) (d : Nat) : Value → List Char
  | .null => ['n', 'u', 'l', 'l']
  | .bool true => ['t', 'r', 'u', 'e']
  | .bool false => ['f', 'a', 'l', 's', 'e']
  | .num n => integer n
  | .str s => quote s
  | .arr [] => ['[', ']']
  | .arr (v :: l) => '[' :: (L.gap (d + 1) ++ print L (d + 1) v ++ printElements L d l)
  | .obj [] => ['{', '}']
  | .obj ((k, v) :: l) => '{' :: (L.gap (d + 1) ++ quote k ++ ':' :: ' ' :: (print L (d + 1) v ++ printMembers L d l))

def printElements (L : Layout) (d : Nat) : List Value → List Char
  | [] => L.gap d ++ [']']
  | v :: l => ',' :: (L.sep (d + 1) ++ print L (d + 1) v ++ printElements L d l)

def printMembers (L : Layout) (d : Nat) : List (Text × Value) → List Char
  | [] => L.gap d ++ ['}']
  | (k, v) :: l => ',' :: (L.sep (d + 1) ++ quote k ++ ':' :: ' ' :: (print L (d + 1) v ++ printMembers L d l))

end

mutual

def tokens : Value → List Token
  | .null => [.null]
  | .bool b => [.bool b]
  | .num n => [.num n]
  | .str s => [.str s]
  | .arr [] => [.sym '[', .sym ']']
  | .arr (v :: l) => .sym '[' :: (tokens v ++ elementTokens l)
  | .obj [] => [.sym '{', .sym '}']
  | .obj ((k, v) :: l) => .sym '{' :: .str k :: .sym ':' :: (tokens v ++ memberTokens l)

def elementTokens : List Value → List Token
  | [] => [.sym ']']
  | v :: l => .sym ',' :: (tokens v ++ elementTokens l)

def memberTokens : List (Text × Value) → List Token
  | [] => [.sym '}']
  | (k, v) :: l => .sym ',' :: .str k :: .sym ':' :: (tokens v ++ memberTokens l)

end

/-! ## A printed text lexes as its tokens -/

/-- What follows cannot belong to a number or a word. -/
def Apart (rest : List Char) : Prop := ∀ c ∈ rest.head?, isDigit c = false ∧ isLetter c = false

theorem Apart.cons {c : Char} (h : isBlank c = true ∨ isSym c = true) (rest : List Char) : Apart (c :: rest) := by
  intro c' hc
  obtain rfl : c = c' := by simpa using hc
  have hcases : c = ' ' ∨ c = '\n' ∨ c = '\r' ∨ c = '\t' ∨ c ∈ ['[', ']', '{', '}', ',', ':'] := by
    simpa [isBlank, isSym, or_assoc] using h
  simp only [List.mem_cons, List.not_mem_nil, or_false] at hcases
  rcases hcases with rfl | rfl | rfl | rfl | rfl | rfl | rfl | rfl | rfl | rfl <;> decide

theorem Apart.blanks {gap : List Char} (h : ∀ c ∈ gap, isBlank c = true) {rest : List Char} (hr : Apart rest) :
    Apart (gap ++ rest) := by
  cases gap with
  | nil => exact hr
  | cons c gap => exact .cons (.inl (h c (.head _))) _

theorem lex_token {m k : Mode} {c : Char} {ts : List Token} (h : next m c = some (k, ts)) (rest : List Char) :
    lex m (c :: rest) = (lex k rest).map (ts ++ ·) := by
  rw [lex, h]
  cases hrest : lex k rest <;> simp [hrest]

theorem lex_step {m k : Mode} {c : Char} (h : next m c = some (k, [])) (rest : List Char) :
    lex m (c :: rest) = lex k rest := by
  rw [lex_token h]
  simp

theorem lex_blanks {gap : List Char} (h : ∀ c ∈ gap, isBlank c = true) (rest : List Char) :
    lex .blank (gap ++ rest) = lex .blank rest := by
  induction gap with
  | nil => rfl
  | cons c gap ih =>
    rw [List.cons_append, lex_step (k := .blank) (by simp [next, start, h c (.head _)])]
    exact ih fun c hc => h c (.tail _ hc)

theorem lex_sym {c : Char} (hb : isBlank c = false) (h : isSym c = true) (rest : List Char) :
    lex .blank (c :: rest) = (lex .blank rest).map (.sym c :: ·) := by
  have hnext : next .blank c = some (.blank, [.sym c]) := by simp [next, start, hb, h]
  exact lex_token hnext rest

/-- A number or a word ends where something else begins. -/
theorem lex_ending {m : Mode} {ts : List Token} {rest : List Char} (hm : (∃ b ds, m = .num b ds) ∨ ∃ w, m = .word w)
    (h : ending m = some ts) (hr : Apart rest) : lex m rest = (lex .blank rest).map (ts ++ ·) := by
  cases rest with
  | nil =>
    have hblank : ending .blank = some [] := rfl
    simp only [lex, h, hblank, Option.map_some, List.append_nil]
  | cons c rest =>
    obtain ⟨hd, hl⟩ := hr c rfl
    have hnext : next m c = restart m c := by
      rcases hm with ⟨b, ds, rfl⟩ | ⟨w, rfl⟩
      · simp [next, hd]
      · simp [next, hl]
    rw [lex, hnext, lex]
    simp only [restart, h, next, Option.bind_eq_bind, Option.bind_some]
    cases start c with
    | none => rfl
    | some x =>
      simp only [Option.bind_some, Option.pure_def]
      cases lex x.1 rest <;> simp

/-! ### Strings -/

theorem hexVal_hexDigit : ∀ d < 16, hexVal (hexDigit d) = some d := by decide

theorem units_ascii {u : UInt16} (h : u.toNat ≤ 126) : units (Char.ofNat u.toNat) = [u] := by
  have hvalid : (Char.ofNat u.toNat).toNat = u.toNat := by
    rw [Char.ofNat, dif_pos (.inl (by omega))]
    rfl
  rw [units, hvalid, if_pos (by omega)]
  simp

theorem lex_escape (s : Text) (u : UInt16) (rest : List Char) :
    lex (.str s) (escape u ++ rest) = lex (.str (s ++ [u])) rest := by
  unfold escape
  split_ifs with h1 h2 h3 h4 h5 h6 h7 h8
  -- the seven short escapes
  iterate 7
    · subst u
      simp [lex, next, unescape]
  -- a printable unit is itself
  · have hc : (Char.ofNat u.toNat).toNat = u.toNat := by
      rw [Char.ofNat, dif_pos (.inl (by omega))]
      rfl
    have hquote : Char.ofNat u.toNat ≠ '"' := fun he => h1 (by
      have : u.toNat = 34 := by rw [← hc, he]; rfl
      exact UInt16.toNat_inj.1 this)
    have hslash : Char.ofNat u.toNat ≠ '\\' := fun he => h2 (by
      have : u.toNat = 92 := by rw [← hc, he]; rfl
      exact UInt16.toNat_inj.1 this)
    refine lex_step ?_ rest
    simp only [next, if_neg hquote, if_neg hslash, hc, if_neg (Nat.not_lt.2 h8.1), units_ascii h8.2]
  -- four digits in base sixteen
  · have hlt : u.toNat < 65536 := u.toNat_lt
    have hdigit : ∀ d < 16, ∀ left value, left ≠ 1 →
        next (.hex s left value) (hexDigit d) = some (.hex s (left - 1) (16 * value + d), []) := by
      intro d hd left value hleft
      simp [next, hexVal_hexDigit d hd, hleft]
    have hlast : ∀ value, 16 * value + u.toNat % 16 = u.toNat →
        next (.hex s 1 value) (hexDigit (u.toNat % 16)) = some (.str (s ++ [u]), []) := by
      intro value hvalue
      have hunit : u.toNat.toUInt16 = u := by simp
      simp only [next, hexVal_hexDigit _ (Nat.mod_lt u.toNat (by decide)), Option.bind_eq_bind, Option.bind_some, if_true,
        hvalue, hunit, Option.pure_def]
    simp only [List.cons_append, List.nil_append]
    rw [lex_step (k := .escape s) (by simp [next]), lex_step (k := .hex s 4 0) (by simp [next, unescape]),
      lex_step (hdigit _ (by omega) 4 0 (by decide)), lex_step (hdigit _ (by omega) _ _ (by decide)),
      lex_step (hdigit _ (by omega) _ _ (by decide)), lex_step (hlast _ (by omega))]

theorem lex_quote (s : Text) (rest : List Char) : lex .blank (quote s ++ rest) = (lex .blank rest).map (.str s :: ·) := by
  have hbody : ∀ (acc s : Text), lex (.str acc) (s.flatMap escape ++ '"' :: rest) = (lex .blank rest).map (.str (acc ++ s) :: ·) := by
    intro acc s
    induction s generalizing acc with
    | nil =>
      have hnext : next (.str acc) '"' = some (.blank, [.str acc]) := by simp [next]
      rw [List.append_nil]
      exact lex_token hnext rest
    | cons u s ih => rw [List.flatMap_cons, List.append_assoc, lex_escape, ih, List.append_assoc, List.singleton_append]
  rw [quote, List.cons_append, List.append_assoc, lex_step (k := .str []) rfl, List.singleton_append]
  exact hbody [] s

/-! ### Numbers -/

theorem digitChar_digit : ∀ d < 10, isDigit (Nat.digitChar d) = true ∧ (Nat.digitChar d).toNat - 48 = d := by decide

/-- The digits of a number read back as it, and only zero begins with a zero. -/
theorem numeral_toDigits (n : Nat) : (∀ c ∈ Nat.toDigits 10 n, isDigit c = true) ∧ Nat.toDigits 10 n ≠ [] ∧
    numeral (Nat.toDigits 10 n) = n ∧ ((Nat.toDigits 10 n).head? = some '0' → n = 0) := by
  induction n using Nat.strongRecOn with
  | ind n ih =>
    rcases Nat.lt_or_ge n 10 with hn | hn
    · obtain ⟨hd, hv⟩ := digitChar_digit n hn
      rw [Nat.toDigits_of_lt_base hn]
      exact ⟨by simpa using hd, List.cons_ne_nil _ _, by simpa [numeral] using hv, by simp⟩
    · obtain ⟨hdigits, hne, hnum, hzero⟩ := ih (n / 10) (by omega)
      obtain ⟨hd, hv⟩ := digitChar_digit (n % 10) (Nat.mod_lt n (by decide))
      rw [Nat.toDigits_of_base_le (by decide) hn]
      refine ⟨fun c hc => ?_, by simp, ?_, fun hhead => ?_⟩
      · rcases List.mem_append.1 hc with hc | hc
        · exact hdigits c hc
        · rw [List.mem_singleton.1 hc]
          exact hd
      · rw [numeral, List.foldl_append]
        have : numeral (Nat.toDigits 10 (n / 10)) = n / 10 := hnum
        rw [numeral] at this
        simp only [List.foldl_cons, List.foldl_nil, this, hv]
        omega
      · rw [List.head?_append_of_ne_nil _ hne] at hhead
        have := hzero hhead
        omega

theorem lex_digits (b : Bool) (ds ds' : List Char) (h : ∀ c ∈ ds', isDigit c = true) (rest : List Char) :
    lex (.num b ds) (ds' ++ rest) = lex (.num b (ds ++ ds')) rest := by
  induction ds' generalizing ds with
  | nil => simp
  | cons c ds' ih =>
    have hnext : next (.num b ds) c = some (.num b (ds ++ [c]), []) := by simp [next, h c (.head _)]
    rw [List.cons_append, lex_step hnext, ih _ fun c hc => h c (.tail _ hc), List.append_assoc, List.singleton_append]

theorem lex_integer (n : Int) {rest : List Char} (hr : Apart rest) :
    lex .blank (integer n ++ rest) = (lex .blank rest).map (.num n :: ·) := by
  obtain ⟨hdigits, hne, hnum, hzero⟩ := numeral_toDigits n.natAbs
  have hlong : ¬ (Nat.toDigits 10 n.natAbs = [] ∨
      ((Nat.toDigits 10 n.natAbs).head? = some '0' ∧ 1 < (Nat.toDigits 10 n.natAbs).length)) := by
    rintro (h | ⟨h, hlen⟩)
    · exact hne h
    · rw [hzero h] at hlen
      exact absurd hlen (by decide)
  have hend : ∀ b : Bool, (if b then -(n.natAbs : Int) else n.natAbs) = n →
      lex (.num b (Nat.toDigits 10 n.natAbs)) rest = (lex .blank rest).map (.num n :: ·) := by
    intro b hb
    have hending : ending (.num b (Nat.toDigits 10 n.natAbs)) = some [.num n] := by
      rw [ending, if_neg hlong, hnum, hb]
    exact lex_ending (.inl ⟨b, _, rfl⟩) hending hr
  rw [integer]
  split
  next hneg =>
    rw [List.cons_append, lex_step (k := .num true []) rfl, lex_digits true [] _ hdigits, List.nil_append]
    have habs : -(n.natAbs : Int) = n := by omega
    exact hend true (by simpa using habs)
  next hpos =>
    cases hds : Nat.toDigits 10 n.natAbs with
    | nil => exact absurd hds hne
    | cons c ds =>
      have hc : isDigit c = true := hdigits c (by simp [hds])
      have hcode : 48 ≤ c.toNat ∧ c.toNat ≤ 57 := by simpa [isDigit] using hc
      have hstart : next .blank c = some (.num false [c], []) := by
        have hchar : ∀ c' : Char, c'.toNat < 48 ∨ 57 < c'.toNat → c ≠ c' := by
          rintro c' hc' rfl
          omega
        have hplain : isBlank c = false ∧ isSym c = false ∧ c ≠ '"' ∧ c ≠ '-' := by
          refine ⟨?_, ?_, hchar _ (by decide), hchar _ (by decide)⟩
          · simp only [isBlank, Bool.or_eq_false_iff, decide_eq_false_iff_not]
            exact ⟨⟨⟨hchar _ (by decide), hchar _ (by decide)⟩, hchar _ (by decide)⟩, hchar _ (by decide)⟩
          · simp only [isSym, decide_eq_false_iff_not, List.mem_cons, List.not_mem_nil, or_false, not_or]
            exact ⟨hchar _ (by decide), hchar _ (by decide), hchar _ (by decide), hchar _ (by decide), hchar _ (by decide),
              hchar _ (by decide)⟩
        simp [next, start, hplain, hc]
      rw [List.cons_append, lex_step hstart, lex_digits false [c] ds fun c' hc' => hdigits c' (by simp [hds, hc']), List.singleton_append, ← hds]
      exact hend false (by simp; omega)

/-! ### Values -/

mutual

theorem lex_print (L : Layout) (d : Nat) (v : Value) (rest : List Char) (hr : Apart rest) :
    lex .blank (print L d v ++ rest) = (lex .blank rest).map (tokens v ++ ·) := by
  have hword : ∀ (c : Char) (w : List Char) (t : Token), isLetter c = true → isBlank c = false → isSym c = false →
      c ≠ '"' → c ≠ '-' → isDigit c = false → w.all isLetter = true → ending (.word (c :: w)) = some [t] →
      lex .blank (c :: w ++ rest) = (lex .blank rest).map ([t] ++ ·) := by
    intro c w t hl hb hs hq hm hd hw hend
    have hstart : next .blank c = some (.word [c], []) := by simp [next, start, hl, hb, hs, hq, hm, hd]
    have hletters : ∀ w', lex (.word w') (w ++ rest) = lex (.word (w' ++ w)) rest := by
      clear hend
      induction w with
      | nil => simp
      | cons c' w ih =>
        intro w'
        have hnext : next (.word w') c' = some (.word (w' ++ [c']), []) := by simp [next, (Bool.and_eq_true _ _ ▸ hw).1]
        rw [List.cons_append, lex_step hnext, ih (Bool.and_eq_true _ _ ▸ hw).2, List.append_assoc, List.singleton_append]
    rw [List.cons_append, lex_step hstart, hletters, List.singleton_append]
    exact lex_ending (.inr ⟨_, rfl⟩) hend hr
  match v with
  | .null => exact hword 'n' ['u', 'l', 'l'] .null rfl rfl rfl (by decide) (by decide) rfl rfl rfl
  | .bool true => exact hword 't' ['r', 'u', 'e'] (.bool true) rfl rfl rfl (by decide) (by decide) rfl rfl rfl
  | .bool false => exact hword 'f' ['a', 'l', 's', 'e'] (.bool false) rfl rfl rfl (by decide) (by decide) rfl rfl rfl
  | .num n => exact lex_integer n hr
  | .str s => exact lex_quote s rest
  | .arr [] =>
    simp only [print, tokens, List.cons_append, List.nil_append]
    rw [lex_sym rfl rfl, lex_sym rfl rfl]
    simp [Function.comp_def]
  | .arr (v :: l) =>
    obtain ⟨hl, ha⟩ := lex_printElements L d l rest
    simp only [print, tokens, List.cons_append, List.append_assoc]
    rw [lex_sym rfl rfl, lex_blanks (L.gap_blank _), lex_print L (d + 1) v _ ha, hl]
    simp [Function.comp_def]
  | .obj [] =>
    simp only [print, tokens, List.cons_append, List.nil_append]
    rw [lex_sym rfl rfl, lex_sym rfl rfl]
    simp [Function.comp_def]
  | .obj ((k, v) :: l) =>
    obtain ⟨hl, ha⟩ := lex_printMembers L d l rest
    have hspace : ∀ text, lex .blank (' ' :: text) = lex .blank text := lex_step rfl
    simp only [print, tokens, List.cons_append, List.append_assoc]
    rw [lex_sym rfl rfl, lex_blanks (L.gap_blank _), lex_quote, lex_sym rfl rfl, hspace, lex_print L (d + 1) v _ ha, hl]
    simp [Function.comp_def]

theorem lex_printElements (L : Layout) (d : Nat) (l : List Value) (rest : List Char) :
    lex .blank (printElements L d l ++ rest) = (lex .blank rest).map (elementTokens l ++ ·) ∧
      Apart (printElements L d l ++ rest) := by
  match l with
  | [] =>
    simp only [printElements, elementTokens, List.append_assoc, List.singleton_append]
    rw [lex_blanks (L.gap_blank _), lex_sym rfl rfl]
    exact ⟨rfl, .blanks (L.gap_blank _) (.cons (.inr rfl) _)⟩
  | v :: l =>
    obtain ⟨hl, ha⟩ := lex_printElements L d l rest
    simp only [printElements, elementTokens, List.cons_append, List.append_assoc]
    rw [lex_sym rfl rfl, lex_blanks (L.sep_blank _), lex_print L (d + 1) v _ ha, hl]
    exact ⟨by simp [Function.comp_def], .cons (.inr rfl) _⟩

theorem lex_printMembers (L : Layout) (d : Nat) (l : List (Text × Value)) (rest : List Char) :
    lex .blank (printMembers L d l ++ rest) = (lex .blank rest).map (memberTokens l ++ ·) ∧
      Apart (printMembers L d l ++ rest) := by
  match l with
  | [] =>
    simp only [printMembers, memberTokens, List.append_assoc, List.singleton_append]
    rw [lex_blanks (L.gap_blank _), lex_sym rfl rfl]
    exact ⟨rfl, .blanks (L.gap_blank _) (.cons (.inr rfl) _)⟩
  | (k, v) :: l =>
    obtain ⟨hl, ha⟩ := lex_printMembers L d l rest
    have hspace : ∀ text, lex .blank (' ' :: text) = lex .blank text := lex_step rfl
    simp only [printMembers, memberTokens, List.cons_append, List.append_assoc]
    rw [lex_sym rfl rfl, lex_blanks (L.sep_blank _), lex_quote, lex_sym rfl rfl, hspace, lex_print L (d + 1) v _ ha, hl]
    exact ⟨by simp [Function.comp_def], .cons (.inr rfl) _⟩

end

/-! ## The tokens of a value are read back -/

/-- A value does not begin as a list ends. -/
theorem tokens_head (v : Value) : ∃ t ts, tokens v = t :: ts ∧ t ≠ .sym ']' := by
  match v with
  | .null | .bool _ | .num _ | .str _ | .arr [] | .arr (_ :: _) | .obj [] | .obj (_ :: _) =>
    exact ⟨_, _, rfl, by simp⟩

mutual

theorem value_tokens (v : Value) (n : Nat) (hn : (tokens v).length ≤ n) (rest : List Token) :
    value n (tokens v ++ rest) = some (v, rest) := by
  match v, n with
  | v, 0 =>
    obtain ⟨t, ts, h, -⟩ := tokens_head v
    simp [h] at hn
  | .null, n + 1 | .bool _, n + 1 | .num _, n + 1 | .str _, n + 1 | .arr [], n + 1 | .obj [], n + 1 => rfl
  | .arr (v :: l), n + 1 =>
    simp only [tokens, List.length_cons, List.length_append] at hn
    obtain ⟨t, ts, ht, hne⟩ := tokens_head v
    have hv := value_tokens v n (by omega) (elementTokens l ++ rest)
    have hl := elements_tokens l n (by omega) rest
    simp only [tokens, List.cons_append, List.append_assoc]
    rw [value]
    · simp [hv, hl]
    · intro ts' h
      rw [ht] at h
      simp [hne] at h
  | .obj ((k, v) :: l), n + 1 =>
    simp only [tokens, List.length_cons, List.length_append] at hn
    have hv := value_tokens v n (by omega) (memberTokens l ++ rest)
    have hl := members_tokens l n (by omega) rest
    simp [tokens, value, hv, hl]

theorem elements_tokens (l : List Value) (n : Nat) (hn : (elementTokens l).length ≤ n) (rest : List Token) :
    elements n (elementTokens l ++ rest) = some (l, rest) := by
  match l, n with
  | l, 0 => cases l <;> simp [elementTokens] at hn
  | [], n + 1 => rfl
  | v :: l, n + 1 =>
    simp only [elementTokens, List.length_cons, List.length_append] at hn
    have hv := value_tokens v n (by omega) (elementTokens l ++ rest)
    have hl := elements_tokens l n (by omega) rest
    simp [elementTokens, elements, hv, hl]

theorem members_tokens (l : List (Text × Value)) (n : Nat) (hn : (memberTokens l).length ≤ n) (rest : List Token) :
    members n (memberTokens l ++ rest) = some (l, rest) := by
  match l, n with
  | l, 0 => rcases l with - | ⟨⟨k, v⟩, l⟩ <;> simp [memberTokens] at hn
  | [], n + 1 => rfl
  | (k, v) :: l, n + 1 =>
    simp only [memberTokens, List.length_cons, List.length_append] at hn
    have hv := value_tokens v n (by omega) (memberTokens l ++ rest)
    have hl := members_tokens l n (by omega) rest
    simp [memberTokens, members, hv, hl]

end

/-- What is printed reads back as it was, whatever the layout. -/
theorem read_print (L : Layout) (d : Nat) (v : Value) : read (print L d v) = some v := by
  have hlex : lex .blank (print L d v) = some (tokens v) := by
    have h := lex_print L d v [] (by simp [Apart])
    simpa [lex, ending] using h
  have hvalue := value_tokens v (tokens v).length (Nat.le_refl _) []
  rw [List.append_nil] at hvalue
  simp [read, hlex, hvalue]

/-! ## A compact text is one line -/

/-- Between a space and a tilde. -/
def Printable (c : Char) : Prop := 32 ≤ c.toNat ∧ c.toNat ≤ 126

instance (c : Char) : Decidable (Printable c) := inferInstanceAs (Decidable (_ ∧ _))

theorem hexDigit_printable : ∀ d < 16, Printable (hexDigit d) := by decide

theorem escape_printable (u : UInt16) : ∀ c ∈ escape u, Printable c := by
  have hlt : u.toNat < 65536 := u.toNat_lt
  unfold escape
  split_ifs with h1 h2 h3 h4 h5 h6 h7 h8
  iterate 7
    · simp [Printable]
  · have hc : (Char.ofNat u.toNat).toNat = u.toNat := by
      rw [Char.ofNat, dif_pos (.inl (by omega))]
      rfl
    simpa [Printable, hc] using h8
  · simp only [List.forall_mem_cons]
    exact ⟨by decide, by decide, hexDigit_printable _ (by omega), hexDigit_printable _ (by omega),
      hexDigit_printable _ (by omega), hexDigit_printable _ (by omega), by simp⟩

theorem quote_printable (s : Text) : ∀ c ∈ quote s, Printable c := by
  intro c hc
  simp only [quote, List.mem_cons, List.mem_append, List.mem_flatMap, List.not_mem_nil, or_false] at hc
  rcases hc with rfl | ⟨u, -, hc⟩ | rfl
  · decide
  · exact escape_printable u c hc
  · decide

theorem integer_printable (n : Int) : ∀ c ∈ integer n, Printable c := by
  have hdigits : ∀ c ∈ Nat.toDigits 10 n.natAbs, Printable c := by
    intro c hc
    have := (numeral_toDigits n.natAbs).1 c hc
    simp only [isDigit, Bool.and_eq_true, decide_eq_true_eq] at this
    exact ⟨by omega, by omega⟩
  unfold integer
  split
  · simpa using ⟨by decide, hdigits⟩
  · exact hdigits

mutual

theorem print_printable (d : Nat) (v : Value) : ∀ c ∈ print compact d v, Printable c := by
  match v with
  | .null | .bool true | .bool false | .arr [] | .obj [] =>
    simp [print, Printable]
  | .num n => exact integer_printable n
  | .str s => exact quote_printable s
  | .arr (v :: l) =>
    simp only [print, compact, List.nil_append, List.forall_mem_cons, List.forall_mem_append]
    exact ⟨by decide, print_printable _ v, printElements_printable d l⟩
  | .obj ((k, v) :: l) =>
    simp only [print, compact, List.nil_append, List.forall_mem_cons, List.forall_mem_append]
    exact ⟨by decide, quote_printable k, by decide, by decide, print_printable _ v, printMembers_printable d l⟩

theorem printElements_printable (d : Nat) (l : List Value) : ∀ c ∈ printElements compact d l, Printable c := by
  match l with
  | [] =>
    simp [printElements, compact, Printable]
  | v :: l =>
    simp only [printElements, compact, List.cons_append, List.nil_append, List.forall_mem_cons, List.forall_mem_append]
    exact ⟨by decide, by decide, print_printable _ v, printElements_printable d l⟩

theorem printMembers_printable (d : Nat) (l : List (Text × Value)) : ∀ c ∈ printMembers compact d l, Printable c := by
  match l with
  | [] =>
    simp [printMembers, compact, Printable]
  | (k, v) :: l =>
    simp only [printMembers, compact, List.cons_append, List.nil_append, List.forall_mem_cons, List.forall_mem_append]
    exact ⟨by decide, by decide, quote_printable k, by decide, by decide, print_printable _ v, printMembers_printable d l⟩

end

/-! ## Characters -/

/-- The characters of a text whose surrogates are all in pairs. -/
def chars : Text → List Char
  | u :: v :: rest =>
    if 0xD800 ≤ u.toNat ∧ u.toNat < 0xDC00 ∧ 0xDC00 ≤ v.toNat ∧ v.toNat < 0xE000 then
      Char.ofNat (0x10000 + (u.toNat - 0xD800) * 0x400 + (v.toNat - 0xDC00)) :: chars rest
    else Char.ofNat u.toNat :: chars (v :: rest)
  | [u] => [Char.ofNat u.toNat]
  | [] => []

theorem chars_units (c : Char) (rest : Text) : chars (units c ++ rest) = c :: chars rest := by
  have hvalid : c.toNat < 0xD800 ∨ 0xDFFF < c.toNat ∧ c.toNat < 0x110000 := c.valid
  have hnat : ∀ n : Nat, n < 0x10000 → n.toUInt16.toNat = n := fun n hn => by simp; omega
  rw [units]
  split
  · next hlt =>
    rw [List.singleton_append]
    cases rest with
    | nil => rw [chars, hnat _ hlt, Char.ofNat_toNat, chars]
    | cons v rest => rw [chars, hnat _ hlt, if_neg (by omega), Char.ofNat_toNat]
  · next hge =>
    rw [List.cons_append, List.singleton_append, chars, hnat _ (by omega), hnat _ (by omega), if_pos (by omega)]
    have : 0x10000 + (0xD800 + (c.toNat - 0x10000) / 0x400 - 0xD800) * 0x400 + (0xDC00 + (c.toNat - 0x10000) % 0x400 - 0xDC00) = c.toNat := by
      omega
    rw [this, Char.ofNat_toNat]

theorem chars_of (s : String) : chars (of s) = s.toList := by
  rw [of]
  induction s.toList with
  | nil => rfl
  | cons c l ih => rw [List.flatMap_cons, chars_units, ih]

end JsonText
