import Mathlib.Data.Rat.Floor
import Wardence.Lib.Table
/-!
# Python values

The values a JSON reply can hold, and the string and number functions the
checks on them use. `strip` and `lower` agree with Python's wherever the result
is compared with ASCII text; `\d` and `float` accept every Unicode decimal
digit; `toDouble` is the rounding of IEEE double precision.
-/
namespace Py

open Keyed

/-- What returned had a first part that returned. -/
theorem ok_of_bind {ε α β : Type} {x : Except ε α} {f : α → Except ε β} {b : β} (h : (x >>= f) = .ok b) :
    ∃ a, x = .ok a ∧ f a = .ok b := by
  cases x with
  | error e => cases h
  | ok a => exact ⟨a, rfl, h⟩

/-- A JSON value. What an array or an object holds is never looked at. -/
inductive Val where
  | none
  | bool (b : Bool)
  | int (n : Int)
  | float (q : ℚ)
  | str (s : String)
  | nested (text : String)
  deriving DecidableEq

namespace Val

/-- `isinstance(v, str)`. -/
def asStr : Val → Option String
  | .str s => some s
  | _ => Option.none

/-- The number a comparison with `v` compares, or `none` where Python raises. -/
def asNum : Val → Option ℚ
  | .bool b => some (if b then 1 else 0)
  | .int n => some n
  | .float q => some q
  | _ => Option.none

/-- Arrays and objects are not hashable. -/
def hashable : Val → Bool
  | .nested _ => false
  | _ => true

end Val

/-- Keyword arguments, or a JSON object with string keys. -/
abbrev Dict := Table String Val

/-- `{**d, k: v}`. -/
def Dict.set (d : Dict) (k : String) (v : Val) : Dict := AList.insert k v d

/-- `d.get(k)`. -/
def Dict.get (d : Dict) (k : String) : Val := (AList.lookup k d).getD .none

@[simp] theorem Dict.lookup_set (d : Dict) (k j : String) (v : Val) :
    AList.lookup j (d.set k v) = if j = k then some v else AList.lookup j d := Table.lookup_upsert d k j v

/-! ## Strings -/

/-- `str.isspace`. -/
def isSpace (c : Char) : Bool :=
  (9 ≤ c.val ∧ c.val ≤ 13) ∨ (28 ≤ c.val ∧ c.val ≤ 32) ∨ (0x2000 ≤ c.val ∧ c.val ≤ 0x200A) ∨
    c.val ∈ [0x85, 0xA0, 0x1680, 0x2028, 0x2029, 0x202F, 0x205F, 0x3000]

/-- `str.strip`. -/
def strip (s : String) : String :=
  String.ofList ((s.toList.dropWhile isSpace).reverse.dropWhile isSpace).reverse

/-- One character of `str.lower`: ASCII, and the Kelvin sign, the only other
character whose lower case is ASCII. -/
def lowerChar (c : Char) : Char :=
  if 65 ≤ c.val ∧ c.val ≤ 90 then Char.ofNat (c.val.toNat + 32) else if c.val = 0x212A then 'k' else c

/-- `str.lower`. -/
def lower (s : String) : String := String.ofList (s.toList.map lowerChar)

/-! ## Numbers -/

/-- The zero of each run of ten decimal digits (category `Nd`). -/
def digitZeros : List Nat :=
  [0x30, 0x660, 0x6F0, 0x7C0, 0x966, 0x9E6, 0xA66, 0xAE6, 0xB66, 0xBE6, 0xC66, 0xCE6, 0xD66, 0xDE6, 0xE50,
    0xED0, 0xF20, 0x1040, 0x1090, 0x17E0, 0x1810, 0x1946, 0x19D0, 0x1A80, 0x1A90, 0x1B50, 0x1BB0, 0x1C40,
    0x1C50, 0xA620, 0xA8D0, 0xA900, 0xA9D0, 0xA9F0, 0xAA50, 0xABF0, 0xFF10, 0x104A0, 0x10D30, 0x11066,
    0x110F0, 0x11136, 0x111D0, 0x112F0, 0x11450, 0x114D0, 0x11650, 0x116C0, 0x11730, 0x118E0, 0x11950,
    0x11C50, 0x11D50, 0x11DA0, 0x16A60, 0x16AC0, 0x16B50, 0x1D7CE, 0x1D7D8, 0x1D7E2, 0x1D7EC, 0x1D7F6,
    0x1E140, 0x1E2F0, 0x1E950, 0x1FBF0]

/-- The value of a `\d`. -/
def digit? (c : Char) : Option Nat :=
  (digitZeros.find? fun z => z ≤ c.toNat && c.toNat < z + 10).map (c.toNat - ·)

/-- The digits at the front of a string, and the rest. -/
def digits (cs : List Char) : List Nat × List Char :=
  ((cs.takeWhile fun c => (digit? c).isSome).filterMap digit?, cs.dropWhile fun c => (digit? c).isSome)

def ofDigits (ds : List Nat) : Nat := ds.foldl (fun n d => 10 * n + d) 0

/-- The largest `e` with `2 ^ e ≤ q`, for `q > 0`. -/
def ilog2 (q : ℚ) : Int :=
  let e := (Nat.log2 q.num.natAbs : Int) - Nat.log2 q.den
  if q < 2 ^ e then e - 1 else e

/-- To the nearest integer, ties to even. -/
def roundHalfEven (q : ℚ) : Int :=
  if q - ⌊q⌋ < 1 / 2 then ⌊q⌋ else if 1 / 2 < q - ⌊q⌋ then ⌊q⌋ + 1 else if ⌊q⌋ % 2 = 0 then ⌊q⌋ else ⌊q⌋ + 1

/-- The double nearest to `q ≥ 0`. A value past the largest double stays where
it is, as good as infinity for a comparison with a bound. -/
def toDouble (q : ℚ) : ℚ :=
  if q ≤ 0 then 0 else
    let e := max (ilog2 q - 52) (-1074)
    roundHalfEven (q / 2 ^ e) * 2 ^ e

/-- `a * b`, of doubles that are not negative. -/
def mulDouble (a b : ℚ) : ℚ := toDouble (a * b)

/-- `re.match(r"^(\d+(?:\.\d+)?)(<suffixes>)?$", s)`: the value of group 1 as a
`float`, and group 2 (empty when absent). `$` also matches before a final newline. -/
def matchQuantity (suffixes : List String) (s : String) : Option (ℚ × String) :=
  match digits s.toList with
  | ([], _) => none
  | (ds, rest) =>
    let (fs, rest) :=
      match rest with
      | '.' :: cs => match digits cs with
        | ([], _) => ([], rest)
        | (fs, rest') => (fs, rest')
      | _ => ([], rest)
    let value : ℚ := ofDigits (ds ++ fs) / 10 ^ fs.length
    (("" :: suffixes).find? fun u => rest = u.toList || rest = u.toList ++ ['\n']).map (toDouble value, ·)

end Py
