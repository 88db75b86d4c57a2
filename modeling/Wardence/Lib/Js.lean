import Mathlib.Data.List.Basic
/-!
# Strings as JavaScript has them

A text is the list of its UTF-16 code units, and `of` reads a string in. The operations are
those of string methods and of regular expressions without flags, which look at one unit at a
time.
-/
namespace Js

abbrev Text := List UInt16

/-- The code units of a character: one, or a pair of surrogates. -/
def units (c : Char) : Text :=
  if c.toNat < 0x10000 then [c.toNat.toUInt16]
  else [(0xD800 + (c.toNat - 0x10000) / 0x400).toUInt16, (0xDC00 + (c.toNat - 0x10000) % 0x400).toUInt16]

def of (s : String) : Text := s.toList.flatMap units

/-- What `\s` matches and `trim` removes. -/
def isSpace (u : UInt16) : Bool :=
  (9 ≤ u && u ≤ 13) || u == 32 || u == 0xA0 || u == 0x1680 || (0x2000 ≤ u && u ≤ 0x200A) || u == 0x2028 || u == 0x2029 ||
    u == 0x202F || u == 0x205F || u == 0x3000 || u == 0xFEFF

/-- What `.` does not match. -/
def isTerminator (u : UInt16) : Bool := u == 10 || u == 13 || u == 0x2028 || u == 0x2029

/-- `\d` -/
def isDigit (u : UInt16) : Bool := 48 ≤ u && u ≤ 57

/-- `Number`, of digits. -/
def number (ds : Text) : Nat := ds.foldl (fun n d => 10 * n + (d.toNat - 48)) 0

def trim (t : Text) : Text := ((t.dropWhile isSpace).reverse.dropWhile isSpace).reverse

/-- What follows `p` at the start of a text. -/
def after (p t : Text) : Option Text := if p <+: t then some (t.drop p.length) else none

/-! ## Lemmas -/

theorem of_append (s t : String) : of (s ++ t) = of s ++ of t := by rw [of, String.toList_append, List.flatMap_append]; rfl

theorem after_append (p t : Text) : after p (p ++ t) = some t := by
  rw [after, if_pos (List.prefix_append p t), List.drop_left]

/-- A text that starts otherwise does not match. -/
theorem after_none {u v : UInt16} {p t : Text} (h : u ≠ v) : after (u :: p) (v :: t) = none :=
  if_neg fun hp => h (List.cons_prefix_cons.1 hp).1

/-- A unit of a character is the character, or no unit of a character below the surrogates. -/
theorem mem_units {c : Char} {u : UInt16} (h : u ∈ units c) : u.toNat = c.toNat ∨ 0xD800 ≤ u.toNat := by
  have hc : c.toNat < 0x110000 := c.valid.elim (fun h => Nat.lt_trans h (by decide)) And.right
  rw [units] at h
  split at h
  next hsmall =>
    rw [List.mem_singleton.1 h, Nat.toUInt16, UInt16.toNat_ofNat']
    exact .inl (Nat.mod_eq_of_lt (by omega))
  next =>
    rcases List.mem_pair.1 h with rfl | rfl <;> rw [Nat.toUInt16, UInt16.toNat_ofNat', Nat.mod_eq_of_lt (by omega)] <;> omega

/-- No unit of a single line ends a line. -/
theorem terminators_of {s : String} (h : ∀ c ∈ s.toList, c ≠ '\n' ∧ c ≠ '\r' ∧ c.toNat ≠ 0x2028 ∧ c.toNat ≠ 0x2029) :
    ∀ u ∈ of s, isTerminator u = false := by
  intro u hu
  obtain ⟨c, hc, hu⟩ := List.mem_flatMap.1 hu
  obtain ⟨hn, hr, hl, hp⟩ := h c hc
  have hn' : c.toNat ≠ 10 := fun he => hn (Char.toNat_inj.1 he)
  have hr' : c.toNat ≠ 13 := fun he => hr (Char.toNat_inj.1 he)
  have hunit : u.toNat ≠ 10 ∧ u.toNat ≠ 13 ∧ u.toNat ≠ 0x2028 ∧ u.toNat ≠ 0x2029 := by
    rcases mem_units hu with he | he <;> omega
  simp only [isTerminator, Bool.or_eq_false_iff, beq_eq_false_iff_ne, ne_eq, ← UInt16.toNat_inj]
  exact ⟨⟨⟨hunit.1, hunit.2.1⟩, hunit.2.2.1⟩, hunit.2.2.2⟩

theorem units_digit : ∀ d < 10, units (Nat.digitChar d) = [(48 + d).toUInt16] ∧ isDigit (48 + d).toUInt16 = true ∧
    (48 + d).toUInt16.toNat - 48 = d := by decide

theorem number_append (ds : Text) (u : UInt16) : number (ds ++ [u]) = 10 * number ds + (u.toNat - 48) := by
  rw [number, List.foldl_append]
  rfl

/-- The digits of a number read back as the number. -/
theorem number_of (n : Nat) : (∀ u ∈ of (toString n), isDigit u = true) ∧ of (toString n) ≠ [] ∧ number (of (toString n)) = n := by
  have hof : of (toString n) = (Nat.toDigits 10 n).flatMap units := by
    rw [of, Nat.toString_eq_repr, Nat.toList_repr]
  rw [hof]
  clear hof
  induction n using Nat.strongRecOn with
  | ind n ih =>
    rcases Nat.lt_or_ge n 10 with hn | hn
    · obtain ⟨hu, hd, hv⟩ := units_digit n hn
      rw [Nat.toDigits_of_lt_base hn, List.flatMap_singleton, hu]
      refine ⟨fun u hu => by rw [List.mem_singleton.1 hu]; exact hd, List.cons_ne_nil _ _, ?_⟩
      rw [← List.nil_append [_], number_append, hv]
      exact Nat.zero_add n
    · obtain ⟨hdigits, -, hnum⟩ := ih (n / 10) (by omega)
      obtain ⟨hu, hd, hv⟩ := units_digit (n % 10) (Nat.mod_lt n (by decide))
      rw [Nat.toDigits_of_base_le (by decide) hn, List.flatMap_append, List.flatMap_singleton, hu]
      refine ⟨fun u hu => ?_, by simp, ?_⟩
      · rcases List.mem_append.1 hu with hu | hu
        · exact hdigits u hu
        · rw [List.mem_singleton.1 hu]
          exact hd
      · rw [number_append, hnum, hv]
        omega

end Js
