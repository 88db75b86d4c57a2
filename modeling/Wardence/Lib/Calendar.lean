import Mathlib.Data.List.Lex
import Mathlib.Data.String.Basic
/-!
# Dates and their text

The proleptic Gregorian calendar as Python's `datetime` computes it, aware UTC
datetimes with microseconds, and `isoformat`. Texts compare as the datetimes do,
although a datetime on the full second is written without a fraction.
-/
namespace Calendar

/-! ## Years, months and days -/

def isLeap (y : Nat) : Bool := y % 4 = 0 && (y % 100 ≠ 0 || y % 400 = 0)

/-- `_days_before_year`, for `y ≥ 1`. -/
def daysBeforeYear (y : Nat) : Nat := (y - 1) * 365 + (y - 1) / 4 - (y - 1) / 100 + (y - 1) / 400

def daysInMonth (leap : Bool) (m : Nat) : Nat :=
  [0, 31, if leap then 29 else 28, 31, 30, 31, 30, 31, 31, 30, 31, 30, 31].getD m 0

/-- `_days_before_month`. -/
def daysBeforeMonth (leap : Bool) (m : Nat) : Nat :=
  [0, 0, 31, 59, 90, 120, 151, 181, 212, 243, 273, 304, 334].getD m 0 + if 2 < m ∧ leap then 1 else 0

structure Date where
  year : Nat
  month : Nat
  day : Nat
  deriving DecidableEq, Repr

theorem Date.eq_iff {d e : Date} : d = e ↔ d.year = e.year ∧ d.month = e.month ∧ d.day = e.day := by
  cases d
  cases e
  exact Date.mk.injEq .. ▸ Iff.rfl

/-- The dates of the calendar. -/
structure Date.Valid (d : Date) : Prop where
  year : 1 ≤ d.year
  month : 1 ≤ d.month ∧ d.month ≤ 12
  day : 1 ≤ d.day ∧ d.day ≤ daysInMonth (isLeap d.year) d.month

/-- `toordinal`: the first day of year 1 has number 1. -/
def Date.toOrdinal (d : Date) : Nat := daysBeforeYear d.year + daysBeforeMonth (isLeap d.year) d.month + d.day

/-- Month and day of the `n`-th day of a year, from 0. -/
def monthDay (leap : Bool) (n : Nat) : Nat × Nat :=
  let month := (n + 50) / 32
  if n < daysBeforeMonth leap month then (month - 1, n - daysBeforeMonth leap (month - 1) + 1)
  else (month, n - daysBeforeMonth leap month + 1)

/-- `_ord2ymd`, of a day counted from 0: whole spans of 400, 100, 4 and 1 years come off first. -/
def ofDays (n : Nat) : Date :=
  let n400 := n / 146097
  let n100 := n % 146097 / 36524
  let n4 := n % 146097 % 36524 / 1461
  let n1 := n % 146097 % 36524 % 1461 / 365
  let rest := n % 146097 % 36524 % 1461 % 365
  let year := n400 * 400 + n100 * 100 + n4 * 4 + n1 + 1
  if n1 = 4 ∨ n100 = 4 then ⟨year - 1, 12, 31⟩
  else ⟨year, (monthDay (isLeap year) rest).1, (monthDay (isLeap year) rest).2⟩

/-! ## Days have one date -/

def daysInYear (leap : Bool) : Nat := 365 + leap.toNat

theorem monthDay_spec : ∀ leap, ∀ n < daysInYear leap,
    (1 ≤ (monthDay leap n).1 ∧ (monthDay leap n).1 ≤ 12) ∧
      (1 ≤ (monthDay leap n).2 ∧ (monthDay leap n).2 ≤ daysInMonth leap (monthDay leap n).1) ∧
      daysBeforeMonth leap (monthDay leap n).1 + (monthDay leap n).2 = n + 1 := by
  decide +kernel

/-- The last day of a month is before the first of every later one. -/
theorem daysBeforeMonth_lt : ∀ leap, ∀ m ≤ 12, ∀ m' ≤ 12, 1 ≤ m → m < m' →
    daysBeforeMonth leap m + daysInMonth leap m ≤ daysBeforeMonth leap m' := by
  decide

theorem daysInMonth_le_year : ∀ leap, ∀ m ≤ 12, 1 ≤ m →
    daysBeforeMonth leap m + daysInMonth leap m ≤ daysInYear leap := by
  decide

theorem isLeap_iff (y : Nat) : isLeap y = true ↔ y % 4 = 0 ∧ (y % 100 ≠ 0 ∨ y % 400 = 0) := by
  simp [isLeap]

theorem daysBeforeYear_succ {y : Nat} (h : 1 ≤ y) : daysBeforeYear (y + 1) = daysBeforeYear y + daysInYear (isLeap y) := by
  obtain ⟨k, rfl⟩ : ∃ k, y = k + 1 := ⟨y - 1, by omega⟩
  have h4 : (k + 1) / 4 = k / 4 + if (k + 1) % 4 = 0 then 1 else 0 := by split <;> omega
  have h100 : (k + 1) / 100 = k / 100 + if (k + 1) % 100 = 0 then 1 else 0 := by split <;> omega
  have h400 : (k + 1) / 400 = k / 400 + if (k + 1) % 400 = 0 then 1 else 0 := by split <;> omega
  have d4 : (k + 1) % 100 = 0 → (k + 1) % 4 = 0 := by omega
  have d100 : (k + 1) % 400 = 0 → (k + 1) % 100 = 0 := by omega
  have hle : k / 100 ≤ k / 4 := Nat.div_le_div_left (by decide) (by decide)
  simp only [daysBeforeYear, Nat.add_sub_cancel, h4, h100, h400, daysInYear]
  by_cases c4 : (k + 1) % 4 = 0
  · by_cases c100 : (k + 1) % 100 = 0
    · by_cases c400 : (k + 1) % 400 = 0
      · simp [isLeap, c4, c100, c400]; omega
      · simp [isLeap, c4, c100, c400]; omega
    · simp [isLeap, c4, c100, mt d100 c100]; omega
  · simp [isLeap, c4, mt d4 c4, mt d100 (mt d4 c4)]; omega

theorem daysBeforeYear_mono {y y' : Nat} (h : 1 ≤ y) (hy : y < y') :
    daysBeforeYear y + daysInYear (isLeap y) ≤ daysBeforeYear y' := by
  induction y', hy using Nat.le_induction with
  | base => rw [daysBeforeYear_succ h]
  | succ y' hy ih => rw [daysBeforeYear_succ (by omega)]; omega

/-- The first day of a year, from its place in the spans of 400, 100 and 4 years. -/
theorem daysBeforeYear_spans {a b c d : Nat} (hb : b ≤ 3) (hc : c ≤ 24) (hd : d ≤ 3) :
    daysBeforeYear (a * 400 + b * 100 + c * 4 + d + 1) = 146097 * a + 36524 * b + 1461 * c + 365 * d := by
  have h4 : (a * 400 + b * 100 + c * 4 + d) / 4 = 100 * a + 25 * b + c := by omega
  have h100 : (a * 400 + b * 100 + c * 4 + d) / 100 = 4 * a + b := by omega
  have h400 : (a * 400 + b * 100 + c * 4 + d) / 400 = a := by omega
  simp only [daysBeforeYear, Nat.add_sub_cancel, h4, h100, h400]
  omega

theorem isLeap_spans {a b c d : Nat} (hb : b ≤ 3) (hc : c ≤ 24) (hd : d ≤ 3) :
    isLeap (a * 400 + b * 100 + c * 4 + d + 1) = true ↔ d = 3 ∧ (c ≠ 24 ∨ b = 3) := by
  rw [isLeap_iff]
  have h4 : (a * 400 + b * 100 + c * 4 + d + 1) % 4 = 0 ↔ d = 3 := by omega
  have h100 : (a * 400 + b * 100 + c * 4 + d + 1) % 100 = 0 ↔ c = 24 ∧ d = 3 := by omega
  have h400 : (a * 400 + b * 100 + c * 4 + d + 1) % 400 = 0 ↔ b = 3 ∧ c = 24 ∧ d = 3 := by omega
  rw [h4, ne_eq, h100, h400]
  tauto

/-- The date of the `r`-th day of a year. -/
def dayOfYear (y r : Nat) : Date := ⟨y, (monthDay (isLeap y) r).1, (monthDay (isLeap y) r).2⟩

theorem dayOfYear_valid {y r : Nat} (hy : 1 ≤ y) (hr : r < daysInYear (isLeap y)) : (dayOfYear y r).Valid :=
  let h := monthDay_spec (isLeap y) r hr
  ⟨hy, h.1, h.2.1⟩

theorem dayOfYear_toOrdinal {y r : Nat} (hr : r < daysInYear (isLeap y)) :
    (dayOfYear y r).toOrdinal = daysBeforeYear y + r + 1 := by
  have h := (monthDay_spec (isLeap y) r hr).2.2
  simp only [Date.toOrdinal, dayOfYear]
  omega

theorem december31 {y : Nat} (h : isLeap y = true) : dayOfYear y 365 = ⟨y, 12, 31⟩ := by
  rw [dayOfYear, h]
  rfl

/-- `ofDays` finds the year and the day within it. -/
theorem ofDays_eq (n : Nat) : ∃ y r, 1 ≤ y ∧ r < daysInYear (isLeap y) ∧ ofDays n = dayOfYear y r ∧
    daysBeforeYear y + r = n := by
  have hn : n = 146097 * (n / 146097) + n % 146097 := by omega
  have h100 : n % 146097 = 36524 * (n % 146097 / 36524) + n % 146097 % 36524 := by omega
  have h4 : n % 146097 % 36524 = 1461 * (n % 146097 % 36524 / 1461) + n % 146097 % 36524 % 1461 := by omega
  have h1 : n % 146097 % 36524 % 1461 =
      365 * (n % 146097 % 36524 % 1461 / 365) + n % 146097 % 36524 % 1461 % 365 := by omega
  have b400 : n % 146097 < 146097 := by omega
  have b100 : n % 146097 % 36524 < 36524 := by omega
  have b4 : n % 146097 % 36524 % 1461 < 1461 := by omega
  have b1 : n % 146097 % 36524 % 1461 % 365 < 365 := by omega
  unfold ofDays
  dsimp only
  generalize n / 146097 = a at *
  generalize n % 146097 = r400 at *
  generalize r400 / 36524 = b at *
  generalize r400 % 36524 = r100 at *
  generalize r100 / 1461 = c at *
  generalize r100 % 1461 = r4 at *
  generalize r4 / 365 = d at *
  generalize r4 % 365 = r at *
  split
  · -- The last day of a span: its year is the leap year that ends it.
    rename_i h
    rcases h with rfl | rfl
    · have hc : c ≤ 23 := by omega
      have hleap : isLeap (a * 400 + b * 100 + c * 4 + 3 + 1) = true :=
        (isLeap_spans (by omega) (by omega) le_rfl).2 ⟨rfl, .inl (by omega)⟩
      refine ⟨a * 400 + b * 100 + c * 4 + 3 + 1, 365, by omega, ?_, ?_, ?_⟩
      · rw [hleap]
        decide
      · rw [december31 hleap]
        rfl
      · rw [daysBeforeYear_spans (by omega) (by omega) le_rfl]
        omega
    · have hleap : isLeap (a * 400 + 3 * 100 + 24 * 4 + 3 + 1) = true :=
        (isLeap_spans le_rfl le_rfl le_rfl).2 ⟨rfl, .inr rfl⟩
      refine ⟨a * 400 + 3 * 100 + 24 * 4 + 3 + 1, 365, by omega, ?_, ?_, ?_⟩
      · rw [hleap]
        decide
      · rw [december31 hleap, Date.mk.injEq]
        omega
      · rw [daysBeforeYear_spans le_rfl le_rfl le_rfl]
        omega
  · refine ⟨a * 400 + b * 100 + c * 4 + d + 1, r, by omega, ?_, rfl, ?_⟩
    · unfold daysInYear
      omega
    · rw [daysBeforeYear_spans (by omega) (by omega) (by omega)]
      omega

theorem ofDays_valid (n : Nat) : (ofDays n).Valid := by
  obtain ⟨y, r, hy, hr, he, -⟩ := ofDays_eq n
  rw [he]
  exact dayOfYear_valid hy hr

theorem toOrdinal_ofDays (n : Nat) : (ofDays n).toOrdinal = n + 1 := by
  obtain ⟨y, r, -, hr, he, hn⟩ := ofDays_eq n
  rw [he, dayOfYear_toOrdinal hr, hn]

/-! ## The order of dates -/

/-- Year, month and day, compared one after the other. -/
def Date.Lex (d e : Date) : Prop :=
  d.year < e.year ∨ d.year = e.year ∧ (d.month < e.month ∨ d.month = e.month ∧ d.day < e.day)

theorem Date.Valid.le_year {d : Date} (h : d.Valid) :
    daysBeforeYear d.year < d.toOrdinal ∧ d.toOrdinal ≤ daysBeforeYear d.year + daysInYear (isLeap d.year) := by
  have hm := daysInMonth_le_year (isLeap d.year) d.month h.month.2 h.month.1
  have hd := h.day
  unfold Date.toOrdinal
  omega

theorem Date.Valid.lt_of_lex {d e : Date} (hd : d.Valid) (he : e.Valid) (h : d.Lex e) : d.toOrdinal < e.toOrdinal := by
  rcases h with hy | ⟨hy, hm | ⟨hm, hday⟩⟩
  · have := daysBeforeYear_mono hd.year hy
    have := hd.le_year
    have := he.le_year
    omega
  · have := daysBeforeMonth_lt (isLeap d.year) d.month hd.month.2 e.month he.month.2 hd.month.1 hm
    have := hd.day
    have := he.day
    simp only [Date.toOrdinal, ← hy]
    omega
  · simp only [Date.toOrdinal, ← hy, ← hm]
    omega

theorem Date.lex_trichotomy (d e : Date) : d.Lex e ∨ d = e ∨ e.Lex d := by
  obtain ⟨y, m, n⟩ := d
  obtain ⟨y', m', n'⟩ := e
  simp only [Date.Lex, Date.mk.injEq]
  omega

theorem Date.Valid.lex_iff {d e : Date} (hd : d.Valid) (he : e.Valid) : d.Lex e ↔ d.toOrdinal < e.toOrdinal := by
  refine ⟨hd.lt_of_lex he, fun h => ?_⟩
  rcases d.lex_trichotomy e with h' | rfl | h'
  · exact h'
  · exact absurd h (lt_irrefl _)
  · exact absurd (he.lt_of_lex hd h') (by omega)

theorem ofDays_lex_iff (m n : Nat) : (ofDays m).Lex (ofDays n) ↔ m < n := by
  rw [(ofDays_valid m).lex_iff (ofDays_valid n), toOrdinal_ofDays, toOrdinal_ofDays]
  omega

theorem ofDays_inj {m n : Nat} : ofDays m = ofDays n ↔ m = n := by
  refine ⟨fun h => ?_, congrArg ofDays⟩
  have := congrArg Date.toOrdinal h
  rw [toOrdinal_ofDays, toOrdinal_ofDays] at this
  omega

/-! ## Datetimes -/

/-- Up to the end of the year 9999. -/
def MAX_DAYS : Nat := 3652059

def DAY_US : Nat := 86400 * 1000000

/-- An aware UTC datetime: microseconds since the start of the year 1. -/
structure DateTime where
  micros : Nat
  lt : micros < MAX_DAYS * DAY_US

@[ext]
theorem DateTime.ext {x y : DateTime} (h : x.micros = y.micros) : x = y := by
  cases x
  cases y
  cases h
  rfl

instance : LinearOrder DateTime :=
  LinearOrder.lift' DateTime.micros fun _ _ h => DateTime.ext h

namespace DateTime
variable (x : DateTime)

theorem lt_iff {x y : DateTime} : x < y ↔ x.micros < y.micros := Iff.rfl
theorem le_iff {x y : DateTime} : x ≤ y ↔ x.micros ≤ y.micros := Iff.rfl

def days : Nat := x.micros / DAY_US
def second : Nat := x.micros % DAY_US / 1000000
def microsecond : Nat := x.micros % DAY_US % 1000000

def date : Date := ofDays x.days

theorem micros_eq : x.micros = x.days * DAY_US + x.second * 1000000 + x.microsecond := by
  unfold days second microsecond DAY_US
  omega

theorem days_lt : x.days < MAX_DAYS := Nat.div_lt_of_lt_mul (by rw [Nat.mul_comm]; exact x.lt)

theorem second_lt : x.second < 86400 := by
  have : x.micros % DAY_US < DAY_US := Nat.mod_lt _ (by decide)
  unfold second
  unfold DAY_US at *
  omega

theorem microsecond_lt : x.microsecond < 1000000 := Nat.mod_lt _ (by decide)

/-- A year is written with four digits. -/
theorem year_lt : x.date.year < 10000 := by
  by_contra h
  have h1 := (ofDays_valid x.days).le_year.1
  have h2 : daysBeforeYear 10000 ≤ daysBeforeYear (ofDays x.days).year := by
    rcases Nat.lt_or_ge 10000 (ofDays x.days).year with hlt | hge
    · exact (Nat.le_add_right _ _).trans (daysBeforeYear_mono (by decide) hlt)
    · rw [show (ofDays x.days).year = 10000 from le_antisymm hge (not_lt.1 h)]
  have h3 := x.days_lt
  have h4 : daysBeforeYear 10000 = MAX_DAYS := by decide
  rw [toOrdinal_ofDays] at h1
  omega

end DateTime

/-! ## Texts -/

/-- `%0kd`, of a number with at most `k` digits. -/
def pad : Nat → Nat → List Char
  | 0, _ => []
  | k + 1, n => pad k (n / 10) ++ [Nat.digitChar (n % 10)]

@[simp] theorem pad_length (k n : Nat) : (pad k n).length = k := by
  induction k generalizing n with
  | zero => rfl
  | succ k ih => simp [pad, ih]

/-- Texts that start with pieces of one length. -/
theorem append_lt_append {a b c d : List Char} (h : a.length = b.length) :
    a ++ c < b ++ d ↔ a < b ∨ a = b ∧ c < d := by
  induction a generalizing b with
  | nil =>
    obtain rfl := List.length_eq_zero_iff.1 h.symm
    simp
  | cons x a ih =>
    obtain ⟨y, b, rfl⟩ := List.exists_cons_of_length_eq_add_one h.symm
    simp only [List.cons_append, List.cons_lt_cons_iff, ih (Nat.succ.inj h), List.cons.injEq]
    tauto

theorem digitChar_lt : ∀ a < 10, ∀ b < 10, Nat.digitChar a < Nat.digitChar b ↔ a < b := by decide

theorem digitChar_inj : ∀ a < 10, ∀ b < 10, Nat.digitChar a = Nat.digitChar b ↔ a = b := by decide

theorem pad_inj {k : Nat} : ∀ {m n : Nat}, m < 10 ^ k → n < 10 ^ k → (pad k m = pad k n ↔ m = n) := by
  induction k with
  | zero => intro m n hm hn; simp at hm hn; simp [hm, hn]
  | succ k ih =>
    intro m n hm hn
    rw [Nat.pow_succ] at hm hn
    refine ⟨fun h => ?_, congrArg _⟩
    obtain ⟨hq, hr⟩ := List.append_inj h (by simp)
    have hq' := (ih (by omega) (by omega)).1 hq
    have hr' := (digitChar_inj (m % 10) (by omega) (n % 10) (by omega)).1 (List.head_eq_of_cons_eq hr)
    omega

theorem pad_lt {k : Nat} : ∀ {m n : Nat}, m < 10 ^ k → n < 10 ^ k → (pad k m < pad k n ↔ m < n) := by
  induction k with
  | zero => intro m n hm hn; simp at hm hn; simp [hm, hn, pad]
  | succ k ih =>
    intro m n hm hn
    rw [Nat.pow_succ] at hm hn
    have h1 : m / 10 < 10 ^ k := by omega
    have h2 : n / 10 < 10 ^ k := by omega
    have hd := digitChar_lt (m % 10) (by omega) (n % 10) (by omega)
    rw [pad, pad, append_lt_append (by simp), ih h1 h2, pad_inj h1 h2, List.cons_lt_cons_iff, hd]
    simp only [List.not_lt_nil, and_false, or_false]
    omega

/-- The fraction `isoformat` writes: nothing on the full second. -/
def fraction (us : Nat) : List Char := if us = 0 then [] else '.' :: pad 6 us

/-- An offset sign stands before a decimal point, as a full second does before a later instant. -/
theorem fraction_lt {m n : Nat} (hm : m < 1000000) (hn : n < 1000000) :
    fraction m ++ "+00:00".toList < fraction n ++ "+00:00".toList ↔ m < n := by
  unfold fraction
  by_cases h : m = 0 <;> by_cases h' : n = 0
  · simp [h, h']
  · simp only [h, h', if_true, if_false, List.nil_append, List.cons_append]
    refine iff_of_true ?_ (Nat.pos_of_ne_zero h')
    exact List.cons_lt_cons_iff.2 (.inl (by decide))
  · simp only [h, h', if_true, if_false, List.nil_append, List.cons_append, Nat.not_lt_zero, iff_false]
    refine not_lt.2 (le_of_lt ?_)
    exact List.cons_lt_cons_iff.2 (.inl (by decide))
  · simp only [h, h', if_false, List.cons_append, List.cons_lt_cons_iff, lt_irrefl, true_and, false_or]
    rw [append_lt_append (by simp), pad_lt hm hn, pad_inj hm hn]
    simp

/-- `isoformat`. -/
def DateTime.isoformat (x : DateTime) : String :=
  String.ofList (pad 4 x.date.year ++ '-' :: (pad 2 x.date.month ++ '-' :: (pad 2 x.date.day ++ 'T' ::
    (pad 2 (x.second / 3600) ++ ':' :: (pad 2 (x.second / 60 % 60) ++ ':' :: (pad 2 (x.second % 60) ++
      (fraction x.microsecond ++ "+00:00".toList)))))))

/-- Texts that start with a number. -/
theorem pad_append_lt {k m n : Nat} (hm : m < 10 ^ k) (hn : n < 10 ^ k) {l l' : List Char} :
    pad k m ++ l < pad k n ++ l' ↔ m < n ∨ m = n ∧ l < l' := by
  rw [append_lt_append (by simp), pad_lt hm hn, pad_inj hm hn]

theorem cons_lt_cons_same {c : Char} {l m : List Char} : c :: l < c :: m ↔ l < m := by simp

theorem Date.Valid.two_digits {d : Date} (h : d.Valid) : d.month < 10 ^ 2 ∧ d.day < 10 ^ 2 := by
  have hm : ∀ leap, ∀ m ≤ 12, daysInMonth leap m ≤ 31 := by decide
  have := hm (isLeap d.year) d.month h.month.2
  have := h.month
  have := h.day
  omega

/-- Texts compare as the instants they write. -/
theorem DateTime.isoformat_lt {x y : DateTime} : x.isoformat < y.isoformat ↔ x < y := by
  have hx : x.date.month < 10 ^ 2 ∧ x.date.day < 10 ^ 2 := (ofDays_valid x.days).two_digits
  have hy : y.date.month < 10 ^ 2 ∧ y.date.day < 10 ^ 2 := (ofDays_valid y.days).two_digits
  have sx := x.second_lt
  have sy := y.second_lt
  have hdate : x.date.Lex y.date ↔ x.days < y.days := ofDays_lex_iff _ _
  have heq : x.date = y.date ↔ x.days = y.days := ofDays_inj
  have hpieces : x.isoformat < y.isoformat ↔ x.date.Lex y.date ∨ x.date = y.date ∧
      (x.second < y.second ∨ x.second = y.second ∧ x.microsecond < y.microsecond) := by
    rw [String.lt_iff_toList_lt]
    simp only [isoformat, String.toList_ofList]
    rw [pad_append_lt x.year_lt y.year_lt, cons_lt_cons_same, pad_append_lt hx.1 hy.1, cons_lt_cons_same,
      pad_append_lt hx.2 hy.2, cons_lt_cons_same, pad_append_lt (by omega) (by omega), cons_lt_cons_same,
      pad_append_lt (by omega) (by omega), cons_lt_cons_same, pad_append_lt (by omega) (by omega),
      fraction_lt x.microsecond_lt y.microsecond_lt, Date.Lex, Date.eq_iff]
    omega
  rw [hpieces, hdate, heq, lt_iff, x.micros_eq, y.micros_eq]
  have mx := x.microsecond_lt
  have my := y.microsecond_lt
  unfold DAY_US
  omega

end Calendar
