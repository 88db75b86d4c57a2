import Mathlib.Algebra.Order.Field.Power
import Mathlib.Data.Rat.Floor
import Mathlib.Tactic.Linarith
import Mathlib.Tactic.Positivity
import Wardence.Lib.Python
/-!
# Rounding to a double

What `toDouble` loses: at most half a unit in the last place. It keeps the
order, a factor of two passes through it away from the subnormals, and a whole
number below `2 ^ 53` times a power of two is a double already.
-/
namespace Py

variable {q x y : ℚ}

theorem ilog2_spec (h : 0 < q) : (2 : ℚ) ^ ilog2 q ≤ q ∧ q < (2 : ℚ) ^ (ilog2 q + 1) := by
  have hnum : 0 < q.num := Rat.num_pos.2 h
  have hn : q.num.natAbs ≠ 0 := by omega
  have hden : (0 : ℚ) < q.den := by exact_mod_cast q.den_pos
  have hq : q * q.den = (q.num.natAbs : ℚ) := by
    have : ((q.num.natAbs : Int) : ℚ) = q.num := by rw [Int.natAbs_of_nonneg hnum.le]
    rw [Rat.mul_den_eq_num, ← this, Int.cast_natCast]
  have hnle : (2 : ℚ) ^ Nat.log2 q.num.natAbs ≤ q.num.natAbs := by exact_mod_cast Nat.log2_self_le hn
  have hnlt : (q.num.natAbs : ℚ) < 2 ^ (Nat.log2 q.num.natAbs + 1) := by exact_mod_cast Nat.lt_log2_self
  have hdle : (2 : ℚ) ^ Nat.log2 q.den ≤ q.den := by exact_mod_cast Nat.log2_self_le q.den_nz
  have hdlt : (q.den : ℚ) < 2 ^ (Nat.log2 q.den + 1) := by exact_mod_cast Nat.lt_log2_self
  unfold ilog2
  generalize Nat.log2 q.num.natAbs = a at hnle hnlt ⊢
  generalize Nat.log2 q.den = b at hdle hdlt ⊢
  -- the quotient of the leading bits is off by less than a factor of two, either way
  have hlow : (2 : ℚ) ^ ((a : Int) - b - 1) ≤ q := by
    rw [show (a : Int) - b - 1 = a - (b + 1 : Nat) by push_cast; ring, zpow_sub₀ two_ne_zero, zpow_natCast, zpow_natCast,
      div_le_iff₀ (by positivity)]
    calc (2 : ℚ) ^ a ≤ q * q.den := hq ▸ hnle
      _ ≤ q * 2 ^ (b + 1) := mul_le_mul_of_nonneg_left hdlt.le h.le
  have hhigh : q < (2 : ℚ) ^ ((a : Int) - b + 1) := by
    rw [show (a : Int) - b + 1 = (a + 1 : Nat) - b by push_cast; ring, zpow_sub₀ two_ne_zero, zpow_natCast, zpow_natCast,
      lt_div_iff₀ (by positivity)]
    calc q * 2 ^ b ≤ q * q.den := mul_le_mul_of_nonneg_left hdle h.le
      _ < 2 ^ (a + 1) := hq ▸ hnlt
  dsimp only
  split
  · rename_i hlt
    exact ⟨hlow, by rwa [sub_add_cancel]⟩
  · rename_i hge
    exact ⟨not_lt.1 hge, hhigh⟩

theorem ilog2_unique (h : 0 < q) {e : Int} (hl : (2 : ℚ) ^ e ≤ q) (hu : q < (2 : ℚ) ^ (e + 1)) : ilog2 q = e := by
  obtain ⟨hl', hu'⟩ := ilog2_spec h
  have h₁ := (zpow_lt_zpow_iff_right₀ (one_lt_two : (1 : ℚ) < 2)).1 (hl.trans_lt hu')
  have h₂ := (zpow_lt_zpow_iff_right₀ (one_lt_two : (1 : ℚ) < 2)).1 (hl'.trans_lt hu)
  omega

theorem ilog2_mono (h : 0 < x) (hxy : x ≤ y) : ilog2 x ≤ ilog2 y := by
  have := (zpow_lt_zpow_iff_right₀ (one_lt_two : (1 : ℚ) < 2)).1
    (((ilog2_spec h).1.trans hxy).trans_lt (ilog2_spec (h.trans_le hxy)).2)
  omega

theorem ilog2_scale (h : 0 < q) (k : Int) : ilog2 (q * 2 ^ k) = ilog2 q + k := by
  have hk : (0 : ℚ) < 2 ^ k := by positivity
  obtain ⟨hl, hu⟩ := ilog2_spec h
  refine ilog2_unique (mul_pos h hk) ?_ ?_
  · rw [zpow_add₀ two_ne_zero]
    exact mul_le_mul_of_nonneg_right hl hk.le
  · rw [add_right_comm, zpow_add₀ two_ne_zero]
    exact mul_lt_mul_of_pos_right hu hk

/-! ## To the nearest integer -/

theorem roundHalfEven_int (k : Int) : roundHalfEven k = k := by simp [roundHalfEven]

theorem roundHalfEven_cases (q : ℚ) : (roundHalfEven q = ⌊q⌋ ∧ q - ⌊q⌋ ≤ 1 / 2) ∨
    (roundHalfEven q = ⌊q⌋ + 1 ∧ 1 / 2 ≤ q - ⌊q⌋) := by
  unfold roundHalfEven
  split
  · rename_i h; exact .inl ⟨rfl, h.le⟩
  · rename_i h
    split
    · rename_i h'; exact .inr ⟨rfl, h'.le⟩
    · rename_i h'
      split
      · exact .inl ⟨rfl, not_lt.1 h'⟩
      · exact .inr ⟨rfl, not_lt.1 h⟩

theorem roundHalfEven_error (q : ℚ) : |roundHalfEven q - q| ≤ 1 / 2 := by
  have hlt := Int.lt_floor_add_one q
  rcases roundHalfEven_cases q with ⟨h, hq⟩ | ⟨h, hq⟩
  · rw [h, abs_le]
    exact ⟨by linarith, by linarith [Int.floor_le q]⟩
  · rw [h, Int.cast_add, Int.cast_one, abs_le]
    exact ⟨by linarith, by linarith⟩

theorem roundHalfEven_mono (h : x ≤ y) : roundHalfEven x ≤ roundHalfEven y := by
  have hf : ⌊x⌋ ≤ ⌊y⌋ := Int.floor_le_floor h
  rcases hf.lt_or_eq with hlt | heq
  · rcases roundHalfEven_cases x with ⟨hx, -⟩ | ⟨hx, -⟩ <;> rcases roundHalfEven_cases y with ⟨hy, -⟩ | ⟨hy, -⟩ <;> omega
  · -- the same floor: whatever sends `x` up sends `y` up
    have hxy : x - ⌊y⌋ ≤ y - ⌊y⌋ := by linarith
    unfold roundHalfEven
    rw [heq]
    split_ifs <;> first | omega | (exfalso; linarith)

/-! ## To the nearest double -/

/-- The exponent of the last place. -/
def lastPlace (q : ℚ) : Int := max (ilog2 q - 52) (-1074)

theorem toDouble_pos (h : 0 < q) : toDouble q = roundHalfEven (q / 2 ^ lastPlace q) * 2 ^ lastPlace q := by
  rw [toDouble, if_neg (not_le.2 h)]
  rfl

theorem toDouble_zero : toDouble 0 = 0 := rfl

theorem toDouble_nonneg (q : ℚ) : 0 ≤ toDouble q := by
  rcases le_or_gt q 0 with h | h
  · rw [toDouble, if_pos h]
  · have := roundHalfEven_mono (x := 0) (y := q / 2 ^ lastPlace q) (by positivity)
    rw [toDouble_pos h]
    have h0 : roundHalfEven 0 = 0 := by simpa using roundHalfEven_int 0
    rw [h0] at this
    have : (0 : ℚ) ≤ roundHalfEven (q / 2 ^ lastPlace q) := by exact_mod_cast this
    positivity

/-- Half a unit in the last place: `2 ^ -53` of the value, or half the least double. -/
theorem toDouble_error (h : 0 ≤ q) : |toDouble q - q| ≤ q / 2 ^ 53 + 2 ^ (-1075 : Int) := by
  have htiny : (0 : ℚ) ≤ 2 ^ (-1075 : Int) := zpow_nonneg zero_le_two _
  have hpart : 0 ≤ q / 2 ^ 53 := div_nonneg h (by norm_num)
  rcases h.eq_or_lt with rfl | hq
  · rw [toDouble_zero, sub_zero, abs_zero]
    exact add_nonneg hpart htiny
  have he : (0 : ℚ) < 2 ^ lastPlace q := by positivity
  have hround : |toDouble q - q| ≤ 2 ^ lastPlace q * (1 / 2) := by
    have hsplit : toDouble q - q = 2 ^ lastPlace q * (roundHalfEven (q / 2 ^ lastPlace q) - q / 2 ^ lastPlace q) := by
      rw [toDouble_pos hq, mul_sub, mul_div_cancel₀ _ he.ne', mul_comm]
    rw [hsplit, abs_mul, abs_of_pos he]
    exact mul_le_mul_of_nonneg_left (roundHalfEven_error _) he.le
  refine hround.trans ?_
  rcases max_choice (ilog2 q - 52) (-1074) with hm | hm
  · refine le_add_of_le_of_nonneg ?_ htiny
    calc (2 : ℚ) ^ lastPlace q * (1 / 2) = 2 ^ ilog2 q / 2 ^ 53 := by
          rw [lastPlace, hm, zpow_sub₀ two_ne_zero]; norm_num; ring
      _ ≤ q / 2 ^ 53 := div_le_div_of_nonneg_right (ilog2_spec hq).1 (by norm_num)
  · refine le_add_of_nonneg_of_le hpart (le_of_eq ?_)
    rw [lastPlace, hm, show (-1074 : Int) = -1075 + 1 from rfl, zpow_add_one₀ two_ne_zero]
    generalize (2 : ℚ) ^ (-1075 : Int) = t
    ring

theorem toDouble_mono (h : x ≤ y) : toDouble x ≤ toDouble y := by
  rcases le_or_gt x 0 with hx | hx
  · rw [toDouble, if_pos hx]; exact toDouble_nonneg y
  have hy := hx.trans_le h
  have hlog := ilog2_mono hx h
  rw [toDouble_pos hx, toDouble_pos hy]
  rcases eq_or_ne (lastPlace x) (lastPlace y) with he | he
  · rw [he]
    have := roundHalfEven_mono (div_le_div_of_nonneg_right h (show (0 : ℚ) ≤ 2 ^ lastPlace y by positivity))
    exact mul_le_mul_of_nonneg_right (by exact_mod_cast this) (by positivity)
  · -- a power of two lies between, at which both are exact
    have hlt : lastPlace x < lastPlace y := lt_of_le_of_ne (by unfold lastPlace; omega) he
    have hey : ilog2 y - 52 = lastPlace y := by unfold lastPlace at hlt ⊢; omega
    have hex : ilog2 x + 1 ≤ lastPlace x + 53 := by unfold lastPlace; omega
    have hup : roundHalfEven (x / 2 ^ lastPlace x) ≤ 2 ^ 53 := by
      have hle : x / 2 ^ lastPlace x ≤ ((2 ^ 53 : Int) : ℚ) := by
        rw [div_le_iff₀ (by positivity)]
        calc x ≤ 2 ^ (ilog2 x + 1) := (ilog2_spec hx).2.le
          _ ≤ 2 ^ (lastPlace x + 53) := zpow_le_zpow_right₀ one_le_two hex
          _ = ((2 ^ 53 : Int) : ℚ) * 2 ^ lastPlace x := by rw [zpow_add₀ two_ne_zero, mul_comm]; norm_cast
      simpa only [roundHalfEven_int] using roundHalfEven_mono hle
    have hdown : 2 ^ 52 ≤ roundHalfEven (y / 2 ^ lastPlace y) := by
      have hle : ((2 ^ 52 : Int) : ℚ) ≤ y / 2 ^ lastPlace y := by
        rw [le_div_iff₀ (by positivity)]
        calc ((2 ^ 52 : Int) : ℚ) * 2 ^ lastPlace y = 2 ^ (lastPlace y + 52) := by
              rw [zpow_add₀ two_ne_zero, mul_comm]; norm_cast
          _ = 2 ^ ilog2 y := by rw [← hey, sub_add_cancel]
          _ ≤ y := (ilog2_spec hy).1
      simpa only [roundHalfEven_int] using roundHalfEven_mono hle
    calc (roundHalfEven (x / 2 ^ lastPlace x) : ℚ) * 2 ^ lastPlace x
        ≤ 2 ^ 53 * 2 ^ lastPlace x := mul_le_mul_of_nonneg_right (by exact_mod_cast hup) (by positivity)
      _ = 2 ^ (lastPlace x + 1 + 52) := by
          rw [show lastPlace x + 1 + 52 = lastPlace x + 53 by ring, zpow_add₀ two_ne_zero, mul_comm]; norm_cast
      _ ≤ 2 ^ (lastPlace y + 52) := zpow_le_zpow_right₀ one_le_two (by omega)
      _ = 2 ^ 52 * 2 ^ lastPlace y := by rw [zpow_add₀ two_ne_zero, mul_comm]; norm_cast
      _ ≤ roundHalfEven (y / 2 ^ lastPlace y) * 2 ^ lastPlace y :=
          mul_le_mul_of_nonneg_right (by exact_mod_cast hdown) (by positivity)

/-- A factor of two passes through the rounding of a normal double. -/
theorem toDouble_scale {k : Int} (h : 0 < q) (hn : -1022 ≤ ilog2 q) (hk : -1022 ≤ ilog2 q + k) :
    toDouble (q * 2 ^ k) = toDouble q * 2 ^ k := by
  have hpos : (0 : ℚ) < 2 ^ k := by positivity
  have he : lastPlace (q * 2 ^ k) = lastPlace q + k := by
    unfold lastPlace
    rw [ilog2_scale h]
    omega
  rw [toDouble_pos (mul_pos h hpos), toDouble_pos h, he, zpow_add₀ two_ne_zero, mul_div_mul_right _ _ hpos.ne', mul_assoc]

theorem toDouble_exact {n : Nat} {k : Int} (hn : n < 2 ^ 53) (hk : -1074 ≤ k) :
    toDouble (n * 2 ^ k) = n * 2 ^ k := by
  rcases Nat.eq_zero_or_pos n with rfl | hpos
  · simp [toDouble_zero]
  have hq : (0 : ℚ) < n := by exact_mod_cast hpos
  have hlt : ilog2 (n : ℚ) < 53 := by
    refine (zpow_lt_zpow_iff_right₀ (one_lt_two : (1 : ℚ) < 2)).1 ((ilog2_spec hq).1.trans_lt ?_)
    exact_mod_cast hn
  have hle : lastPlace (n * 2 ^ k) ≤ k := by
    unfold lastPlace
    rw [ilog2_scale hq]
    omega
  obtain ⟨j, hj⟩ := Int.le.dest hle
  have hint : (n : ℚ) * 2 ^ k / 2 ^ lastPlace (n * 2 ^ k) = ((n * 2 ^ j : Int) : ℚ) := by
    rw [mul_div_assoc, ← zpow_sub₀ two_ne_zero, show k - lastPlace (n * 2 ^ k) = j by omega]
    norm_cast
  rw [toDouble_pos (by positivity), hint, roundHalfEven_int, ← hint, div_mul_cancel₀ _ (by positivity)]

theorem toDouble_nat {n : Nat} (hn : n < 2 ^ 53) : toDouble n = n := by
  simpa using toDouble_exact (k := 0) hn (by norm_num)

/-! ## A product -/

/-- A number rounded to a double, times a factor, rounded again. -/
theorem mulDouble_error {n f : ℚ} (hn : 0 ≤ n) (hf : 0 ≤ f) (hf' : f ≤ 2 ^ 20) :
    |mulDouble (toDouble n) f - n * f| ≤ n * f / 2 ^ 51 + 2 ^ (-1000 : Int) := by
  have htiny : (2 : ℚ) ^ (-1000 : Int) = 2 ^ (-1075 : Int) * 2 ^ 75 := by
    rw [← zpow_natCast, ← zpow_add₀ two_ne_zero]; rfl
  have h₁ := toDouble_error hn
  have h₂ := toDouble_error (mul_nonneg (toDouble_nonneg n) hf)
  have ht : (0 : ℚ) ≤ 2 ^ (-1075 : Int) := zpow_nonneg zero_le_two _
  rw [htiny, mulDouble]
  generalize (2 : ℚ) ^ (-1075 : Int) = t at h₁ h₂ ht
  have hx : 0 ≤ n * f := mul_nonneg hn hf
  have htf : t * f ≤ t * 2 ^ 20 := mul_le_mul_of_nonneg_left hf' ht
  rw [abs_le] at h₁ h₂ ⊢
  have hup := mul_le_mul_of_nonneg_right h₁.2 hf
  have hdown := mul_le_mul_of_nonneg_right h₁.1 hf
  rw [sub_mul, add_mul, div_mul_eq_mul_div] at hup
  rw [sub_mul, neg_mul, add_mul, div_mul_eq_mul_div] at hdown
  constructor <;> linarith

theorem mulDouble_exact {n : Nat} {k : Int} (hn : n < 2 ^ 53) (hk : -1074 ≤ k) :
    mulDouble (toDouble n) (2 ^ k) = n * 2 ^ k := by rw [mulDouble, toDouble_nat hn, toDouble_exact hn hk]

/-- A double below a rounded number of some power of two is below the number itself. -/
theorem lt_of_lt_mulDouble {n f : ℚ} {k : Int} (hf : toDouble f = f) (h1 : 1 ≤ f) (hk : k ≤ 1022)
    (h : f < mulDouble (toDouble n) (2 ^ k)) : f < n * 2 ^ k := by
  have hpos : 0 < f := one_pos.trans_le h1
  have hlog : 0 ≤ ilog2 f := by
    have := ilog2_mono one_pos h1
    rwa [ilog2_unique one_pos (e := 0) (by norm_num) (by norm_num)] at this
  by_contra hle
  have hn : n ≤ f * 2 ^ (-k) := by
    rw [zpow_neg, ← div_eq_mul_inv, le_div_iff₀ (by positivity)]
    exact not_lt.1 hle
  have hd : toDouble n ≤ f * 2 ^ (-k) := by
    have := toDouble_mono hn
    rwa [toDouble_scale hpos (by omega) (by omega), hf] at this
  have hm : toDouble n * 2 ^ k ≤ f := by
    rwa [zpow_neg, ← div_eq_mul_inv, le_div_iff₀ (by positivity)] at hd
  exact absurd h (not_lt.2 (hf ▸ toDouble_mono hm))

end Py
