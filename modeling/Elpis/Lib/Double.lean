import Mathlib.Data.Int.Log
import Mathlib.Data.Rat.Floor
import Mathlib.Tactic

/-!
# Double precision

The double that a rational number is rounded to, as a rational number: the nearest multiple of the unit
in the last place, and of two the even one. Subnormal numbers are included. The exponent has no end
here: a number from `2 ^ 1024` on stands for an infinity.
-/

namespace Elpis.Lib.Double

/-! ## Rounding to a whole number -/

/-- The nearest whole number, of two the even one. -/
def roundEven (q : ℚ) : ℤ :=
  if Int.fract q < 1 / 2 ∨ Int.fract q = 1 / 2 ∧ Even ⌊q⌋ then ⌊q⌋ else ⌊q⌋ + 1

theorem roundEven_cases (q : ℚ) :
    roundEven q = ⌊q⌋ ∧ Int.fract q ≤ 1 / 2 ∨ roundEven q = ⌊q⌋ + 1 ∧ 1 / 2 ≤ Int.fract q := by
  rw [roundEven]
  split
  · rename_i h
    rcases h with h | ⟨h, -⟩
    · exact .inl ⟨rfl, h.le⟩
    · exact .inl ⟨rfl, h.le⟩
  · rename_i h
    rw [not_or, not_lt] at h
    exact .inr ⟨rfl, h.1⟩

theorem abs_roundEven_sub_le (q : ℚ) : |roundEven q - q| ≤ 1 / 2 := by
  have hparts := Int.floor_add_fract q
  have hlow := Int.fract_nonneg q
  have hhigh := Int.fract_lt_one q
  rw [abs_le]
  rcases roundEven_cases q with ⟨h, hhalf⟩ | ⟨h, hhalf⟩
  · rw [h]
    constructor <;> linarith
  · rw [h]
    push_cast
    constructor <;> linarith

/-- A number that is no further than one half away is what is rounded to, if it is even. -/
theorem roundEven_eq_of_even {q : ℚ} {n : ℤ} (hn : Even n) (h : |q - n| ≤ 1 / 2) : roundEven q = n := by
  rw [abs_le] at h
  have hparts := Int.floor_add_fract q
  have hlow := Int.fract_nonneg q
  have hhigh := Int.fract_lt_one q
  by_cases hbelow : (n : ℚ) ≤ q
  · have hfloor : ⌊q⌋ = n := Int.floor_eq_iff.mpr ⟨hbelow, by linarith⟩
    rw [hfloor] at hparts
    have hhalf : Int.fract q ≤ 1 / 2 := by linarith
    rw [roundEven, hfloor, if_pos]
    rcases hhalf.lt_or_eq with hlt | heq
    · exact .inl hlt
    · exact .inr ⟨heq, hn⟩
  · have hfloor : ⌊q⌋ = n - 1 := by
      refine Int.floor_eq_iff.mpr ⟨?_, ?_⟩
      · push_cast
        linarith
      · push_cast
        linarith
    rw [hfloor] at hparts
    push_cast at hparts
    rw [roundEven, hfloor, if_neg, sub_add_cancel]
    rintro (hlt | ⟨-, hodd⟩)
    · linarith
    · exact absurd hn (by simpa [Int.even_sub] using hodd)

@[simp] theorem roundEven_intCast (n : ℤ) : roundEven n = n := by
  simp [roundEven]

/-! ## Doubles -/

/-- The exponent of the unit in the last place of a number of this size. -/
def scale (q : ℚ) : ℤ := max (Int.log 2 |q| - 52) (-1074)

/-- The unit in the last place. -/
def ulp (q : ℚ) : ℚ := 2 ^ scale q

/-- The nearest double. -/
def double (q : ℚ) : ℚ := roundEven (q / ulp q) * ulp q

/-- `Number.isFinite`. -/
def isFinite (q : ℚ) : Bool := decide (|q| < 2 ^ 1024)

theorem ulp_pos (q : ℚ) : 0 < ulp q := zpow_pos two_pos _

theorem scale_le {q : ℚ} {e : ℤ} (he : -1074 ≤ e) (hq : q ≠ 0) (h : |q| < 2 ^ (e + 53)) : scale q ≤ e := by
  have hlog : Int.log 2 |q| < e + 53 := by
    rw [← Int.lt_zpow_iff_log_lt one_lt_two (abs_pos.mpr hq)]
    exact_mod_cast h
  rw [scale, max_le_iff]
  exact ⟨by omega, he⟩

theorem ulp_le_one {q : ℚ} (h : |q| < 2 ^ 53) : ulp q ≤ 1 := by
  rcases eq_or_ne q 0 with rfl | hq
  · exact zpow_le_one_of_nonpos₀ one_le_two (by simp [scale])
  · exact zpow_le_one_of_nonpos₀ one_le_two (scale_le (by decide) hq (by exact_mod_cast h))

/-- What is not too wide for the unit is exact. -/
theorem double_mul_zpow {m e : ℤ} (he : -1074 ≤ e) (hm : |m| < 2 ^ 53) : double (m * 2 ^ e) = m * 2 ^ e := by
  rcases eq_or_ne m 0 with rfl | hne
  · simp [double, roundEven]
  have hpos : (0 : ℚ) < 2 ^ e := zpow_pos two_pos e
  have hscale : scale (m * 2 ^ e) ≤ e := by
    refine scale_le he (mul_ne_zero (by exact_mod_cast hne) hpos.ne') ?_
    have hm' : |(m : ℚ)| < 2 ^ 53 := by exact_mod_cast hm
    rw [abs_mul, abs_of_pos hpos, zpow_add₀ two_ne_zero, mul_comm]
    exact mul_lt_mul_of_pos_left hm' hpos
  obtain ⟨k, hk⟩ := Int.le.dest hscale
  have hquotient : (m * 2 ^ e : ℚ) / ulp (m * 2 ^ e) = ((m * 2 ^ k : ℤ) : ℚ) := by
    rw [div_eq_iff (ulp_pos _).ne', ulp, Int.cast_mul, Int.cast_pow, mul_assoc, Int.cast_ofNat, ← zpow_natCast,
      ← zpow_add₀ two_ne_zero, add_comm (k : ℤ), hk]
  rw [double, hquotient, roundEven_intCast, ← hquotient, div_mul_cancel₀ _ (ulp_pos _).ne']

theorem double_intCast {n : ℤ} (h : |n| < 2 ^ 53) : double n = n := by
  have hexact := double_mul_zpow (e := 0) (by decide) h
  rwa [zpow_zero, mul_one] at hexact

theorem abs_double_sub_le (q : ℚ) : |double q - q| ≤ ulp q / 2 := by
  have hpos := ulp_pos q
  have herror := mul_le_mul_of_nonneg_right (abs_roundEven_sub_le (q / ulp q)) hpos.le
  have hscaled : |(roundEven (q / ulp q) : ℚ) - q / ulp q| * ulp q = |double q - q| := by
    rw [← abs_of_pos hpos, ← abs_mul, abs_of_pos hpos, sub_mul, div_mul_cancel₀ _ hpos.ne', double]
  linarith

/-- A number is rounded to a whole one where it is no further away from one than half a unit in the
last place. -/
theorem double_whole_iff (q : ℚ) : (∃ n : ℤ, double q = n) ↔ ∃ n : ℤ, |q - n| ≤ ulp q / 2 := by
  constructor
  · rintro ⟨n, hn⟩
    refine ⟨n, ?_⟩
    rw [← hn, abs_sub_comm]
    exact abs_double_sub_le q
  · rintro ⟨n, hn⟩
    rcases le_or_gt 0 (scale q) with hscale | hscale
    · -- the unit is whole, and so are its multiples
      obtain ⟨k, hk⟩ := Int.eq_ofNat_of_zero_le hscale
      refine ⟨roundEven (q / ulp q) * 2 ^ k, ?_⟩
      rw [double, ulp, hk, zpow_natCast]
      push_cast
      rfl
    · -- the whole number is an even multiple of the unit
      obtain ⟨k, hk⟩ := Int.eq_ofNat_of_zero_le (show 0 ≤ -scale q - 1 by omega)
      have hunit : ulp q * (2 ^ k * 2) = 1 := by
        rw [ulp, ← pow_succ, ← zpow_natCast, ← zpow_add₀ two_ne_zero]
        have hzero : scale q + ((k + 1 : ℕ) : ℤ) = 0 := by
          push_cast
          omega
        rw [hzero, zpow_zero]
      have hmultiple : (n : ℚ) = ((n * 2 ^ k * 2 : ℤ) : ℚ) * ulp q := by
        push_cast
        linear_combination (-(n : ℚ)) * hunit
      have hnear : |q / ulp q - ((n * 2 ^ k * 2 : ℤ) : ℚ)| ≤ 1 / 2 := by
        have hpos := ulp_pos q
        rw [← mul_le_mul_iff_left₀ hpos, ← abs_of_pos hpos, ← abs_mul, abs_of_pos hpos, sub_mul,
          div_mul_cancel₀ _ hpos.ne', ← hmultiple]
        linarith
      refine ⟨n, ?_⟩
      rw [double, roundEven_eq_of_even ⟨n * 2 ^ k, by ring⟩ hnear, ← hmultiple]

end Elpis.Lib.Double
