import Mathlib.Algebra.Order.Floor.Ring
import Mathlib.Data.Int.Log
import Mathlib.Data.Rat.Floor
import Mathlib.Tactic.Positivity
import Mathlib.Tactic.Linarith
import Mathlib.Tactic.FieldSimp

/-!
# Floating-point numbers of 53 bits

`double x` is the number with 53 significant bits that is nearest to `x`, of two the even one: what an operation of
a `double` gives for the exact result `x`, as long as its exponent is in range. A result that has 53 bits is exact
(`double_of_bits`), and any other one has a relative error of at most `2 ^ -53` (`abs_double_sub_le`).
-/

namespace UnixNetProg.Lib

/-- The nearest integer, of two the even one. -/
def roundEven (x : ℚ) : ℤ :=
  if x - ⌊x⌋ < 1 / 2 then ⌊x⌋
  else if 1 / 2 < x - ⌊x⌋ then ⌊x⌋ + 1
  else if ⌊x⌋ % 2 = 0 then ⌊x⌋
  else ⌊x⌋ + 1

/-- The exponent of the last of 53 bits. -/
def lastBit (x : ℚ) : ℤ := Int.log 2 |x| - 52

def double (x : ℚ) : ℚ := roundEven (x / 2 ^ lastBit x) * 2 ^ lastBit x

theorem roundEven_intCast (n : ℤ) : roundEven n = n := by
  rw [roundEven, Int.floor_intCast, sub_self, if_pos (by norm_num)]

theorem abs_roundEven_sub_le (x : ℚ) : |(roundEven x : ℚ) - x| ≤ 1 / 2 := by
  have hlo := Int.floor_le x
  have hhi := Int.lt_floor_add_one x
  rw [roundEven, abs_le]
  split_ifs with h₁ h₂ h₃
  · constructor <;> linarith
  · push_cast
    constructor <;> linarith
  · constructor <;> linarith
  · push_cast
    constructor <;> linarith

theorem two_zpow_pos (k : ℤ) : (0 : ℚ) < 2 ^ k := zpow_pos (by norm_num) k

/-- The error is at most half of the last bit, so it is small. -/
theorem abs_double_sub_le (x : ℚ) : |double x - x| ≤ |x| / 2 ^ 53 := by
  by_cases hx : x = 0
  · rw [hx, double, zero_div, ← Int.cast_zero, roundEven_intCast]
    simp
  have hpos := two_zpow_pos (lastBit x)
  have hbit : (2 : ℚ) ^ lastBit x ≤ |x| / 2 ^ 52 := by
    have hlog : (2 : ℚ) ^ Int.log 2 |x| ≤ |x| := by
      exact_mod_cast Int.zpow_log_le_self (b := 2) (by norm_num) (abs_pos.mpr hx)
    rw [lastBit, zpow_sub₀ (by norm_num)]
    exact div_le_div_of_nonneg_right hlog (by norm_num)
  have herror : double x - x = (roundEven (x / 2 ^ lastBit x) - x / 2 ^ lastBit x) * 2 ^ lastBit x := by
    rw [double, sub_mul, div_mul_cancel₀ x hpos.ne']
  rw [herror, abs_mul, abs_of_pos hpos]
  calc |(roundEven (x / 2 ^ lastBit x) : ℚ) - x / 2 ^ lastBit x| * 2 ^ lastBit x
      ≤ 1 / 2 * (|x| / 2 ^ 52) := mul_le_mul (abs_roundEven_sub_le _) hbit hpos.le (by norm_num)
    _ = |x| / 2 ^ 53 := by ring

theorem double_of_bits {m k : ℤ} (hm : |m| < 2 ^ 53) : double (m * 2 ^ k) = m * 2 ^ k := by
  by_cases hzero : m = 0
  · rw [hzero, Int.cast_zero, zero_mul, double, zero_div, ← Int.cast_zero, roundEven_intCast, Int.cast_zero, zero_mul]
  have hpos := two_zpow_pos k
  have hbits : lastBit (m * 2 ^ k) ≤ k := by
    have hlt : |(m : ℚ) * 2 ^ k| < 2 ^ (53 + k) := by
      rw [abs_mul, abs_of_pos hpos, zpow_add₀ (by norm_num)]
      refine mul_lt_mul_of_pos_right ?_ hpos
      exact_mod_cast hm
    have hne : 0 < |(m : ℚ) * 2 ^ k| := abs_pos.mpr (mul_ne_zero (Int.cast_ne_zero.mpr hzero) hpos.ne')
    have hlog : Int.log 2 |(m : ℚ) * 2 ^ k| < 53 + k :=
      (Int.lt_zpow_iff_log_lt (b := 2) (by norm_num) hne).mp (by exact_mod_cast hlt)
    rw [lastBit]
    omega
  obtain ⟨j, hj⟩ := Int.le.dest hbits
  have hscaled : (m : ℚ) * 2 ^ k / 2 ^ lastBit (m * 2 ^ k) = ((m * 2 ^ j : ℤ) : ℚ) := by
    rw [div_eq_iff (two_zpow_pos _).ne', Int.cast_mul, Int.cast_pow, Int.cast_ofNat, mul_assoc, ← zpow_natCast,
      ← zpow_add₀ (by norm_num), add_comm (j : ℤ), hj]
  rw [double, hscaled, roundEven_intCast, ← hscaled, div_mul_cancel₀ _ (two_zpow_pos _).ne']

theorem double_intCast {m : ℤ} (hm : |m| < 2 ^ 53) : double m = m := by
  have hbits := double_of_bits hm (k := 0)
  rw [zpow_zero, mul_one] at hbits
  exact hbits

end UnixNetProg.Lib
