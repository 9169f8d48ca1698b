import Nivara.Common.DecimalRounding

/-!
# Doubles

A finite double is the rational that it stands for. A number is rounded to the nearest double, and a tie
to the even one; a number too large for a double is not asked for here.

Results:

* `abs_toDouble_sub_le`: between -1 and 1 a rounding changes a number by at most `2⁻⁵⁴`.
-/

namespace Nivara.Binary64

open Decimal

/-- The distance of the doubles of the size of `x`. -/
def quantum (x : ℚ) : ℚ := 2 ^ max (Int.log 2 |x| - 52) (-1074)

/-- The double of a number. -/
def toDouble (x : ℚ) : ℚ := roundHalfEven (x / quantum x) * quantum x

example : toDouble (1 / 10) = 3602879701896397 / 2 ^ 55 := by decide +kernel

theorem quantum_pos (x : ℚ) : 0 < quantum x := zpow_pos (by norm_num) _

theorem abs_roundHalfEven_sub_le (x : ℚ) : |roundHalfEven x - x| ≤ 1 / 2 := by
  have hlow : (roundHalfEven x : ℚ) - x ≤ 1 / 2 := by
    rcases le_roundHalfEven_iff.mp (le_refl (roundHalfEven x)) with hlt | ⟨heq, -⟩ <;> linarith
  have hhigh : x - roundHalfEven x ≤ 1 / 2 := by
    rcases roundHalfEven_le_iff.mp (le_refl (roundHalfEven x)) with hlt | ⟨heq, -⟩ <;> linarith
  exact abs_le.mpr ⟨by linarith, hlow⟩

theorem abs_toDouble_sub_le_quantum (x : ℚ) : |toDouble x - x| ≤ quantum x / 2 := by
  have hpos := quantum_pos x
  have hx : x = x / quantum x * quantum x := (div_mul_cancel₀ x hpos.ne').symm
  have hsplit : toDouble x - x = (roundHalfEven (x / quantum x) - x / quantum x) * quantum x := by
    unfold toDouble
    rw [sub_mul, ← hx]
  rw [hsplit, abs_mul, abs_of_pos hpos]
  have := mul_le_mul_of_nonneg_right (abs_roundHalfEven_sub_le (x / quantum x)) hpos.le
  linarith

/-- A whole number of quanta is a double. -/
theorem toDouble_eq_of_units {x : ℚ} {n : ℤ} (h : x = n * quantum x) : toDouble x = x := by
  have hdiv : x / quantum x = n := by
    rw [div_eq_iff (quantum_pos x).ne']
    exact h
  unfold toDouble
  rw [hdiv, roundHalfEven_intCast]
  exact h.symm

theorem abs_toDouble_sub_le {x : ℚ} (hx : |x| ≤ 1) : |toDouble x - x| ≤ 1 / 2 ^ 54 := by
  rcases eq_or_ne x 0 with rfl | hne
  · rw [toDouble_eq_of_units (n := 0) (by simp)]
    norm_num
  rcases hx.lt_or_eq with hlt | hone
  · have hlog : Int.log 2 |x| < 0 := by
      rw [← Int.lt_zpow_iff_log_lt one_lt_two (abs_pos.mpr hne), zpow_zero]
      exact hlt
    have hquantum : quantum x ≤ 2 ^ (-53 : ℤ) := zpow_le_zpow_right₀ one_le_two (by omega)
    calc |toDouble x - x| ≤ quantum x / 2 := abs_toDouble_sub_le_quantum x
      _ ≤ 2 ^ (-53 : ℤ) / 2 := div_le_div_of_nonneg_right hquantum zero_le_two
      _ = 1 / 2 ^ 54 := by norm_num
  · -- 1 and -1 are doubles
    have hquantum : quantum x = 1 / 2 ^ 52 := by
      have hlog : Int.log 2 (1 : ℚ) = 0 := Int.log_one_right 2
      unfold quantum
      rw [hone, hlog, max_eq_left (by norm_num)]
      norm_num
    have hunits : ∃ n : ℤ, x = n * quantum x := by
      rw [hquantum]
      rcases eq_or_eq_neg_of_abs_eq hone with rfl | rfl
      · exact ⟨2 ^ 52, by norm_num⟩
      · exact ⟨-2 ^ 52, by norm_num⟩
    obtain ⟨n, hn⟩ := hunits
    rw [toDouble_eq_of_units hn]
    norm_num

end Nivara.Binary64
