import Nivara.Common.DecimalRounding
import Nivara.Common.DecimalText

/-!
# Arithmetic that can signal

The operations of Python's default context with what they raise: 28 digits, exponents from -999999 to
999999, and traps for `InvalidOperation`, `DivisionByZero` and `Overflow`.

* A number is a rational or an infinity; the sign of a zero is lost. `quantize` gives a result with its
  representation.
* A `NaN` is refused by the comparisons that stand before the arithmetic here.

Results:

* `rounded_eq_of_exact`, `rounded_le_of_le`, `le_rounded_of_le`: no rounding passes a value of at most
  28 digits.
* `le_rounded_iff`, `rounded_le_pred`: which values are rounded up to a given one, and what lies below it.
* `fix_eq_ok_iff`, `quantize_eq_ok_iff`: when nothing is signalled.
-/

namespace Nivara.Decimal

/-! ## Model -/

/-- A trapped signal. -/
inductive Signal
  | invalidOperation
  | divisionByZero
  | overflow
  deriving DecidableEq, Repr

/-- A `Decimal` that is no `NaN`. -/
inductive Number
  | finite (x : ℚ)
  | infinity (negative : Bool)
  deriving DecidableEq, Repr

/-- The exponent of the last digit of `x`; that of the smallest number, `Etiny`, is the least. -/
def lastExponent (x : ℚ) : ℤ := max (Int.log 10 |x| - 27) (-1000026)

/-- `x`, rounded to the digits of the context. -/
def rounded (x : ℚ) : ℚ := roundHalfEven (x / 10 ^ lastExponent x) * 10 ^ lastExponent x

/-- `_fix`: the result of an operation whose exact value is `x`. -/
def fix (x : ℚ) : Except Signal ℚ :=
  if 999999 < Int.log 10 |rounded x| then .error .overflow else .ok (rounded x)

namespace Number

/-- `a / b`. -/
def divide : Number → Number → Except Signal Number
  | finite x, finite y =>
    if y = 0 then .error (if x = 0 then .invalidOperation else .divisionByZero) else finite <$> fix (x / y)
  | finite _, infinity _ => .ok (finite 0)
  | infinity negative, finite y => .ok (infinity (negative ^^ (y < 0)))
  | infinity _, infinity _ => .error .invalidOperation

/-- `a * b`. -/
def multiply : Number → Number → Except Signal Number
  | finite x, finite y => finite <$> fix (x * y)
  | finite x, infinity negative | infinity negative, finite x =>
    if x = 0 then .error .invalidOperation else .ok (infinity (negative ^^ (x < 0)))
  | infinity negative, infinity negative' => .ok (infinity (negative ^^ negative'))

/-- `a - b`. -/
def subtract : Number → Number → Except Signal Number
  | finite x, finite y => finite <$> fix (x - y)
  | finite _, infinity negative => .ok (infinity !negative)
  | infinity negative, finite _ => .ok (infinity negative)
  | infinity negative, infinity negative' =>
    if negative = negative' then .error .invalidOperation else .ok (infinity negative)

/-- `a.quantize(Decimal("0.1"))`. -/
def quantize : Number → Except Signal FiniteDecimal
  | finite x =>
    let coefficient := (roundHalfEven (|x| * 10)).toNat
    if coefficient < 10 ^ 28 then .ok ⟨x < 0, coefficient, -1⟩ else .error .invalidOperation
  | infinity _ => .error .invalidOperation

end Number

example : Number.quantize (.finite (-1 / 1000)) = .ok ⟨true, 0, -1⟩ := by decide +kernel

/-! ## Roundings -/

theorem roundHalfEven_neg (x : ℚ) : roundHalfEven (-x) = -roundHalfEven x := by
  refine le_antisymm ?_ ?_
  · rw [roundHalfEven_le_iff]
    rcases le_roundHalfEven_iff.mp (le_refl (roundHalfEven x)) with hlt | ⟨heq, heven⟩
    · exact .inl (by push_cast; linarith)
    · exact .inr ⟨by push_cast; linarith, by omega⟩
  · rw [le_roundHalfEven_iff]
    rcases roundHalfEven_le_iff.mp (le_refl (roundHalfEven x)) with hlt | ⟨heq, heven⟩
    · exact .inl (by push_cast; linarith)
    · exact .inr ⟨by push_cast; linarith, by omega⟩

theorem lastExponent_neg (x : ℚ) : lastExponent (-x) = lastExponent x := by
  unfold lastExponent
  rw [abs_neg]

theorem rounded_neg (x : ℚ) : rounded (-x) = -rounded x := by
  unfold rounded
  rw [lastExponent_neg, neg_div, roundHalfEven_neg]
  push_cast
  ring

/-- The context has no rounding to make: 28 digits, none of them below the smallest number. -/
def Exact (y : ℚ) : Prop := ∃ k e : ℤ, |k| ≤ 10 ^ 28 ∧ -1000026 ≤ e ∧ y = k * 10 ^ e

theorem unit_pos (e : ℤ) : (0 : ℚ) < 10 ^ e := zpow_pos (by norm_num) e

theorem Exact.neg {y : ℚ} (h : Exact y) : Exact (-y) := by
  obtain ⟨k, e, hk, he, rfl⟩ := h
  exact ⟨-k, e, by rwa [abs_neg], he, by push_cast; ring⟩

/-- A whole number of the units of `x` that is not above `x` is not above its rounding. -/
theorem units_le_rounded {x : ℚ} {m : ℤ} (h : m * 10 ^ lastExponent x ≤ x) :
    m * 10 ^ lastExponent x ≤ rounded x := by
  have hle : (m : ℚ) ≤ x / 10 ^ lastExponent x := (le_div_iff₀ (unit_pos _)).mpr h
  have hround : m ≤ roundHalfEven (x / 10 ^ lastExponent x) := by
    rw [← roundHalfEven_intCast m]
    exact roundHalfEven_mono hle
  exact mul_le_mul_of_nonneg_right (Int.cast_le.mpr hround) (unit_pos _).le

theorem zpow_le_of_log {x : ℚ} (hx : x ≠ 0) : (10 : ℚ) ^ Int.log 10 |x| ≤ |x| := by
  exact_mod_cast Int.zpow_log_le_self (b := 10) (by norm_num) (abs_pos.mpr hx)

/-- A power of ten is a whole number of smaller ones. -/
theorem exists_units {d e : ℤ} (h : d ≤ e) : ∃ m : ℤ, (10 : ℚ) ^ e = m * 10 ^ d := by
  refine ⟨10 ^ (e - d).toNat, ?_⟩
  push_cast
  rw [← zpow_natCast, ← zpow_add₀ (by norm_num)]
  congr 1
  omega

/-- A rounding does not fall below a value of 28 digits. -/
theorem le_rounded_of_le {x y : ℚ} (hy : Exact y) (h : y ≤ x) : y ≤ rounded x := by
  obtain ⟨k, e, hk, he, rfl⟩ := hy
  rcases le_or_gt (lastExponent x) e with hunits | hunits
  · -- the value is a whole number of the units of `x`
    obtain ⟨m, hm⟩ := exists_units hunits
    have hwhole : (k : ℚ) * 10 ^ e = (k * m : ℤ) * 10 ^ lastExponent x := by
      rw [hm]
      push_cast
      ring
    rw [hwhole] at h ⊢
    exact units_le_rounded h
  · -- it has its last digit below that of `x`, and so it is not above the first digit of `x`
    have hlast : lastExponent x = Int.log 10 |x| - 27 := by
      unfold lastExponent at hunits ⊢
      omega
    obtain ⟨m, hm⟩ := exists_units (show lastExponent x ≤ Int.log 10 |x| by omega)
    have hbound : |(k : ℚ) * 10 ^ e| ≤ 10 ^ Int.log 10 |x| := by
      have hcast : |(k : ℚ)| ≤ 10 ^ 28 := by exact_mod_cast hk
      calc |(k : ℚ) * 10 ^ e| = |(k : ℚ)| * 10 ^ e := by rw [abs_mul, abs_of_pos (unit_pos e)]
        _ ≤ 10 ^ (28 : ℤ) * 10 ^ e := mul_le_mul_of_nonneg_right (by exact_mod_cast hcast) (unit_pos e).le
        _ = 10 ^ (28 + e) := (zpow_add₀ (by norm_num) _ _).symm
        _ ≤ 10 ^ Int.log 10 |x| := zpow_le_zpow_right₀ (by norm_num) (by omega)
    rcases lt_trichotomy x 0 with hx | rfl | hx
    · have hfirst : x ≤ -10 ^ Int.log 10 |x| := by
        have := zpow_le_of_log hx.ne
        rw [abs_of_neg hx] at this ⊢
        linarith
      have hsame : x = (-m : ℤ) * 10 ^ lastExponent x := by
        have hlow := (abs_le.mp hbound).1
        push_cast
        linarith
      calc (k : ℚ) * 10 ^ e ≤ x := h
        _ = (-m : ℤ) * 10 ^ lastExponent x := hsame
        _ ≤ rounded x := units_le_rounded hsame.ge
    · have hzero := units_le_rounded (x := 0) (m := 0) (by simp)
      rw [Int.cast_zero, zero_mul] at hzero
      exact h.trans hzero
    · have hfirst : (m : ℚ) * 10 ^ lastExponent x ≤ x := by
        rw [← hm]
        exact (zpow_le_of_log hx.ne').trans_eq (abs_of_pos hx)
      exact ((le_abs_self _).trans hbound).trans (hm ▸ units_le_rounded hfirst)

theorem rounded_le_of_le {x y : ℚ} (hy : Exact y) (h : x ≤ y) : rounded x ≤ y := by
  have hneg := le_rounded_of_le hy.neg (neg_le_neg h)
  rw [rounded_neg] at hneg
  exact neg_le_neg_iff.mp hneg

/-- A value of 28 digits is its own rounding. -/
theorem rounded_eq_of_exact {y : ℚ} (hy : Exact y) : rounded y = y :=
  le_antisymm (rounded_le_of_le hy le_rfl) (le_rounded_of_le hy le_rfl)

/-! ## Neighbours -/

section Neighbours

variable {x : ℚ} {d k : ℤ}

theorem exact_zpow {e : ℤ} (he : -1000026 ≤ e) : Exact (10 ^ e) :=
  ⟨1, e, by norm_num, he, by simp⟩

theorem zpow_eq_units (d : ℤ) (n : ℕ) : (10 : ℚ) ^ (d + n) = 10 ^ n * 10 ^ d := by
  rw [zpow_add₀ (by norm_num), zpow_natCast, mul_comm]

theorem lastExponent_of_mem (hd : -1000026 ≤ d) (hlo : (10 : ℚ) ^ (d + 27) ≤ x)
    (hhi : x < 10 ^ (d + 27 + 1)) : lastExponent x = d := by
  have hpos : 0 < x := (unit_pos _).trans_le hlo
  have hlog : Int.log 10 x = d + 27 := by
    apply le_antisymm
    · exact Int.lt_add_one_iff.mp ((Int.lt_zpow_iff_log_lt (by norm_num) hpos).mp (by exact_mod_cast hhi))
    · exact (Int.zpow_le_iff_le_log (by norm_num) hpos).mp (by exact_mod_cast hlo)
  unfold lastExponent
  rw [abs_of_pos hpos, hlog]
  omega

/-- Within the numbers of 28 digits with the last one at `d` a rounding is to a whole number of units. -/
theorem rounded_cases (hd : -1000026 ≤ d) (x : ℚ) :
    (x < 10 ^ 27 * 10 ^ d ∧ rounded x ≤ 10 ^ 27 * 10 ^ d) ∨
      rounded x = roundHalfEven (x / 10 ^ d) * 10 ^ d ∨
        (10 ^ 28 * 10 ^ d ≤ x ∧ 10 ^ 28 * 10 ^ d ≤ rounded x) := by
  have hpow27 : (10 : ℚ) ^ (d + 27) = 10 ^ 27 * 10 ^ d := by exact_mod_cast zpow_eq_units d 27
  have hpow28 : (10 : ℚ) ^ (d + 27 + 1) = 10 ^ 28 * 10 ^ d := by
    rw [show d + 27 + 1 = d + (28 : ℕ) by push_cast; ring]
    exact zpow_eq_units d 28
  rw [← hpow27, ← hpow28]
  rcases lt_or_ge x (10 ^ (d + 27)) with hbelow | hfrom
  · exact .inl ⟨hbelow, rounded_le_of_le (exact_zpow (e := d + 27) (by omega)) hbelow.le⟩
  rcases lt_or_ge x (10 ^ (d + 27 + 1)) with hwithin | habove
  · have hlast := lastExponent_of_mem hd hfrom hwithin
    refine .inr (.inl ?_)
    unfold rounded
    rw [hlast]
  · exact .inr (.inr ⟨habove, le_rounded_of_le (exact_zpow (e := d + 27 + 1) (by omega)) habove⟩)

/-- Which values are rounded up to one of 28 digits that is even. -/
theorem le_rounded_iff (hd : -1000026 ≤ d) (heven : k % 2 = 0) (hlo : 10 ^ 27 < k) (hhi : k ≤ 10 ^ 28) :
    k * 10 ^ d ≤ rounded x ↔ (k - 1 / 2) * 10 ^ d ≤ x := by
  have hunit := unit_pos d
  have hloq : (10 : ℚ) ^ 27 + 1 ≤ k := by exact_mod_cast hlo
  have hhiq : (k : ℚ) ≤ 10 ^ 28 := by exact_mod_cast hhi
  rcases rounded_cases hd x with ⟨hbelow, hround⟩ | hround | ⟨habove, hround⟩
  · exact iff_of_false (not_le.mpr (by nlinarith)) (not_le.mpr (by nlinarith))
  · rw [hround, mul_le_mul_iff_left₀ hunit, Int.cast_le, le_roundHalfEven_iff_of_even heven,
      le_div_iff₀ hunit]
  · exact iff_of_true (by nlinarith) (by nlinarith)

/-- A rounding below a value of 28 digits is at most the one before it. -/
theorem rounded_le_pred (hd : -1000026 ≤ d) (hlo : 10 ^ 27 < k) (hhi : k ≤ 10 ^ 28)
    (h : rounded x < k * 10 ^ d) : rounded x ≤ (k - 1) * 10 ^ d := by
  have hunit := unit_pos d
  have hloq : (10 : ℚ) ^ 27 + 1 ≤ k := by exact_mod_cast hlo
  have hhiq : (k : ℚ) ≤ 10 ^ 28 := by exact_mod_cast hhi
  rcases rounded_cases hd x with ⟨-, hround⟩ | hround | ⟨-, hround⟩
  · nlinarith
  · rw [hround] at h ⊢
    rw [mul_lt_mul_iff_left₀ hunit, Int.cast_lt] at h
    refine mul_le_mul_of_nonneg_right ?_ hunit.le
    exact_mod_cast Int.le_sub_one_of_lt h
  · nlinarith

end Neighbours

/-! ## Results -/

theorem fix_eq_ok_iff {x y : ℚ} : fix x = .ok y ↔ Int.log 10 |rounded x| ≤ 999999 ∧ rounded x = y := by
  unfold fix
  split_ifs with h
  · exact iff_of_false (fun h => by cases h) fun h' => absurd h'.1 (not_le.mpr h)
  · rw [Except.ok.injEq, and_iff_right (not_lt.mp h)]

/-- Nothing overflows that stays below a number of 28 digits. -/
theorem fix_eq_ok_of_abs_le {x : ℚ} (h : |x| ≤ 10 ^ 28) : fix x = .ok (rounded x) := by
  refine fix_eq_ok_iff.mpr ⟨?_, rfl⟩
  have hexact : Exact (10 ^ 28) := by exact_mod_cast exact_zpow (e := 28) (by norm_num)
  have hround : |rounded x| ≤ 10 ^ 28 := by
    obtain ⟨hlo, hhi⟩ := abs_le.mp h
    exact abs_le.mpr ⟨le_rounded_of_le hexact.neg hlo, rounded_le_of_le hexact hhi⟩
  rcases eq_or_ne (rounded x) 0 with hzero | hne
  · rw [hzero, abs_zero, Int.log_zero_right]
    norm_num
  · have hmono := Int.log_mono_right (b := 10) (abs_pos.mpr hne) hround
    have hlog : Int.log 10 ((10 : ℚ) ^ 28) = 28 := by
      exact_mod_cast Int.log_zpow (R := ℚ) (b := 10) (by norm_num) 28
    omega

theorem Number.divide_finite {x y : ℚ} (hy : y ≠ 0) :
    (finite x).divide (finite y) = finite <$> fix (x / y) := if_neg hy

theorem Number.multiply_infinity {x : ℚ} (hx : x ≠ 0) (negative : Bool) :
    (infinity negative).multiply (finite x) = .ok (infinity (negative ^^ (x < 0))) := if_neg hx

theorem quantize_eq_ok_iff {x : ℚ} {d : FiniteDecimal} :
    (Number.finite x).quantize = .ok d ↔
      (roundHalfEven (|x| * 10)).toNat < 10 ^ 28 ∧ d = ⟨x < 0, (roundHalfEven (|x| * 10)).toNat, -1⟩ := by
  unfold Number.quantize
  dsimp only
  split_ifs with h
  · rw [Except.ok.injEq, and_iff_right h, eq_comm]
  · exact iff_of_false (fun h => by cases h) fun h' => h h'.1

end Nivara.Decimal
