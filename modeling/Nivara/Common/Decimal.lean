import Mathlib

/-!
# Decimals

A `Decimal` is a rational. What Python's default context and the columns of the
tables make of a result is a rounding.

* `inContext` is the default context: 28 significant digits, half to even.
* `numeric` and `bigint` are what a column of the type `Numeric(20, 8)` or
  `BigInteger` stores for a value: Postgres rounds half away from zero and raises
  when the digits before the point are too many.

Results:

* `roundHalfEven_mem`: a rounding stays within whole bounds.
* `numeric_mono`, `numeric_pos_iff`: a column keeps the order of its values, and which of them it
  holds as positive.
* `numeric_eq_ok`: a column stores a value of at most eight decimals as it is.
-/

namespace Nivara

/-- A `DataError` of the driver. -/
inductive DataError
  | numericFieldOverflow
  | bigintOutOfRange
  deriving DecidableEq, Repr

namespace Decimal

/-! ## Python's default context -/

def roundHalfEven (x : ℚ) : ℤ :=
  let n := ⌊x⌋
  if x - n < 1 / 2 ∨ (x - n = 1 / 2 ∧ n % 2 = 0) then n else n + 1

theorem roundHalfEven_mem {x : ℚ} {lo hi : ℤ} (hlo : lo ≤ x) (hhi : x ≤ hi) :
    lo ≤ roundHalfEven x ∧ roundHalfEven x ≤ hi := by
  have hfloor : lo ≤ ⌊x⌋ := Int.le_floor.mpr hlo
  have hle : ⌊x⌋ ≤ hi := Int.floor_le_iff.mpr (by linarith)
  unfold roundHalfEven
  dsimp only
  split_ifs with hround
  · exact ⟨hfloor, hle⟩
  · -- a rounding up leaves a fraction, so that `x` is below the bound
    push Not at hround
    have hlt : (⌊x⌋ : ℚ) < x := by linarith [hround.1]
    have hlt : ⌊x⌋ < hi := by exact_mod_cast lt_of_lt_of_le hlt hhi
    omega

/-- The result of an operation whose exact value is `x`. -/
def inContext (x : ℚ) : ℚ :=
  if x = 0 then 0
  else
    let ulp : ℚ := 10 ^ (Int.log 10 |x| - 27)
    roundHalfEven (x / ulp) * ulp

/-- `a / b`. -/
def divide (a b : ℚ) : ℚ := inContext (a / b)

/-- `a * b`. -/
def multiply (a b : ℚ) : ℚ := inContext (a * b)

/-- `a + b`. -/
def add (a b : ℚ) : ℚ := inContext (a + b)

/-- `a - b`. -/
def subtract (a b : ℚ) : ℚ := inContext (a - b)

/-- `f"{x:.2%}"`. -/
def percent (x : ℚ) : String :=
  let n := (roundHalfEven (|x| * 10 ^ 4)).natAbs
  let decimals := toString (n % 100)
  (if x < 0 then "-" else "") ++ toString (n / 100) ++ "." ++
    (if n % 100 < 10 then "0" ++ decimals else decimals) ++ "%"

example : percent (1 / 12) = "8.33%" := by decide +kernel

/-! ## Columns -/

def roundHalfAway (x : ℚ) : ℤ := if 0 ≤ x then ⌊x + 1 / 2⌋ else -⌊1 / 2 - x⌋

/-- `Numeric(20, 8)`. -/
def numeric (x : ℚ) : Except DataError ℚ :=
  let n := roundHalfAway (x * 10 ^ 8)
  if n.natAbs < 10 ^ 20 then .ok (n / 10 ^ 8) else .error .numericFieldOverflow

/-- `BigInteger`. -/
def bigint (x : ℚ) : Except DataError ℤ :=
  let n := roundHalfAway x
  if -2 ^ 63 ≤ n ∧ n < 2 ^ 63 then .ok n else .error .bigintOutOfRange

/-- A value with at most eight decimals. -/
def AtMostEightDecimals (x : ℚ) : Prop := (x * 10 ^ 8).den = 1

instance (x : ℚ) : Decidable (AtMostEightDecimals x) := inferInstanceAs (Decidable (_ = _))

example : divide 1 3 = 3333333333333333333333333333 / 10 ^ 28 := by decide +kernel

theorem roundHalfAway_intCast (n : ℤ) : roundHalfAway n = n := by
  unfold roundHalfAway
  have hhalf : ∀ m : ℤ, ⌊(m : ℚ) + 1 / 2⌋ = m := by
    intro m
    rw [Int.floor_eq_iff]
    constructor <;> norm_num
  split_ifs with h
  · exact hhalf n
  · have hneg : (1 / 2 - n : ℚ) = ((-n : ℤ) : ℚ) + 1 / 2 := by push_cast; ring
    rw [hneg, hhalf, neg_neg]

/-- A whole number is its own rounding. -/
theorem roundHalfAway_of_den_eq_one {x : ℚ} (h : x.den = 1) : (roundHalfAway x : ℚ) = x := by
  have hint : ((x.num : ℤ) : ℚ) = x := Rat.coe_int_num_of_den_eq_one h
  rw [← hint, roundHalfAway_intCast]

theorem roundHalfAway_mono {x y : ℚ} (h : x ≤ y) : roundHalfAway x ≤ roundHalfAway y := by
  unfold roundHalfAway
  split_ifs with hx hy hy
  · exact Int.floor_mono (by linarith)
  · exact absurd (hx.trans h) hy
  · have hleft : 0 ≤ ⌊1 / 2 - x⌋ := Int.floor_nonneg.mpr (by linarith)
    have hright : 0 ≤ ⌊y + 1 / 2⌋ := Int.floor_nonneg.mpr (by linarith)
    omega
  · exact neg_le_neg (Int.floor_mono (by linarith))

theorem roundHalfAway_pos_iff {x : ℚ} : 0 < roundHalfAway x ↔ 1 / 2 ≤ x := by
  unfold roundHalfAway
  split_ifs with hx
  · rw [Int.floor_pos]
    constructor <;> intro h <;> linarith
  · have hfloor : 0 ≤ ⌊1 / 2 - x⌋ := Int.floor_nonneg.mpr (by linarith)
    constructor
    · intro h
      omega
    · intro h
      linarith

theorem numeric_eq {x y : ℚ} (h : numeric x = .ok y) : y = roundHalfAway (x * 10 ^ 8) / 10 ^ 8 := by
  unfold numeric at h
  dsimp only at h
  split_ifs at h
  exact (Except.ok.inj h).symm

/-- A column keeps the order of the values that are written to it. -/
theorem numeric_mono {x x' y y' : ℚ} (h : numeric x = .ok y) (h' : numeric x' = .ok y') (hle : x ≤ x') :
    y ≤ y' := by
  rw [numeric_eq h, numeric_eq h']
  have hround : roundHalfAway (x * 10 ^ 8) ≤ roundHalfAway (x' * 10 ^ 8) :=
    roundHalfAway_mono (mul_le_mul_of_nonneg_right hle (by norm_num))
  exact div_le_div_of_nonneg_right (Int.cast_le.mpr hround) (by norm_num)

/-- What is less than half a unit of the last decimal is not stored as positive. -/
theorem numeric_pos_iff {x y : ℚ} (h : numeric x = .ok y) : 0 < y ↔ 1 / 2 ≤ x * 10 ^ 8 := by
  rw [numeric_eq h, div_pos_iff_of_pos_right (by norm_num), Int.cast_pos]
  exact roundHalfAway_pos_iff

/-- A column stores a value of at most eight decimals as it is. -/
theorem numeric_eq_ok {x y : ℚ} (h : numeric x = .ok y) (hx : AtMostEightDecimals x) : y = x := by
  rw [numeric_eq h, roundHalfAway_of_den_eq_one hx]
  field_simp

end Decimal

end Nivara
