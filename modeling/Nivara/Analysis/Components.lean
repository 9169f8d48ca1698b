import Nivara.Common.DecimalRounding
import Nivara.Lib.Herfindahl

/-!
# Score components

What the Risk Meter (`analysis/risk_meter.py`) and the Health Score
(`analysis/health_score.py`) share: components with an optional score, and their blend.

* `round(x, n)` is exact, half to even.

Results:

* `roundTo_mono`, `roundTo_roundTo`: a rounding keeps the order, and what it has rounded.
-/

namespace Nivara.Analysis

/-- `round(x, digits)`. -/
def roundTo (digits : ℕ) (x : ℚ) : ℚ := Decimal.roundHalfEven (x * 10 ^ digits) / 10 ^ digits

/-- A rounding keeps the order. -/
theorem roundTo_mono {digits : ℕ} {x y : ℚ} (h : x ≤ y) : roundTo digits x ≤ roundTo digits y := by
  have hpow : (0 : ℚ) ≤ 10 ^ digits := by positivity
  unfold roundTo
  exact div_le_div_of_nonneg_right
    (Int.cast_le.mpr (Decimal.roundHalfEven_mono (mul_le_mul_of_nonneg_right h hpow))) hpow

/-- A whole number of units stays. -/
theorem roundTo_intCast_div (digits : ℕ) (n : ℤ) : roundTo digits (n / 10 ^ digits) = n / 10 ^ digits := by
  have hpow : (10 : ℚ) ^ digits ≠ 0 := by positivity
  unfold roundTo
  rw [div_mul_cancel₀ _ hpow, Decimal.roundHalfEven_intCast]

theorem roundTo_roundTo (digits : ℕ) (x : ℚ) : roundTo digits (roundTo digits x) = roundTo digits x :=
  roundTo_intCast_div digits _

/-- A rounding stays within whole bounds. -/
theorem roundTo_mem (digits : ℕ) {x : ℚ} {lo hi : ℤ} (hlo : lo ≤ x) (hhi : x ≤ hi) :
    lo ≤ roundTo digits x ∧ roundTo digits x ≤ hi := by
  have hpow : (10 : ℚ) ^ digits ≠ 0 := by positivity
  have hwhole : ∀ n : ℤ, roundTo digits n = n := by
    intro n
    have h := roundTo_intCast_div digits (n * 10 ^ digits)
    rwa [Int.cast_mul, Int.cast_pow, Int.cast_ofNat, mul_div_assoc, div_self hpow, mul_one] at h
  exact ⟨hwhole lo ▸ roundTo_mono hlo, hwhole hi ▸ roundTo_mono hhi⟩

/-- A value of a `detail` dictionary. -/
inductive DetailValue
  | none
  | count (n : ℕ)
  | number (x : ℚ)
  | text (s : String)
  deriving DecidableEq, Repr

/-- `RiskMeterComponent` and `HealthScoreComponent`. -/
structure ScoreComponent where
  name : String
  score : Option ℚ
  weight : ℚ
  detail : List (String × DetailValue)
  deriving DecidableEq, Repr

/-- The scores that the overall score blends, with their weights. -/
def ScoreComponent.weighted (c : ScoreComponent) : Option ℚ × ℚ := (c.score, c.weight)

/-- The overall score of both engines: the weighted mean of the scores there are, between 0 and 100,
    to one decimal. -/
def overallScore (scores : List (Option ℚ × ℚ)) : ℚ :=
  let scored := scores.filterMap fun c => c.1.map fun score => (score, c.2)
  let weighted := (scored.map fun c => c.1 * c.2).sum
  let weightSum := (scored.map Prod.snd).sum
  let overall := if weightSum = 0 then 0 else weighted / weightSum
  roundTo 1 (max 0 (min 100 overall))

example : overallScore [(some 100, 3 / 10), (none, 3 / 10), (some 0, 1 / 5)] = 60 := by decide +kernel

end Nivara.Analysis
