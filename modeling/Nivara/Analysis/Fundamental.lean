import Nivara.Common.Decimal
import Nivara.Lib.Blend
import Nivara.Lib.Keyed

/-!
# Fundamental scores

`score_fundamentals` (`analysis/fundamental.py`): a score from 0 to 100 for each of five metrics,
and their blend over the metrics that have one.

* Arithmetic is exact.
* A dictionary over the metrics is a function, and its items stand in the order of `metrics`.

Results:

* `scoreFromRange_mem`, `composite_mem`: every score is from 0 to 100.
-/

namespace Nivara.Analysis

/-! ## Model -/

/-- The keys of `_WEIGHTS`. -/
inductive FundamentalMetric
  | revenueGrowth
  | earningsTrend
  | debtHealth
  | peValuation
  | cashFlow
  deriving DecidableEq, Repr

/-- The metrics, in the order of the dictionaries. -/
def metrics : List FundamentalMetric := [.revenueGrowth, .earningsTrend, .debtHealth, .peValuation, .cashFlow]

/-- A row of `_THRESHOLDS`. -/
structure Threshold where
  lower : ℚ
  upper : ℚ
  ascending : Bool

/-- `_THRESHOLDS`. -/
def thresholds : FundamentalMetric → Threshold
  | .revenueGrowth => ⟨-(10 / 100), 30 / 100, true⟩
  | .earningsTrend => ⟨-(20 / 100), 30 / 100, true⟩
  | .debtHealth => ⟨0, 2, false⟩
  | .peValuation => ⟨10, 40, false⟩
  | .cashFlow => ⟨0, 20 / 100, true⟩

/-- `_WEIGHTS`. -/
def metricWeights : FundamentalMetric → ℚ
  | .revenueGrowth => 25 / 100
  | .earningsTrend => 25 / 100
  | .debtHealth => 20 / 100
  | .peValuation => 15 / 100
  | .cashFlow => 15 / 100

/-- `EdgarFundamentals` (`data/edgar.py`), as far as the engine reads it. -/
structure EdgarFundamentals where
  revenueTtm : Option ℚ := none
  revenuePriorTtm : Option ℚ := none
  earningsTtm : Option ℚ := none
  earningsPriorTtm : Option ℚ := none
  peRatio : Option ℚ := none
  debtToEquity : Option ℚ := none
  freeCashFlow : Option ℚ := none
  eps : Option ℚ := none

/-- `FundamentalScore`. -/
structure FundamentalScore where
  revenueGrowth : Option ℤ
  earningsTrend : Option ℤ
  debtHealth : Option ℤ
  peValuation : Option ℤ
  cashFlow : Option ℤ
  composite : Option ℤ
  deriving DecidableEq, Repr

/-- `_score_from_range`. -/
def scoreFromRange (value : ℚ) (t : Threshold) : ℤ :=
  if t.upper = t.lower then 50
  else
    let pct := max 0 (min 1 ((value - t.lower) / (t.upper - t.lower)))
    Decimal.roundHalfEven (if t.ascending then pct * 100 else (1 - pct) * 100)

/-- `_ratio`. -/
def ratio (numerator denominator : Option ℚ) : Option ℚ :=
  match numerator, denominator with
  | some numerator, some denominator => if denominator = 0 then none else some (numerator / denominator)
  | _, _ => none

/-- `_yoy_growth`. -/
def yoyGrowth (latest prior : Option ℚ) : Option ℚ :=
  match latest, prior with
  | some latest, some prior => if prior = 0 then none else some ((latest - prior) / |prior|)
  | _, _ => none

/-- `pe` (lines 159–163). -/
def peOf (fundamentals : EdgarFundamentals) (price : Option ℚ) : Option ℚ :=
  match fundamentals.peRatio with
  | some pe => some pe
  | none => ratio price fundamentals.eps

/-- `components`. -/
def fundamentalComponents (fundamentals : EdgarFundamentals) (price : Option ℚ)
    (k : FundamentalMetric) : Option ℤ :=
  let value :=
    match k with
    | .revenueGrowth => yoyGrowth fundamentals.revenueTtm fundamentals.revenuePriorTtm
    | .earningsTrend => yoyGrowth fundamentals.earningsTtm fundamentals.earningsPriorTtm
    | .debtHealth => fundamentals.debtToEquity
    | .peValuation => (peOf fundamentals price).filter (0 < ·)
    | .cashFlow => ratio fundamentals.freeCashFlow fundamentals.revenueTtm
  value.map fun value => scoreFromRange value (thresholds k)

/-- `composite` (lines 176–183). -/
def fundamentalComposite (components : FundamentalMetric → Option ℤ) : Option ℤ :=
  let scored := Keyed.entries metrics components
  if scored = [] then none
  else
    let totalWeight := Blend.total (fun p => metricWeights p.1) scored
    let weighted := Blend.blend (fun p => metricWeights p.1) (fun p => (p.2 : ℚ)) scored
    some (Decimal.roundHalfEven (weighted / totalWeight))

/-- `score_fundamentals`. -/
def scoreFundamentals (fundamentals : EdgarFundamentals) (price : Option ℚ) : FundamentalScore :=
  let components := fundamentalComponents fundamentals price
  { revenueGrowth := components .revenueGrowth
    earningsTrend := components .earningsTrend
    debtHealth := components .debtHealth
    peValuation := components .peValuation
    cashFlow := components .cashFlow
    composite := fundamentalComposite components }

/-! ## The range of the scores -/

theorem scoreFromRange_mem (value : ℚ) (t : Threshold) :
    0 ≤ scoreFromRange value t ∧ scoreFromRange value t ≤ 100 := by
  unfold scoreFromRange
  split_ifs with heq hasc
  · exact ⟨by decide, by decide⟩
  all_goals
    have hlo : 0 ≤ max 0 (min 1 ((value - t.lower) / (t.upper - t.lower))) := le_max_left _ _
    have hhi : max 0 (min 1 ((value - t.lower) / (t.upper - t.lower))) ≤ 1 :=
      max_le zero_le_one (min_le_left _ _)
    apply Decimal.roundHalfEven_mem <;> push_cast <;> linarith

theorem metricWeights_pos (k : FundamentalMetric) : 0 < metricWeights k := by
  cases k <;> norm_num [metricWeights]

theorem fundamentalComponents_mem {fundamentals : EdgarFundamentals} {price : Option ℚ}
    {k : FundamentalMetric} {v : ℤ}
    (h : fundamentalComponents fundamentals price k = some v) : 0 ≤ v ∧ v ≤ 100 := by
  obtain ⟨value, -, rfl⟩ := Option.map_eq_some_iff.mp h
  exact scoreFromRange_mem value (thresholds k)

/-- The blend of scores from 0 to 100 is one. -/
theorem fundamentalComposite_mem {components : FundamentalMetric → Option ℤ} {v : ℤ}
    (hcomponents : ∀ k v, components k = some v → 0 ≤ v ∧ v ≤ 100)
    (h : fundamentalComposite components = some v) : 0 ≤ v ∧ v ≤ 100 := by
  unfold fundamentalComposite at h
  dsimp only at h
  split_ifs at h with hempty
  obtain rfl := Option.some.inj h
  set scored := Keyed.entries metrics components with hscored
  have hmem : ∀ p ∈ scored, (0 : ℚ) ≤ p.2 ∧ (p.2 : ℚ) ≤ 100 := by
    intro p hp
    exact_mod_cast hcomponents p.1 p.2 (Keyed.mem_entries.mp hp).2
  have hpos : 0 < Blend.total (fun p : FundamentalMetric × ℤ => metricWeights p.1) scored :=
    Blend.total_pos (fun p _ => metricWeights_pos p.1) hempty
  have hweights : ∀ p ∈ scored, 0 ≤ metricWeights p.1 := fun p _ => (metricWeights_pos p.1).le
  apply Decimal.roundHalfEven_mem
  · have hblend := Blend.total_mul_le_blend hweights fun p hp => (hmem p hp).1
    rw [le_div_iff₀ hpos]
    push_cast
    linarith
  · have hblend := Blend.blend_le_total_mul hweights fun p hp => (hmem p hp).2
    rw [div_le_iff₀ hpos]
    push_cast
    linarith

/-- The composite of the engine is from 0 to 100. -/
theorem composite_mem {fundamentals : EdgarFundamentals} {price : Option ℚ} {v : ℤ}
    (h : (scoreFundamentals fundamentals price).composite = some v) : 0 ≤ v ∧ v ≤ 100 :=
  fundamentalComposite_mem (fun _ _ => fundamentalComponents_mem) h

end Nivara.Analysis
