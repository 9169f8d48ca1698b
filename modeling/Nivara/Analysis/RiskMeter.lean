import Nivara.Analysis.Components
import Nivara.Analysis.Series

/-!
# The Risk Meter

`compute_risk_meter` (`analysis/risk_meter.py`): concentration, volatility, drawdown and
events, blended over the components that have a score.

* Arithmetic is exact; `sqrt` is the square root in doubles, which only the volatility of the
  drill-down takes.
* A `date` is its number of days after 1970-01-01.

Results:

* `computeRiskMeter_overallScore_congr`: the overall score reads the concentration score only of
  the holding weights.
-/

namespace Nivara.Analysis

open Herfindahl (magnitude hhi)

/-! ## Concentration -/

/-- `compute_concentration`. -/
def computeConcentration (weights : List ℚ) : ScoreComponent :=
  if weights = [] then ⟨"concentration", none, 3 / 10, [("hhi", .none), ("holdings", .count 0)]⟩
  else if magnitude weights ≤ 0 then
    ⟨"concentration", none, 3 / 10, [("hhi", .none), ("holdings", .count weights.length)]⟩
  else
    { name := "concentration"
      score := some (roundTo 1 (max 0 (min 100 (hhi weights * 100))))
      weight := 3 / 10
      detail := [("hhi", .number (roundTo 4 (hhi weights))), ("holdings", .count weights.length)] }

/-! ## Volatility -/

/-- `_portfolio_returns`. -/
def portfolioReturns (weights : Dict String ℚ) (priceSeries : Dict String Series) : List ℚ :=
  let aligned := weights.items.filterMap fun e =>
    ((priceSeries.get e.1).filter fun s => s ≠ []).map fun s => (e.2, s)
  let totalWeight := (aligned.map fun e => |e.1|).sum
  if aligned = [] ∨ totalWeight ≤ 0 then []
  else
    let index := unionIndex (aligned.map Prod.snd)
    let frame := rows (aligned.map fun e => pctChange (ffill (reindex index e.2)))
    let normWeights := aligned.map fun e => |e.1| / totalWeight
    (frame.filter fun row => row.any Option.isSome).map fun row =>
      (List.zipWith (fun x w => x.getD 0 * w) row normWeights).sum

/-- `np.nanpercentile(xs, q)`, interpolated linearly. -/
def percentile (q : ℚ) (xs : List ℚ) : ℚ :=
  let sorted := xs.insertionSort (· ≤ ·)
  let rank := q / 100 * (xs.length - 1)
  let below := sorted.getD ⌊rank⌋.toNat 0
  let above := sorted.getD (⌊rank⌋.toNat + 1) 0
  below + (rank - ⌊rank⌋) * (above - below)

/-- `series.std(ddof=1) ** 2`. -/
def sampleVariance (xs : List ℚ) : ℚ :=
  let mean := xs.sum / xs.length
  (xs.map fun x => (x - mean) ^ 2).sum / (xs.length - 1)

/-- `_MIN_RETURNS_FOR_VAR`. -/
def minReturnsForVar : ℕ := 30

/-- `compute_volatility_var`. -/
def computeVolatilityVar (sqrt : ℚ → ℚ) (weights : Dict String ℚ) (priceSeries : Dict String Series) :
    ScoreComponent :=
  let returns := portfolioReturns weights priceSeries
  let n := returns.length
  if n < minReturnsForVar then ⟨"volatility_var", none, 3 / 10, [("var_95", .none), ("observations", .count n)]⟩
  else
    let var95 := max 0 (-percentile 5 returns)
    let ratio := min 1 (var95 / (5 / 100))
    let volAnnual := sqrt (sampleVariance returns) * sqrt 252
    { name := "volatility_var"
      score := some (roundTo 1 (ratio * 100))
      weight := 3 / 10
      detail := [("var_95", .number (roundTo 4 var95)),
        ("annual_volatility", .number (roundTo 4 volAnnual)),
        ("observations", .count n)] }

/-! ## Drawdown -/

/-- A drawdown component without a score. -/
def noDrawdown : ScoreComponent := ⟨"drawdown", none, 1 / 5, [("drawdown", .none)]⟩

/-- `compute_drawdown`. -/
def computeDrawdown (weights : Dict String ℚ) (priceSeries : Dict String Series) : ScoreComponent :=
  let totalWeight := magnitude weights.values
  if priceSeries.items = [] ∨ totalWeight ≤ 0 then noDrawdown
  else
    let frames := priceSeries.items.filterMap fun e =>
      let w := |(weights.get e.1).getD 0|
      if w ≤ 0 then none else normalised e.2 (w / totalWeight)
    match (totalSeries frames).map Prod.snd with
    | [] => noDrawdown
    | first :: values =>
      let peak := values.foldl max first
      let current := (first :: values).getLast (by simp)
      let drawdown := if peak ≤ 0 then 0 else max 0 ((peak - current) / peak)
      let ratio := min 1 (drawdown / (40 / 100))
      { name := "drawdown"
        score := some (roundTo 1 (ratio * 100))
        weight := 1 / 5
        detail := [("drawdown", .number (roundTo 4 drawdown)), ("peak", .number (roundTo 4 peak)),
          ("current", .number (roundTo 4 current))] }

/-! ## Events -/

/-- `_EVENTS_WINDOW_DAYS`. -/
def eventsWindowDays : ℕ := 5

/-- `compute_events`. -/
def computeEvents (upcomingEvents : Option (List ℤ)) (today : ℤ) : ScoreComponent :=
  match upcomingEvents with
  | none => ⟨"events", some 0, 1 / 5,
      [("window_days", .count eventsWindowDays), ("upcoming", .count 0), ("source", .text "unavailable")]⟩
  | some events =>
    let counted := (events.map (· - today)).filter fun (delta : ℤ) => 0 ≤ delta ∧ delta ≤ eventsWindowDays
    let raw := (counted.map fun delta => ((eventsWindowDays - delta) / eventsWindowDays : ℚ)).sum
    { name := "events"
      score := some (roundTo 1 (min 1 raw * 100))
      weight := 1 / 5
      detail := [("window_days", .count eventsWindowDays), ("upcoming", .count counted.length)] }

/-! ## The meter -/

/-- The bands of `_classify`. -/
inductive Color
  | green
  | yellow
  | red
  deriving DecidableEq, Repr

/-- `_classify`. -/
def classify (score : ℚ) : Color :=
  if score ≤ 30 then .green
  else if score ≤ 60 then .yellow
  else .red

/-- `RiskMeterResult`. -/
structure RiskMeterResult where
  overallScore : ℚ
  color : Color
  components : List ScoreComponent
  deriving DecidableEq, Repr

/-- `compute_risk_meter`. -/
def computeRiskMeter (sqrt : ℚ → ℚ) (holdingWeights : List ℚ) (weightsBySymbol : Dict String ℚ)
    (priceSeries : Dict String Series) (upcomingEvents : Option (List ℤ)) (today : ℤ) : RiskMeterResult :=
  let components :=
    [computeConcentration holdingWeights,
      computeVolatilityVar sqrt weightsBySymbol priceSeries,
      computeDrawdown weightsBySymbol priceSeries,
      computeEvents upcomingEvents today]
  let overall := overallScore (components.map ScoreComponent.weighted)
  ⟨overall, classify overall, components⟩

theorem computeConcentration_weight (weights : List ℚ) : (computeConcentration weights).weight = 3 / 10 := by
  unfold computeConcentration
  split_ifs <;> rfl

/-- The overall score reads the concentration score only of the holding weights. -/
theorem computeRiskMeter_overallScore_congr {weights weights' : List ℚ}
    (h : (computeConcentration weights).score = (computeConcentration weights').score) (sqrt : ℚ → ℚ)
    (weightsBySymbol : Dict String ℚ) (priceSeries : Dict String Series) (upcomingEvents : Option (List ℤ))
    (today : ℤ) :
    (computeRiskMeter sqrt weights weightsBySymbol priceSeries upcomingEvents today).overallScore =
      (computeRiskMeter sqrt weights' weightsBySymbol priceSeries upcomingEvents today).overallScore := by
  have hweighted : (computeConcentration weights).weighted = (computeConcentration weights').weighted :=
    Prod.ext h ((computeConcentration_weight weights).trans (computeConcentration_weight weights').symm)
  simp only [computeRiskMeter, List.map_cons, hweighted]

end Nivara.Analysis
