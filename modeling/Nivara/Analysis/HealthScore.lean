import Nivara.Analysis.Components
import Nivara.Analysis.Series

/-!
# The Health Score

`compute_health_score` (`analysis/health_score.py`): diversification, fundamental strength,
technical alignment and the risk-adjusted return, a quarter each, blended over the components
that have a score.

* Arithmetic is exact; `sqrt` is the square root in doubles.
-/

namespace Nivara.Analysis

open Herfindahl (magnitude hhi)

/-- `_DIVERSIFICATION_FLOOR_HHI`. -/
def diversificationFloorHhi : ℚ := 5 / 100

/-- `compute_diversification`. -/
def computeDiversification (weights : List ℚ) : ScoreComponent :=
  if weights = [] then ⟨"diversification", none, 1 / 4, [("hhi", .none), ("holdings", .count 0)]⟩
  else if magnitude weights ≤ 0 then
    ⟨"diversification", none, 1 / 4, [("hhi", .none), ("holdings", .count weights.length)]⟩
  else
    { name := "diversification"
      score :=
        if 1 ≤ hhi weights then some 0
        else some (roundTo 1 (max 0 (min 1 ((1 - hhi weights) / (1 - diversificationFloorHhi))) * 100))
      weight := 1 / 4
      detail := [("hhi", .number (roundTo 4 (hhi weights))), ("holdings", .count weights.length)] }

/-- `compute_fundamental`. -/
def computeFundamental (fundamentalScores : List (Option ℚ)) : ScoreComponent :=
  let present := fundamentalScores.filterMap id
  let counts := [("scored_holdings", .count present.length), ("total_holdings", .count fundamentalScores.length)]
  if present = [] then ⟨"fundamental", none, 1 / 4, counts⟩
  else ⟨"fundamental", some (roundTo 1 (max 0 (min 100 (present.sum / present.length)))), 1 / 4, counts⟩

/-- `compute_technical`. -/
def computeTechnical (technicalScores : List (Option ℚ)) : ScoreComponent :=
  let present := technicalScores.filterMap id
  let counts := [("scored_holdings", .count present.length), ("total_holdings", .count technicalScores.length)]
  if present = [] then ⟨"technical", none, 1 / 4, counts⟩
  else
    let avgNative := present.sum / present.length
    let clamped := max (-1) (min 1 avgNative)
    { name := "technical"
      score := some (roundTo 1 ((clamped + 1) / 2 * 100))
      weight := 1 / 4
      detail := counts ++ [("avg_native", .number (roundTo 4 avgNative))] }

/-- A risk-adjusted component without a score. -/
def noRiskAdjusted (observations : ℕ) : ScoreComponent :=
  ⟨"risk_adjusted", none, 1 / 4, [("sharpe", .none), ("observations", .count observations)]⟩

/-- `compute_risk_adjusted`. -/
def computeRiskAdjusted (sqrt : ℚ → ℚ) (portfolioReturns : Series) (benchmarkReturns : Option Series) :
    ScoreComponent :=
  match benchmarkReturns with
  | none => noRiskAdjusted portfolioReturns.length
  | some benchmark =>
    if benchmark = [] ∨ portfolioReturns = [] then noRiskAdjusted portfolioReturns.length
    else
      -- the times that both series have
      let excess := (unionIndex [portfolioReturns, benchmark]).filterMap fun t => do
        let port ← portfolioReturns.find? fun e => e.1 = t
        let bench ← benchmark.find? fun e => e.1 = t
        return port.2 - bench.2
      let n := excess.length
      if n < 30 then noRiskAdjusted n
      else
        let mean := excess.sum / n
        let std := sqrt ((excess.map fun x => (x - mean) ^ 2).sum / (n - 1))
        if std ≤ 0 then noRiskAdjusted n
        else
          let sharpe := mean / std * sqrt 252
          let clipped := max (-1) (min 2 sharpe)
          { name := "risk_adjusted"
            score := some (roundTo 1 ((clipped + 1) / 3 * 100))
            weight := 1 / 4
            detail := [("sharpe", .number (roundTo 4 sharpe)), ("observations", .count n)] }

/-- `HealthScoreResult`. -/
structure HealthScoreResult where
  overallScore : ℚ
  components : List ScoreComponent
  deriving DecidableEq, Repr

/-- `compute_health_score`. -/
def computeHealthScore (sqrt : ℚ → ℚ) (holdingWeights : List ℚ)
    (fundamentalScores technicalScores : List (Option ℚ)) (portfolioReturns : Series)
    (benchmarkReturns : Option Series) : HealthScoreResult :=
  let components :=
    [computeDiversification holdingWeights,
      computeFundamental fundamentalScores,
      computeTechnical technicalScores,
      computeRiskAdjusted sqrt portfolioReturns benchmarkReturns]
  ⟨overallScore (components.map ScoreComponent.weighted), components⟩

end Nivara.Analysis
