import Nivara.Analysis.Series
import Nivara.Intelligence.Positions
import Nivara.Lib.Blend

/-!
# Holding weights

The weights of a portfolio's holdings, computed four times: `_load_portfolio_context`
(`api/risk_meter.py`, lines 53-105) and `_compute_response` (`api/health_score.py`, lines
63-128) from the values in each position's own currency, `PortfolioSummaryService` and
`PortfolioIntelligenceService` from values in the base currency.

* Arithmetic is exact: `float(value / total_value)` is the quotient.

Results:

* `summaryWeights_eq`, `intelligenceWeights_eq`: the summary and the intelligence imply the
  shares of the base-currency value.
* `weightsAgree_iff`: when the Risk Meter and the Health Score use those shares.
-/

namespace Nivara.Portfolio

open Analysis (Series loadCloseSeriesBulk)
open CorporateActions (PriceHistory)
open Intelligence (EnrichedPosition loadPositions)

/-! ## Model -/

/-- A row of `raw_values` (`raw` in `health_score.py`). -/
structure Holding where
  position : Position
  instrument : Instrument
  value : ℚ
  deriving DecidableEq, Repr

/-- A row with its value. -/
def Holding.ofRow (row : Position × Instrument) : Holding := ⟨row.1, row.2, row.1.quantity * row.1.avgCost⟩

/-- `raw_values`: the open positions. -/
def rawValues (rows : List (Position × Instrument)) : List Holding :=
  (rows.filter fun r => r.1.quantity ≠ 0).map .ofRow

/-- `total_value`. -/
def totalValue (raw : List Holding) : ℚ := (raw.map Holding.value).sum

/-- `oldest`. -/
def oldestAsOf (raw : List Holding) : Option Instant :=
  raw.foldl (fun oldest h =>
    match oldest with
    | none => some h.position.asOf
    | some t => if h.position.asOf < t then some h.position.asOf else some t) none

/-- `_PRICE_BARS`. -/
def priceBars : ℕ := 252

/-- What `_load_portfolio_context` returns. -/
structure PortfolioContext where
  holdingWeights : List ℚ
  weightsBySymbol : Dict String ℚ
  priceSeries : Dict String Series
  oldest : Option Instant

/-- What `_compute_response` passes to `compute_health_score` and to `_classify_staleness`. -/
structure HealthContext where
  holdingWeights : List ℚ
  fundamentalScores : List (Option ℚ)
  technicalScores : List (Option ℚ)
  portfolioReturns : Series
  oldest : Option Instant

section Model

variable (prices : List PriceHistory) (raw : List Holding)

/-- `closes_by_id`. -/
def closesById : Dict UUID Series := loadCloseSeriesBulk prices (raw.map fun h => h.instrument.id) priceBars

/-- The series of a holding, unless it is empty. -/
def seriesOf (h : Holding) : Option Series :=
  ((closesById prices raw).get h.instrument.id).filter fun s => s ≠ []

/-- `_load_portfolio_context`, from its rows on. -/
def portfolioContext : PortfolioContext :=
  let total := totalValue raw
  if 0 < total then
    { holdingWeights := raw.map fun h => h.value / total
      weightsBySymbol := .ofWrites (raw.map fun h => (h.instrument.symbol, h.value / total))
      priceSeries := .ofWrites (raw.filterMap fun h => (seriesOf prices raw h).map fun s => (h.instrument.symbol, s))
      oldest := oldestAsOf raw }
  else ⟨[], .empty, .empty, oldestAsOf raw⟩

/-- `_compute_response`, from its rows to the call of `compute_health_score`. -/
def healthContext : HealthContext :=
  let total := totalValue raw
  let weighted := if 0 < total then raw.map fun h => (h, h.value / total) else []
  let portfolioValueSeries := weighted.filterMap fun w =>
    (seriesOf prices raw w.1).bind fun s => Analysis.normalised s w.2
  { holdingWeights := weighted.map Prod.snd
    fundamentalScores := raw.map fun _ => none
    technicalScores := raw.map fun _ => none
    portfolioReturns := Analysis.returns (Analysis.totalSeries portfolioValueSeries)
    oldest := oldestAsOf raw }

variable (upper : String → String) (rates : List FxRate) (connections : List BrokerConnection)
  (userId : UUID) (baseCurrency : String) (now : Instant) (db : Session)

/-- The holdings of a user. -/
def holdings : List Holding := rawValues (joinedRows connections userId db)

/-- `_load_portfolio_context`. -/
def loadPortfolioContext : PortfolioContext := portfolioContext prices (holdings connections userId db)

/-- The weights that the summary implies: the open positions' shares of `total_value`. -/
def summaryWeights : List ℚ :=
  let total := (summary upper rates connections userId baseCurrency now db).totalValue
  let positions := (enrichedPositions upper rates connections userId baseCurrency now db).1
  if 0 < total then (positions.filter fun p => p.quantity ≠ 0).map fun p => p.marketValueBase / total else []

/-- The weights that the intelligence implies: the positions' shares of `total_base`. -/
def intelligenceWeights : List ℚ :=
  let positions := loadPositions upper rates connections userId baseCurrency db
  let total := (positions.map EnrichedPosition.marketValueBase).sum
  if 0 < total then positions.map fun p => p.marketValueBase / total else []

/-! ## Base-currency shares -/

/-- The value of a holding in the base currency. -/
def Holding.baseValue (h : Holding) : ℚ := h.value * rateOrZero upper rates baseCurrency h.position.currency

/-- The holdings' shares of the portfolio's value in the base currency. -/
def baseShares : List ℚ := Blend.shares (Holding.baseValue upper rates baseCurrency) (holdings connections userId db)

/-- The four computations of the weights agree. -/
def WeightsAgree : Prop :=
  (loadPortfolioContext prices connections userId db).holdingWeights =
      baseShares upper rates connections userId baseCurrency db ∧
    (healthContext prices (holdings connections userId db)).holdingWeights =
      baseShares upper rates connections userId baseCurrency db ∧
    summaryWeights upper rates connections userId baseCurrency now db =
      baseShares upper rates connections userId baseCurrency db ∧
    intelligenceWeights upper rates connections userId baseCurrency db =
      baseShares upper rates connections userId baseCurrency db

end Model

variable {upper : String → String} {rates : List FxRate} {connections : List BrokerConnection}
  {userId : UUID} {baseCurrency : String} {now : Instant} {db : Session} {prices : List PriceHistory}
  {raw : List Holding}

/-! ## The four computations -/

/-- The Risk Meter's weights are the shares of the values in the positions' own currencies. -/
theorem portfolioContext_holdingWeights :
    (portfolioContext prices raw).holdingWeights = Blend.shares Holding.value raw := by
  unfold portfolioContext Blend.shares
  by_cases h : 0 < totalValue raw
  · simp only [if_pos h]
    rw [if_pos (show 0 < Blend.total Holding.value raw from h)]
    rfl
  · simp only [if_neg h]
    rw [if_neg (show ¬ 0 < Blend.total Holding.value raw from h)]

/-- So are the Health Score's. -/
theorem healthContext_holdingWeights :
    (healthContext prices raw).holdingWeights = Blend.shares Holding.value raw := by
  unfold healthContext Blend.shares
  by_cases h : 0 < totalValue raw
  · simp only [if_pos h, List.map_map]
    rw [if_pos (show 0 < Blend.total Holding.value raw from h)]
    rfl
  · simp only [if_neg h]
    rw [if_neg (show ¬ 0 < Blend.total Holding.value raw from h)]
    rfl

/-- The total of the summary is that of the open positions. -/
theorem summary_totalValue_eq_total :
    (summary upper rates connections userId baseCurrency now db).totalValue =
      Blend.total (Holding.baseValue upper rates baseCurrency) (holdings connections userId db) := by
  have htotal : (summary upper rates connections userId baseCurrency now db).totalValue =
      ((enrichedPositions upper rates connections userId baseCurrency now db).1.map
        PositionOut.marketValueBase).sum := rfl
  rw [htotal, enrichedPositions_fst]
  unfold holdings rawValues Blend.total
  generalize joinedRows connections userId db = rows
  induction rows with
  | nil => rfl
  | cons r rows ih =>
    rw [List.map_cons, List.map_cons, List.sum_cons, ih]
    by_cases hq : r.1.quantity = 0
    · rw [List.filter_cons_of_neg (by simp [hq])]
      simp [positionOut, hq]
    · rw [List.filter_cons_of_pos (by simpa using hq)]
      rfl

/-- The summary implies the shares of the base-currency value. -/
theorem summaryWeights_eq :
    summaryWeights upper rates connections userId baseCurrency now db =
      baseShares upper rates connections userId baseCurrency db := by
  have hvalues : ((enrichedPositions upper rates connections userId baseCurrency now db).1.filter
      fun p => p.quantity ≠ 0).map PositionOut.marketValueBase =
        (holdings connections userId db).map (Holding.baseValue upper rates baseCurrency) := by
    unfold holdings rawValues
    rw [enrichedPositions_fst, List.filter_map, List.map_map, List.map_map]
    rfl
  have htotal : (summary upper rates connections userId baseCurrency now db).totalValue =
      Blend.total PositionOut.marketValueBase
        ((enrichedPositions upper rates connections userId baseCurrency now db).1.filter
          fun p => p.quantity ≠ 0) := by
    rw [summary_totalValue_eq_total]
    exact (congrArg List.sum hvalues).symm
  unfold summaryWeights
  rw [htotal]
  exact Blend.shares_congr hvalues

/-- With a rate for each holding the intelligence implies them as well. -/
theorem intelligenceWeights_eq
    (hrates : ∀ h ∈ holdings connections userId db,
      (getRate upper rates h.position.currency baseCurrency none).isSome) :
    intelligenceWeights upper rates connections userId baseCurrency db =
      baseShares upper rates connections userId baseCurrency db := by
  have hrows : ∀ r ∈ joinedRows connections userId db, r.1.quantity ≠ 0 →
      (getRate upper rates r.1.currency baseCurrency none).isSome := fun r hr hq =>
    hrates (.ofRow r) (List.mem_map_of_mem (List.mem_filter.mpr ⟨hr, by simpa using hq⟩))
  have hvalues : (loadPositions upper rates connections userId baseCurrency db).map
      EnrichedPosition.marketValueBase =
        (holdings connections userId db).map (Holding.baseValue upper rates baseCurrency) := by
    unfold holdings rawValues
    rw [Intelligence.loadPositions_eq_map hrows, List.map_map, List.map_map]
    rfl
  exact Blend.shares_congr hvalues

/-! ## When they agree -/

/-- With a rate for each holding, the Risk Meter and the Health Score weight the holdings by their
    shares of the base-currency value, those of the summary and the intelligence, exactly when
    neither total is positive or every holding that has a value converts at one positive rate. -/
theorem weightsAgree_iff (prices : List PriceHistory) (now : Instant)
    (hrates : ∀ h ∈ holdings connections userId db,
      (getRate upper rates h.position.currency baseCurrency none).isSome) :
    WeightsAgree prices upper rates connections userId baseCurrency now db ↔
      (totalValue (holdings connections userId db) ≤ 0 ∧
        ((holdings connections userId db).map (Holding.baseValue upper rates baseCurrency)).sum ≤ 0) ∨
      (0 < totalValue (holdings connections userId db) ∧
        ∃ rate, 0 < rate ∧ ∀ h ∈ holdings connections userId db, h.value ≠ 0 →
          getRate upper rates h.position.currency baseCurrency none = some rate) := by
  have hvalue : ∀ rate, (∀ h ∈ holdings connections userId db,
      Holding.baseValue upper rates baseCurrency h = rate * h.value) ↔
        ∀ h ∈ holdings connections userId db, h.value ≠ 0 →
          getRate upper rates h.position.currency baseCurrency none = some rate := by
    intro rate
    refine forall₂_congr fun h hmem => ?_
    obtain ⟨r, hr⟩ := Option.isSome_iff_exists.mp (hrates h hmem)
    have hbase : Holding.baseValue upper rates baseCurrency h = h.value * r := by
      rw [Holding.baseValue, rateOrZero, hr, Option.getD_some]
    rw [hbase, hr, mul_comm, Option.some.injEq, mul_eq_mul_right_iff]
    tauto
  have hagree : WeightsAgree prices upper rates connections userId baseCurrency now db ↔
      Blend.shares Holding.value (holdings connections userId db) =
        Blend.shares (Holding.baseValue upper rates baseCurrency) (holdings connections userId db) := by
    unfold WeightsAgree loadPortfolioContext
    rw [portfolioContext_holdingWeights, healthContext_holdingWeights, summaryWeights_eq,
      intelligenceWeights_eq hrates]
    unfold baseShares
    tauto
  rw [hagree, Blend.shares_eq_iff]
  simp only [hvalue]
  exact Iff.rfl

/-- One share of `AAPL` in dollars and one of `SHEL` in pounds, each of value 100, at two dollars to
    the pound. -/
def dollarsAndPounds : Session where
  catalog := sampleCatalog
  positions := [⟨7, 1, 1, 100, "USD", 0⟩, ⟨7, 3, 1, 100, "GBP", 0⟩]
  orders := []
  auditLog := []

/-- The connection of `dollarsAndPounds`. -/
def dollarConnections : List BrokerConnection := [⟨7, 1, .alpaca, "A", .active⟩]

/-- Two dollars to the pound. -/
def poundRate : List FxRate := [⟨"GBP", "USD", 2, 0⟩]

/-- Ten shares in one currency: the weights agree. -/
theorem weightsAgree_sample :
    WeightsAgree [] id poundRate dollarConnections 1 "USD" 0 sampleHolding.toSession :=
  (weightsAgree_iff [] 0 (by decide +kernel)).mpr (.inr ⟨by decide +kernel, 1, by norm_num, by decide +kernel⟩)

/-- The pounds are a third of the portfolio, and the Risk Meter counts them half. -/
theorem pounds_weighted_as_dollars :
    (∀ h ∈ holdings dollarConnections 1 dollarsAndPounds,
      (getRate id poundRate h.position.currency "USD" none).isSome) ∧
    (loadPortfolioContext [] dollarConnections 1 dollarsAndPounds).holdingWeights = [1 / 2, 1 / 2] ∧
    baseShares id poundRate dollarConnections 1 "USD" dollarsAndPounds = [1 / 3, 2 / 3] ∧
    ¬ WeightsAgree [] id poundRate dollarConnections 1 "USD" 0 dollarsAndPounds := by
  have hmeter : (loadPortfolioContext [] dollarConnections 1 dollarsAndPounds).holdingWeights = [1 / 2, 1 / 2] := by
    decide +kernel
  have hbase : baseShares id poundRate dollarConnections 1 "USD" dollarsAndPounds = [1 / 3, 2 / 3] := by
    decide +kernel
  refine ⟨by decide +kernel, hmeter, hbase, fun h => ?_⟩
  have heq := h.1
  rw [hmeter, hbase] at heq
  exact absurd heq (by decide +kernel)

end Nivara.Portfolio
