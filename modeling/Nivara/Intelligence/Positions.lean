import Nivara.Portfolio.Summary

/-!
# The positions of portfolio intelligence

`PortfolioIntelligenceService._load_positions` (`intelligence/portfolio.py`, lines 269-319):
the open positions of a user that convert to the base currency. The instrument has no
`sector` column.

Results:

* `loadPositions_eq_map`: with a rate for each open position every one of them is loaded.
* `summary_totalValue_eq_loadPositions`: the summary's total is that of the loaded positions.
-/

namespace Nivara.Intelligence

open Portfolio

/-- The market codes. -/
inductive Market
  | india
  | us
  | other
  deriving DecidableEq, Repr

/-- `_IN_EXCHANGES`. -/
def inExchanges : List String := ["NSE", "BSE"]

/-- `_US_EXCHANGES`. -/
def usExchanges : List String := ["NASDAQ", "NYSE", "AMEX", "ARCA", "BATS"]

/-- `_EnrichedPosition`. -/
structure EnrichedPosition where
  instrumentId : UUID
  symbol : String
  exchange : String
  market : Market
  sector : String
  nativeCurrency : String
  marketValueNative : ℚ
  marketValueBase : ℚ
  deriving DecidableEq, Repr

section Model

variable (upper : String → String) (rates : List FxRate) (connections : List BrokerConnection)
  (userId : UUID) (baseCurrency : String)

/-- `_market_for_exchange`. -/
def marketForExchange (exchange : String) : Market :=
  if exchange = "" then .other
  else
    let code := upper exchange
    if code ∈ inExchanges then .india
    else if code ∈ usExchanges then .us
    else .other

/-- A position with its rate (lines 307-318). -/
def enrichedPosition (position : Position) (instrument : Instrument) (fxRate : ℚ) : EnrichedPosition :=
  let mvNative := position.quantity * position.avgCost
  { instrumentId := instrument.id
    symbol := instrument.symbol
    exchange := instrument.exchange
    market := marketForExchange upper instrument.exchange
    sector := "Unknown"
    nativeCurrency := position.currency
    marketValueNative := mvNative
    marketValueBase := mvNative * fxRate }

/-- The body of the loop (lines 286-318): a closed position, or one without a rate, is skipped. -/
def loadPosition (row : Position × Instrument) : Option EnrichedPosition :=
  if row.1.quantity = 0 then none
  else (getRate upper rates row.1.currency baseCurrency none).map (enrichedPosition upper row.1 row.2)

/-- `PortfolioIntelligenceService._load_positions`. -/
def loadPositions (db : Session) : List EnrichedPosition :=
  (joinedRows connections userId db).filterMap (loadPosition upper rates baseCurrency)

end Model

variable {upper : String → String} {rates : List FxRate} {connections : List BrokerConnection}
  {userId : UUID} {baseCurrency : String} {db : Session}

/-- With a rate for each open position every one of them is loaded. -/
theorem loadPositions_eq_map
    (hrates : ∀ r ∈ joinedRows connections userId db, r.1.quantity ≠ 0 →
      (getRate upper rates r.1.currency baseCurrency none).isSome) :
    loadPositions upper rates connections userId baseCurrency db =
      ((joinedRows connections userId db).filter fun r => r.1.quantity ≠ 0).map fun r =>
        enrichedPosition upper r.1 r.2 (rateOrZero upper rates baseCurrency r.1.currency) := by
  unfold loadPositions
  generalize joinedRows connections userId db = rows at hrates
  induction rows with
  | nil => rfl
  | cons r rows ih =>
    have ih := ih fun q hq => hrates q (List.mem_cons_of_mem _ hq)
    by_cases hq : r.1.quantity = 0
    · rw [List.filterMap_cons_none (by simp [loadPosition, hq]), List.filter_cons_of_neg (by simp [hq]), ih]
    · obtain ⟨fxRate, hrate⟩ := Option.isSome_iff_exists.mp (hrates r (by simp) hq)
      have hload : loadPosition upper rates baseCurrency r = some (enrichedPosition upper r.1 r.2 fxRate) := by
        rw [loadPosition, if_neg hq, hrate, Option.map_some]
      have hzero : rateOrZero upper rates baseCurrency r.1.currency = fxRate := by
        rw [rateOrZero, hrate, Option.getD_some]
      rw [List.filterMap_cons_some hload, List.filter_cons_of_pos (by simpa using hq), List.map_cons, ih, hzero]

/-- What a row adds to the summary is what it adds to the loaded positions: a position that is
    skipped has no quantity, or is valued at the rate 0. -/
theorem marketValueBase_loadPosition {base base' : String} (h : upper base = upper base')
    (row : Position × Instrument) :
    (positionOut upper rates base row.1 row.2).marketValueBase =
      ((loadPosition upper rates base' row).map EnrichedPosition.marketValueBase).getD 0 := by
  have hrate : getRate upper rates row.1.currency base none = getRate upper rates row.1.currency base' none := by
    unfold getRate
    rw [h]
  have hvalue : (positionOut upper rates base row.1 row.2).marketValueBase =
      row.1.quantity * row.1.avgCost * (getRate upper rates row.1.currency base' none).getD 0 := by
    rw [← hrate]
    rfl
  rw [hvalue, loadPosition]
  by_cases hq : row.1.quantity = 0
  · rw [if_pos hq, hq, zero_mul, zero_mul]
    rfl
  · rw [if_neg hq]
    cases getRate upper rates row.1.currency base' none with
    | none => exact mul_zero _
    | some fxRate => rfl

/-- For every positions table and every table of rates, the total of the summary is the sum over
    the loaded positions, also when the base currency is spelled in another case. -/
theorem summary_totalValue_eq_loadPositions (upper : String → String) (rates : List FxRate)
    (connections : List BrokerConnection) (userId : UUID) (now : Instant) (db : Session) (base base' : String)
    (h : upper base = upper base') :
    (summary upper rates connections userId base now db).totalValue =
      ((loadPositions upper rates connections userId base' db).map EnrichedPosition.marketValueBase).sum := by
  have htotal : (summary upper rates connections userId base now db).totalValue =
      ((enrichedPositions upper rates connections userId base now db).1.map PositionOut.marketValueBase).sum := rfl
  rw [htotal, enrichedPositions_fst, List.map_map]
  unfold loadPositions
  induction joinedRows connections userId db with
  | nil => rfl
  | cons row rows ih =>
    rw [List.map_cons, List.sum_cons, ih, Function.comp_apply, marketValueBase_loadPosition h]
    cases hload : loadPosition upper rates base' row with
    | none => rw [List.filterMap_cons_none hload, Option.map_none, Option.getD_none, zero_add]
    | some p => rw [List.filterMap_cons_some hload, List.map_cons, List.sum_cons]; rfl

/-- An open position, one in a currency without a rate, and a closed one. -/
def threePositions : Session :=
  { sampleHolding.toSession with
    positions := [⟨7, 1, 10, 100, "usd", 0⟩, ⟨7, 2, 1, 100, "GBP", 0⟩, ⟨7, 3, 0, 100, "USD", 0⟩] }

/-- A connection of user 1. -/
def oneConnection : List BrokerConnection := [⟨7, 1, .alpaca, "A", .active⟩]

/-- `str.upper()` of the currencies in use. -/
def upperCurrency (s : String) : String := if s = "usd" then "USD" else s

/-- The first is the whole portfolio, for `usd` as for `USD`. -/
theorem summary_totalValue_eq_loadPositions_sample :
    (summary upperCurrency [] oneConnection 1 "usd" 0 threePositions).totalValue = 1000 ∧
      ((loadPositions upperCurrency [] oneConnection 1 "USD" threePositions).map
        EnrichedPosition.marketValueBase).sum = 1000 := by
  have htotal : (summary upperCurrency [] oneConnection 1 "usd" 0 threePositions).totalValue = 1000 := by
    decide +kernel
  have heq := summary_totalValue_eq_loadPositions upperCurrency [] oneConnection 1 0 threePositions "usd" "USD" rfl
  exact ⟨htotal, heq.symm.trans htotal⟩

end Nivara.Intelligence
