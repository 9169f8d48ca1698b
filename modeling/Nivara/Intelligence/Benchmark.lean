import Nivara.Intelligence.Positions

/-!
# The blended benchmark

The return of the indices in the base currency of a user, weighted by the allocation, is computed
twice: by `blended_portfolio_return` (`services/benchmark.py`, lines 193–254), which converts the
levels of an index, and by `_blended_benchmark_return` (`intelligence/portfolio.py`, lines 438–518),
which compounds its return with the change of the rate.

* Arithmetic is exact. An observation is what `get_return` makes of a fetch; the cache holds one of an
  earlier time.
* `FxRateNotFoundError` is `none`.
* `str.upper` is a parameter, of which `Uppercase` is asked: it is idempotent and leaves the codes of
  the venues as they are.

Results:

* `levels_eq_compounded_iff`: when the two conversions of a return agree.
* `benchmarkReturnInBase_eq_iff`: what the state of an observation and of the rates has to be.
* `blended_eq_iff`: the two computations agree on every allocation exactly when it is so for both
  indices.
-/

namespace Nivara.Intelligence

open Portfolio

/-! ## Observations -/

/-- `NIFTY_SYMBOL` and `SP500_SYMBOL`. -/
inductive BenchmarkSymbol
  | nifty
  | sp500
  deriving DecidableEq, Repr

def BenchmarkSymbol.text : BenchmarkSymbol → String
  | .nifty => "^NSEI"
  | .sp500 => "^GSPC"

/-- `_symbol_currency`. -/
def BenchmarkSymbol.currency : BenchmarkSymbol → String
  | .nifty => "INR"
  | .sp500 => "USD"

/-- `BenchmarkReturn` (`schemas/benchmark.py`). -/
structure BenchmarkReturn where
  symbol : BenchmarkSymbol
  currency : String
  periodDays : ℕ
  periodStart : Instant
  periodEnd : Instant
  closeStart : Option ℚ
  closeEnd : Option ℚ
  totalReturn : ℚ
  stale : Bool
  deriving DecidableEq, Repr

/-- `BenchmarkService.get_return`, past its cache. `fetched` are the first and the last close of the
    window, or `none` when the fetch fails. -/
def getReturn (fetched : Option (ℚ × ℚ)) (symbol : BenchmarkSymbol) (periodDays : ℕ) (now : Instant) :
    BenchmarkReturn :=
  let periodStart := now - periodDays * 86400000000
  match fetched with
  | none => ⟨symbol, symbol.currency, periodDays, periodStart, now, none, none, 0, true⟩
  | some (closeStart, closeEnd) =>
    { symbol := symbol
      currency := symbol.currency
      periodDays := periodDays
      periodStart := periodStart
      periodEnd := now
      closeStart := some closeStart
      closeEnd := some closeEnd
      totalReturn := if 0 < closeStart then closeEnd / closeStart - 1 else 0
      stale := false }

section Model

variable (upper : String → String) (rates : List FxRate) (baseCurrency : String)

/-! ## `blended_portfolio_return` -/

/-- `_VENUE_BENCHMARK`. -/
def venueBenchmark : List (String × BenchmarkSymbol) :=
  [("XNSE", .nifty), ("XBOM", .nifty), ("XNAS", .sp500), ("XNYS", .sp500)]

/-- `benchmark_for_venue`. -/
def benchmarkForVenue (venue : String) : Option BenchmarkSymbol := venueBenchmark.lookup (upper venue)

/-- `benchmark_return_in_base`. -/
def benchmarkReturnInBase (observation : BenchmarkReturn) : Option ℚ :=
  match observation.stale, observation.closeStart, observation.closeEnd with
  | false, some closeStart, some closeEnd =>
    let native := upper observation.currency
    let base := upper baseCurrency
    if native = base then some observation.totalReturn
    else do
      let fxEnd ← getRate upper rates native base (some observation.periodEnd)
      let fxStart ← getRate upper rates native base (some observation.periodStart)
      let startBase := closeStart * fxStart
      let endBase := closeEnd * fxEnd
      if startBase ≤ 0 then some 0 else some (endBase / startBase - 1)
  | _, _, _ => some observation.totalReturn

/-- `blended_portfolio_return`. -/
def blendedPortfolioReturn (observations : BenchmarkSymbol → BenchmarkReturn)
    (weightsByVenue : List (String × ℚ)) : Option ℚ :=
  weightsByVenue.foldlM (fun total (venue, weight) =>
    match benchmarkForVenue upper venue with
    | none => some total
    | some symbol =>
      (benchmarkReturnInBase upper rates baseCurrency (observations symbol)).map fun baseReturn =>
        total + weight * baseReturn) 0

/-! ## `_blended_benchmark_return` -/

/-- `bench_by_market` and `native_by_market`. -/
def benchByMarket : Market → Option (BenchmarkSymbol × String)
  | .india => some (.nifty, "INR")
  | .us => some (.sp500, "USD")
  | .other => none

/-- `_fx_change_pct`. -/
def fxChangePct (native : String) (periodStart periodEnd : Instant) : ℚ :=
  if upper native = upper baseCurrency then 0
  else
    match getRate upper rates native baseCurrency (some periodStart),
      getRate upper rates native baseCurrency (some periodEnd) with
    | some startRate, some endRate => if startRate ≤ 0 then 0 else endRate / startRate - 1
    | _, _ => 0

/-- `geo_weights`. -/
def geoWeight (positions : List EnrichedPosition) (market : Market) : ℚ :=
  ((positions.filter fun p => p.market = market).map EnrichedPosition.marketValueBase).sum

/-- `total_base`. -/
def totalBase (positions : List EnrichedPosition) : ℚ := (positions.map EnrichedPosition.marketValueBase).sum

/-- `bench_in_base` (lines 481–489). -/
def benchInBase (native : String) (bench : BenchmarkReturn) : ℚ :=
  (1 + bench.totalReturn) *
    (1 + fxChangePct upper rates baseCurrency native bench.periodStart bench.periodEnd) - 1

/-- `_blended_benchmark_return`. A market without positions has the weight 0. -/
def blendedBenchmarkReturn (observations : BenchmarkSymbol → BenchmarkReturn)
    (positions : List EnrichedPosition) : ℚ :=
  if totalBase positions ≤ 0 then 0
  else
    ([Market.india, .us, .other].map fun market =>
      match benchByMarket market with
      | none => 0
      | some (symbol, native) =>
        let weightBase := geoWeight positions market
        if weightBase ≤ 0 then 0
        else
          weightBase / totalBase positions * benchInBase upper rates baseCurrency native (observations symbol)).sum

end Model

/-! ## One allocation, given twice -/

/-- The market of an index. -/
def BenchmarkSymbol.market : BenchmarkSymbol → Market
  | .nifty => .india
  | .sp500 => .us

/-- The weight of the venues of an index. -/
def venueShare (upper : String → String) (weightsByVenue : List (String × ℚ)) (symbol : BenchmarkSymbol) : ℚ :=
  ((weightsByVenue.filter fun w => benchmarkForVenue upper w.1 = some symbol).map Prod.snd).sum

/-- The weights of the venues are the shares of the positions, and the allocation is not negative. -/
structure SameAllocation (upper : String → String) (weightsByVenue : List (String × ℚ))
    (positions : List EnrichedPosition) : Prop where
  total_nonneg : 0 ≤ totalBase positions
  value_nonneg : ∀ symbol : BenchmarkSymbol, 0 ≤ geoWeight positions symbol.market
  share : ∀ symbol : BenchmarkSymbol, venueShare upper weightsByVenue symbol =
    geoWeight positions symbol.market / totalBase positions

/-- What is asked of `str.upper`. -/
structure Uppercase (upper : String → String) : Prop where
  idempotent : ∀ text, upper (upper text) = upper text
  venue : ∀ v ∈ venueBenchmark, upper v.1 = v.1

/-- The closes of an index and the rates at both ends of its window are such that levels and compounded
    returns come to the same. -/
def SameReturn (fetched : Option (ℚ × ℚ)) (startRate endRate : Option ℚ) : Prop :=
  match fetched, startRate, endRate with
  | none, some startRate, some endRate => startRate ≤ 0 ∨ endRate = startRate
  | none, _, _ => True
  | some (closeStart, closeEnd), some startRate, some endRate =>
    (0 < closeStart ∧ 0 < startRate) ∨ (0 < closeStart ∧ startRate ≤ 0 ∧ closeEnd = closeStart) ∨
      (closeStart ≤ 0 ∧ 0 < startRate ∧ endRate = startRate) ∨
      (closeStart ≤ 0 ∧ startRate ≤ 0 ∧
        (closeStart * startRate = 0 ∨ closeEnd * endRate = closeStart * startRate))
  | some _, _, _ => False

/-! ## One index -/

variable {upper : String → String} {rates : List FxRate} {baseCurrency : String}

/-- Converting the levels of an index, and compounding its return with that of the rate. -/
theorem levels_eq_compounded_iff (closeStart closeEnd startRate endRate : ℚ) :
    ((if closeStart * startRate ≤ 0 then 0 else closeEnd * endRate / (closeStart * startRate) - 1) =
      (1 + if 0 < closeStart then closeEnd / closeStart - 1 else 0) *
        (1 + if startRate ≤ 0 then 0 else endRate / startRate - 1) - 1) ↔
      SameReturn (some (closeStart, closeEnd)) (some startRate) (some endRate) := by
  unfold SameReturn
  dsimp only
  rcases lt_or_ge 0 closeStart with hclose | hclose <;> rcases lt_or_ge 0 startRate with hrate | hrate
  · have hprod : 0 < closeStart * startRate := mul_pos hclose hrate
    rw [if_neg (not_le.mpr hprod), if_pos hclose, if_neg (not_le.mpr hrate)]
    refine iff_of_true ?_ (.inl ⟨hclose, hrate⟩)
    field_simp
    ring
  · have hprod : closeStart * startRate ≤ 0 := mul_nonpos_of_nonneg_of_nonpos hclose.le hrate
    rw [if_pos hprod, if_pos hclose, if_pos hrate]
    simp only [hclose, hrate, not_lt.mpr hrate, not_le.mpr hclose, true_and, false_and, and_false, false_or,
      or_false]
    rw [show (1 + (closeEnd / closeStart - 1)) * (1 + 0) - 1 = closeEnd / closeStart - 1 by ring, eq_comm,
      sub_eq_zero, div_eq_one_iff_eq hclose.ne']
  · have hprod : closeStart * startRate ≤ 0 := mul_nonpos_of_nonpos_of_nonneg hclose hrate.le
    rw [if_pos hprod, if_neg (not_lt.mpr hclose), if_neg (not_le.mpr hrate)]
    simp only [hclose, hrate, not_lt.mpr hclose, not_le.mpr hrate, true_and, false_and, false_or, or_false]
    rw [show (1 + 0) * (1 + (endRate / startRate - 1)) - 1 = endRate / startRate - 1 by ring, eq_comm,
      sub_eq_zero, div_eq_one_iff_eq hrate.ne']
  · have hprod : 0 ≤ closeStart * startRate := mul_nonneg_of_nonpos_of_nonpos hclose hrate
    rw [if_neg (not_lt.mpr hclose), if_pos hrate]
    simp only [hclose, hrate, not_lt.mpr hclose, not_lt.mpr hrate, true_and, false_and, false_or]
    rcases hprod.eq_or_lt with hzero | hpos
    · rw [if_pos hzero.ge]
      refine iff_of_true (by ring) (.inl hzero.symm)
    · rw [if_neg (not_le.mpr hpos), show ((1 : ℚ) + 0) * (1 + 0) - 1 = 0 by ring, sub_eq_zero,
        div_eq_one_iff_eq hpos.ne']
      exact ⟨.inr, fun h => h.resolve_left hpos.ne'⟩

/-- The rate of an index at one end of its window, as both computations look it up. -/
theorem getRate_upper (h : Uppercase upper) (base quote : String) (asOf : Option Instant) :
    getRate upper rates (upper base) (upper quote) asOf = getRate upper rates base quote asOf := by
  unfold getRate
  rw [h.idempotent, h.idempotent]

/-- The two returns of an index in the base currency agree when it is in that currency, and otherwise
    as its closes and the rates at both ends of the window say. -/
theorem benchmarkReturnInBase_eq_iff (h : Uppercase upper) (fetched : Option (ℚ × ℚ)) (symbol : BenchmarkSymbol)
    (periodDays : ℕ) (now : Instant) :
    benchmarkReturnInBase upper rates baseCurrency (getReturn fetched symbol periodDays now) =
        some (benchInBase upper rates baseCurrency symbol.currency (getReturn fetched symbol periodDays now)) ↔
      upper symbol.currency = upper baseCurrency ∨
        SameReturn fetched
          (getRate upper rates symbol.currency baseCurrency (some (now - periodDays * 86400000000)))
          (getRate upper rates symbol.currency baseCurrency (some now)) := by
  unfold benchInBase fxChangePct benchmarkReturnInBase
  by_cases hbase : upper symbol.currency = upper baseCurrency
  · refine iff_of_true ?_ (.inl hbase)
    rcases fetched with _ | ⟨closeStart, closeEnd⟩ <;> simp [getReturn, hbase]
  rw [or_iff_right hbase]
  rcases fetched with _ | ⟨closeStart, closeEnd⟩
  · simp only [getReturn, if_neg hbase]
    cases getRate upper rates symbol.currency baseCurrency (some (now - periodDays * 86400000000)) with
    | none => simp [SameReturn]
    | some startRate =>
      cases getRate upper rates symbol.currency baseCurrency (some now) with
      | none => simp [SameReturn]
      | some endRate =>
        -- a stale observation has the return 0, which one side compounds with the change of the rate
        unfold SameReturn
        dsimp only
        split_ifs with hrate
        · exact iff_of_true (by norm_num) (.inl hrate)
        · rw [or_iff_right hrate, Option.some_inj, eq_comm,
            show ((1 : ℚ) + 0) * (1 + (endRate / startRate - 1)) - 1 = endRate / startRate - 1 by ring,
            sub_eq_zero, div_eq_one_iff_eq (not_le.mp hrate).ne']
  · simp only [getReturn, if_neg hbase, getRate_upper h]
    cases getRate upper rates symbol.currency baseCurrency (some (now - periodDays * 86400000000)) with
    | none => cases getRate upper rates symbol.currency baseCurrency (some now) <;> simp [SameReturn]
    | some startRate =>
      cases getRate upper rates symbol.currency baseCurrency (some now) with
      | none => simp [SameReturn]
      | some endRate =>
        rw [← levels_eq_compounded_iff]
        simp only [Option.bind_eq_bind, Option.bind_some, ← apply_ite some, Option.some_inj]

/-! ## Allocations -/

section Allocations

variable {observations : BenchmarkSymbol → BenchmarkReturn} {weightsByVenue : List (String × ℚ)}
  {positions : List EnrichedPosition} {returns : BenchmarkSymbol → ℚ}

theorem venueShare_cons (w : String × ℚ) (symbol : BenchmarkSymbol) :
    venueShare upper (w :: weightsByVenue) symbol =
      (if benchmarkForVenue upper w.1 = some symbol then w.2 else 0) + venueShare upper weightsByVenue symbol := by
  unfold venueShare
  rw [List.filter_cons]
  split_ifs with hsymbol <;> simp_all

/-- With a return for each index, the venues blend them by their weights. -/
theorem blendedPortfolioReturn_eq
    (hreturns : ∀ symbol, benchmarkReturnInBase upper rates baseCurrency (observations symbol) =
      some (returns symbol)) (weightsByVenue : List (String × ℚ)) :
    blendedPortfolioReturn upper rates baseCurrency observations weightsByVenue =
      some (venueShare upper weightsByVenue .nifty * returns .nifty +
        venueShare upper weightsByVenue .sp500 * returns .sp500) := by
  suffices hloop : ∀ total, weightsByVenue.foldlM (fun total (w : String × ℚ) =>
      match benchmarkForVenue upper w.1 with
      | none => some total
      | some symbol =>
        (benchmarkReturnInBase upper rates baseCurrency (observations symbol)).map fun baseReturn =>
          total + w.2 * baseReturn) total =
      some (total + (venueShare upper weightsByVenue .nifty * returns .nifty +
        venueShare upper weightsByVenue .sp500 * returns .sp500)) by
    exact (hloop 0).trans (by rw [zero_add])
  simp only [hreturns, Option.map_some]
  induction weightsByVenue with
  | nil => intro total; simp [venueShare]
  | cons w weightsByVenue ih =>
    intro total
    rw [List.foldlM_cons, venueShare_cons, venueShare_cons]
    cases hsymbol : benchmarkForVenue upper w.1 with
    | none =>
      simp only [Option.bind_eq_bind, Option.bind_some, ih, reduceCtorEq, if_false, zero_add]
    | some symbol =>
      simp only [Option.bind_eq_bind, Option.bind_some, ih, Option.some_inj]
      cases symbol <;> simp <;> ring

/-- The markets blend their returns by the same shares. -/
theorem SameAllocation.blendedBenchmarkReturn_eq (h : SameAllocation upper weightsByVenue positions)
    (observations : BenchmarkSymbol → BenchmarkReturn) :
    blendedBenchmarkReturn upper rates baseCurrency observations positions =
      venueShare upper weightsByVenue .nifty *
          benchInBase upper rates baseCurrency "INR" (observations .nifty) +
        venueShare upper weightsByVenue .sp500 *
          benchInBase upper rates baseCurrency "USD" (observations .sp500) := by
  unfold blendedBenchmarkReturn
  rw [h.share, h.share]
  split_ifs with htotal
  · have hzero : totalBase positions = 0 := le_antisymm htotal h.total_nonneg
    simp [hzero]
  · -- a market of weight 0 is skipped, and adds 0
    have hmarket : ∀ (symbol : BenchmarkSymbol) (x : ℚ),
        (if geoWeight positions symbol.market ≤ 0 then 0
          else geoWeight positions symbol.market / totalBase positions * x) =
        geoWeight positions symbol.market / totalBase positions * x := by
      intro symbol x
      split_ifs with hweight
      · rw [le_antisymm hweight (h.value_nonneg symbol), zero_div, zero_mul]
      · rfl
    simp only [List.map_cons, List.map_nil, List.sum_cons, List.sum_nil, benchByMarket, add_zero]
    exact congrArg₂ (· + ·) (hmarket .nifty _) (hmarket .sp500 _)

/-- A venue of an index. -/
def BenchmarkSymbol.venue : BenchmarkSymbol → String
  | .nifty => "XNSE"
  | .sp500 => "XNAS"

theorem benchmarkForVenue_venue (h : Uppercase upper) (symbol : BenchmarkSymbol) :
    benchmarkForVenue upper symbol.venue = some symbol := by
  unfold benchmarkForVenue
  cases symbol
  · rw [BenchmarkSymbol.venue, h.venue ("XNSE", .nifty) (by decide)]
    rfl
  · rw [BenchmarkSymbol.venue, h.venue ("XNAS", .sp500) (by decide)]
    rfl

/-- A position that is all of one market. -/
def soleHolding (symbol : BenchmarkSymbol) : EnrichedPosition :=
  ⟨1, "", "", symbol.market, "Unknown", symbol.currency, 1, 1⟩

/-- Everything in one index. -/
theorem sameAllocation_sole (h : Uppercase upper) (symbol : BenchmarkSymbol) :
    SameAllocation upper [(symbol.venue, 1)] [soleHolding symbol] where
  total_nonneg := by simp [totalBase, soleHolding]
  value_nonneg other := by
    cases symbol <;> cases other <;> simp [geoWeight, soleHolding, BenchmarkSymbol.market]
  share other := by
    rw [venueShare_cons, benchmarkForVenue_venue h]
    cases symbol <;> cases other <;>
      simp [venueShare, geoWeight, totalBase, soleHolding, BenchmarkSymbol.market]

end Allocations

/-! ## The two computations -/

/-- On every allocation the two computations return the same, and neither raises, exactly when for each
    index: its currency is the base currency, or its closes and the rates at both ends of its window
    are such that the levels and the compounded return come to the same. -/
theorem blended_eq_iff (h : Uppercase upper) (rates : List FxRate) (baseCurrency : String) (periodDays : ℕ)
    (fetched : BenchmarkSymbol → Option (ℚ × ℚ)) (now : BenchmarkSymbol → Instant) :
    (∀ weightsByVenue positions, SameAllocation upper weightsByVenue positions →
      blendedPortfolioReturn upper rates baseCurrency
          (fun symbol => getReturn (fetched symbol) symbol periodDays (now symbol)) weightsByVenue =
        some (blendedBenchmarkReturn upper rates baseCurrency
          (fun symbol => getReturn (fetched symbol) symbol periodDays (now symbol)) positions)) ↔
      ∀ symbol : BenchmarkSymbol, upper symbol.currency = upper baseCurrency ∨
        SameReturn (fetched symbol)
          (getRate upper rates symbol.currency baseCurrency (some (now symbol - periodDays * 86400000000)))
          (getRate upper rates symbol.currency baseCurrency (some (now symbol))) := by
  set observations := fun symbol => getReturn (fetched symbol) symbol periodDays (now symbol)
  constructor
  · intro hall symbol
    have hsame := sameAllocation_sole h symbol
    have heq := hall _ _ hsame
    rw [hsame.blendedBenchmarkReturn_eq, venueShare_cons, venueShare_cons, benchmarkForVenue_venue h] at heq
    refine (benchmarkReturnInBase_eq_iff h (fetched symbol) symbol periodDays (now symbol)).mp ?_
    cases hreturn : benchmarkReturnInBase upper rates baseCurrency (observations symbol) with
    | none => simp [blendedPortfolioReturn, benchmarkForVenue_venue h, hreturn] at heq
    | some baseReturn =>
      simp only [blendedPortfolioReturn, List.foldlM_cons, List.foldlM_nil, benchmarkForVenue_venue h,
        hreturn, Option.map_some, Option.bind_eq_bind, Option.bind_some] at heq
      show some baseReturn = some (benchInBase upper rates baseCurrency symbol.currency (observations symbol))
      cases symbol <;> simpa [venueShare, BenchmarkSymbol.currency] using heq
  · intro hcond weightsByVenue positions hsame
    have hreturns : ∀ symbol, benchmarkReturnInBase upper rates baseCurrency (observations symbol) =
        some (benchInBase upper rates baseCurrency symbol.currency (observations symbol)) := fun symbol =>
      (benchmarkReturnInBase_eq_iff h (fetched symbol) symbol periodDays (now symbol)).mpr (hcond symbol)
    rw [blendedPortfolioReturn_eq hreturns, hsame.blendedBenchmarkReturn_eq]
    rfl

/-! ## A stale index -/

/-- The rupee has gone from 80 to 100 to the dollar between day 0 and day 30. -/
def rupeeRates : List FxRate := [⟨"USD", "INR", 80, 0⟩, ⟨"USD", "INR", 100, 30 * 86400000000⟩]

theorem uppercase_id : Uppercase id := ⟨fun _ => rfl, fun _ _ => rfl⟩

/-- Neither index is stale. -/
theorem blended_eq_iff_sample :
    (∀ weightsByVenue positions, SameAllocation id weightsByVenue positions →
      blendedPortfolioReturn id rupeeRates "INR"
          (fun symbol => getReturn (some (100, 110)) symbol 30 (30 * 86400000000)) weightsByVenue =
        some (blendedBenchmarkReturn id rupeeRates "INR"
          (fun symbol => getReturn (some (100, 110)) symbol 30 (30 * 86400000000)) positions)) ↔
      ∀ symbol : BenchmarkSymbol, symbol.currency = "INR" ∨
        SameReturn (some (100, 110)) (getRate id rupeeRates symbol.currency "INR" (some 0))
          (getRate id rupeeRates symbol.currency "INR" (some (30 * 86400000000))) :=
  blended_eq_iff uppercase_id rupeeRates "INR" 30 (fun _ => some (100, 110)) fun _ => 30 * 86400000000

/-- The fetch of the S&P 500 has failed: one computation returns 0, the other the change of the rate. -/
theorem stale_index_disagrees :
    ¬ ∀ (upper : String → String) (rates : List FxRate) (baseCurrency : String) (periodDays : ℕ)
      (fetched : BenchmarkSymbol → Option (ℚ × ℚ)) (now : BenchmarkSymbol → Instant)
      (weightsByVenue : List (String × ℚ)) (positions : List EnrichedPosition),
      Uppercase upper → SameAllocation upper weightsByVenue positions →
      blendedPortfolioReturn upper rates baseCurrency
          (fun symbol => getReturn (fetched symbol) symbol periodDays (now symbol)) weightsByVenue =
        some (blendedBenchmarkReturn upper rates baseCurrency
          (fun symbol => getReturn (fetched symbol) symbol periodDays (now symbol)) positions) := by
  intro h
  have heq := h id rupeeRates "INR" 30 (fun _ => none) (fun _ => 30 * 86400000000) [("XNAS", 1)]
    [soleHolding .sp500] uppercase_id (sameAllocation_sole uppercase_id .sp500)
  revert heq
  decide +kernel

end Nivara.Intelligence
