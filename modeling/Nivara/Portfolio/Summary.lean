import Nivara.Portfolio.Session
import Nivara.Lib.Keyed

/-!
# The portfolio summary

`PortfolioSummaryService` (`services/portfolio_summary.py`): the user's positions,
joined with their connections and instruments, valued in the base currency with the
lookup half of `FxService` (`services/fx.py`, lines 87-165). `Decimal` arithmetic is
read as exact.

Results:

* `summary_totalValue`: the total value is the sum over the stored positions of the
  user's connections, each counted once.
-/

namespace Nivara.Portfolio

/-! ## Exchange rates -/

/-- `FxRate` (`models/fx_rates.py`). -/
structure FxRate where
  baseCurrency : String
  quoteCurrency : String
  rate : ℚ
  asOf : Instant
  deriving DecidableEq, Repr

/-- `FxService._lookup`: the rows of the pair, not newer than `asOf` when it is given,
    `ORDER BY as_of DESC LIMIT 1`. `uq_fx_rates_base_quote_asof` leaves no ties. -/
def fxLookup (rates : List FxRate) (base quote : String) (asOf : Option Instant) : Option ℚ :=
  let rows := rates.filter fun r => r.baseCurrency = base ∧ r.quoteCurrency = quote ∧
    ∀ t ∈ asOf, r.asOf ≤ t
  ((rows.insertionSort fun a b => b.asOf ≤ a.asOf).head?).map FxRate.rate

/-- `FxService.get_rate`; `none` is `FxRateNotFoundError`. -/
def getRate (upper : String → String) (rates : List FxRate) (base quote : String)
    (asOf : Option Instant) : Option ℚ :=
  let baseU := upper base
  let quoteU := upper quote
  if baseU = quoteU then some 1
  else
    match fxLookup rates baseU quoteU asOf with
    | some rate => some rate
    | none =>
      match fxLookup rates quoteU baseU asOf with
      | some inverse => if inverse ≠ 0 then some (1 / inverse) else none
      | none => none

example : getRate id [⟨"USD", "INR", 80, 0⟩, ⟨"USD", "INR", 100, 60⟩] "INR" "USD" none =
    some (1 / 100) := by decide +kernel

/-! ## Positions and summary -/

/-- `BrokerConnStatusEnum`. -/
inductive ConnectionStatus
  | active
  | expired
  | revoked
  deriving DecidableEq, Repr

/-- `BrokerConnection` (`models/broker_connections.py`), without the encrypted tokens and
    `token_expires_at`. -/
structure BrokerConnection where
  id : UUID
  userId : UUID
  broker : Broker
  accountId : String
  status : ConnectionStatus
  deriving DecidableEq, Repr

/-- `PositionOut` (`schemas/portfolio.py`), as `_enriched_positions` builds it;
    `fx_attribution` keeps its default. -/
structure PositionOut where
  instrumentId : UUID
  symbol : String
  exchange : String
  quantity : ℚ
  avgCost : ℚ
  currency : String
  marketValueNative : ℚ
  unrealizedPlNative : ℚ
  baseCurrency : String
  marketValueBase : ℚ
  unrealizedPlBase : ℚ
  fxRate : ℚ
  asOf : Instant
  deriving DecidableEq, Repr

/-- `PortfolioSummaryOut` (`schemas/portfolio.py`). -/
structure PortfolioSummaryOut where
  baseCurrency : String
  totalValue : ℚ
  totalCostBasis : ℚ
  totalUnrealizedPl : ℚ
  dailyPl : ℚ
  positionCount : ℕ
  asOf : Instant
  isStale : Bool
  confidence : ℚ
  deriving DecidableEq, Repr

/-- `STALE_THRESHOLD`: two hours. -/
def staleThreshold : Instant := 2 * 60 * 60 * 1000000

/-- `STALE_CONFIDENCE`. -/
def staleConfidence : ℚ := 1 / 2

section Model

variable (upper : String → String) (rates : List FxRate) (connections : List BrokerConnection)
  (userId : UUID) (baseCurrency : String)

/-- The rate a position is valued at: 0 for an unknown pair (lines 123-129). -/
def rateOrZero (native : String) : ℚ := (getRate upper rates native baseCurrency none).getD 0

/-- One row of the response (lines 117-149). -/
def positionOut (position : Position) (instrument : Instrument) : PositionOut :=
  let native := position.currency
  let mvNative := position.quantity * position.avgCost
  let unrealizedNative := 0
  let fxRate := rateOrZero upper rates baseCurrency native
  { instrumentId := instrument.id
    symbol := instrument.symbol
    exchange := instrument.exchange
    quantity := position.quantity
    avgCost := position.avgCost
    currency := native
    marketValueNative := mvNative
    unrealizedPlNative := unrealizedNative
    baseCurrency := baseCurrency
    marketValueBase := mvNative * fxRate
    unrealizedPlBase := unrealizedNative * fxRate
    fxRate := fxRate
    asOf := position.asOf }

/-- The rows of the join (lines 101-110). -/
def joinedRows (db : Session) : List (Position × Instrument) :=
  db.positions.flatMap fun p =>
    (connections.filter fun c => c.id = p.brokerConnectionId ∧ c.userId = userId).flatMap fun _ =>
      (db.catalog.instruments.filter fun i => i.id = p.instrumentId).map fun i => (p, i)

/-- The newest `as_of` of the rows. -/
def newestAsOf (rows : List PositionOut) : Option Instant :=
  rows.foldl (fun newest p =>
    match newest with
    | none => some p.asOf
    | some t => if p.asOf > t then some p.asOf else some t) none

/-- `PortfolioSummaryService._enriched_positions`: the rows, whether they are stale,
    and their time. -/
def enrichedPositions (now : Instant) (db : Session) : List PositionOut × Bool × Instant :=
  let enriched := (joinedRows connections userId db).map fun r =>
    positionOut upper rates baseCurrency r.1 r.2
  match newestAsOf enriched with
  | none => (enriched, false, now)
  | some newest => (enriched, decide (now - newest > staleThreshold), newest)

/-- `PortfolioSummaryService.summary`. -/
def summary (now : Instant) (db : Session) : PortfolioSummaryOut :=
  let (positions, isStale, asOf) := enrichedPositions upper rates connections userId baseCurrency now db
  { baseCurrency := baseCurrency
    totalValue := (positions.map PositionOut.marketValueBase).sum
    totalCostBasis := (positions.map fun p => p.avgCost * p.quantity * p.fxRate).sum
    totalUnrealizedPl := (positions.map PositionOut.unrealizedPlBase).sum
    dailyPl := 0
    positionCount := (positions.filter fun p => p.quantity ≠ 0).length
    asOf := asOf
    isStale := isStale
    confidence := if isStale then staleConfidence else 1 }

/-- The value of a holding in the base currency. -/
def valueOf (quantity price : ℚ) (currency : String) : ℚ :=
  quantity * price * rateOrZero upper rates baseCurrency currency

/-- The value a stored position contributes. -/
def Position.value (p : Position) : ℚ := valueOf upper rates baseCurrency p.quantity p.avgCost p.currency

end Model

variable {upper : String → String} {rates : List FxRate} {connections : List BrokerConnection}
  {userId : UUID} {baseCurrency : String}

/-! ## The total -/

/-- The connection is one of the user's. -/
def OwnedBy (connections : List BrokerConnection) (userId conn : UUID) : Prop :=
  ∃ c ∈ connections, c.id = conn ∧ c.userId = userId

instance (conn : UUID) : Decidable (OwnedBy connections userId conn) := by
  unfold OwnedBy; infer_instance

/-- A position of the user has one row in the join, any other none. -/
theorem joinedRows_of_position (userId : UUID) {db : Session} (hids : (connections.map BrokerConnection.id).Nodup)
    {p : Position} (hinst : ∃ i ∈ db.catalog.instruments, i.id = p.instrumentId) :
    ∃ i : Instrument,
      ((connections.filter fun c => c.id = p.brokerConnectionId ∧ c.userId = userId).flatMap fun _ =>
        (db.catalog.instruments.filter fun i => i.id = p.instrumentId).map fun i => (p, i)) =
      if OwnedBy connections userId p.brokerConnectionId then [(p, i)] else [] := by
  obtain ⟨i, hi, hid⟩ := hinst
  refine ⟨i, ?_⟩
  have hone : db.catalog.instruments.filter (fun j => j.id = p.instrumentId) = [i] := by
    rw [← hid]; exact Keyed.filter_key_eq_singleton db.catalog.ids_nodup hi
  rw [hone]
  by_cases ho : OwnedBy connections userId p.brokerConnectionId
  · obtain ⟨c, hc, hcid, hcu⟩ := ho
    have hconn : connections.filter (fun c => c.id = p.brokerConnectionId ∧ c.userId = userId) = [c] := by
      have hkey := Keyed.filter_key_eq_singleton hids hc
      rw [← hkey]
      apply List.filter_congr
      intro d hd
      rw [decide_eq_decide, hcid]
      constructor
      · exact fun h => h.1
      · intro h
        have hdc : d = c := List.inj_on_of_nodup_map hids hd hc (h.trans hcid.symm)
        exact ⟨h, hdc ▸ hcu⟩
    rw [if_pos ⟨c, hc, hcid, hcu⟩, hconn]
    rfl
  · have hnil : connections.filter (fun c => c.id = p.brokerConnectionId ∧ c.userId = userId) = [] := by
      rw [List.filter_eq_nil_iff]
      intro c hc h
      rw [decide_eq_true_eq] at h
      exact ho ⟨c, hc, h⟩
    rw [if_neg ho, hnil]
    rfl

/-- The enriched rows do not depend on the time. -/
theorem enrichedPositions_fst {db : Session} (now : Instant) :
    (enrichedPositions upper rates connections userId baseCurrency now db).1 =
      (joinedRows connections userId db).map fun r => positionOut upper rates baseCurrency r.1 r.2 := by
  unfold enrichedPositions
  cases hn : newestAsOf ((joinedRows connections userId db).map fun r =>
    positionOut upper rates baseCurrency r.1 r.2) <;> simp only [hn]

/-- The total value of the summary: every stored position of the user's connections is
    counted once. -/
theorem summary_totalValue {db : Session} (now : Instant)
    (hids : (connections.map BrokerConnection.id).Nodup)
    (hinst : ∀ p ∈ db.positions, ∃ i ∈ db.catalog.instruments, i.id = p.instrumentId) :
    (summary upper rates connections userId baseCurrency now db).totalValue =
      ((db.positions.filter fun p => OwnedBy connections userId p.brokerConnectionId).map
        (Position.value upper rates baseCurrency)).sum := by
  have htotal : (summary upper rates connections userId baseCurrency now db).totalValue =
      (((joinedRows connections userId db).map fun r => positionOut upper rates baseCurrency r.1 r.2).map
        PositionOut.marketValueBase).sum := by
    rw [← enrichedPositions_fst now]; rfl
  rw [htotal, List.map_map]
  unfold joinedRows
  generalize hl : db.positions = l at hinst
  clear hl
  induction l with
  | nil => rfl
  | cons p l ih =>
    obtain ⟨i, hrow⟩ := joinedRows_of_position userId hids (hinst p (by simp))
    rw [List.flatMap_cons, List.map_append, List.sum_append, hrow,
      ih fun q hq => hinst q (List.mem_cons_of_mem _ hq), List.filter_cons]
    by_cases ho : OwnedBy connections userId p.brokerConnectionId
    · simp [ho, positionOut, Position.value, valueOf]
    · simp [ho]

end Nivara.Portfolio
