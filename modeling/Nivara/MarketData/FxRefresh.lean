import Nivara.Lib.ExpiringKeys
import Nivara.Lib.Transition
import Nivara.MarketData.AnnualGrowth
import Nivara.MarketData.FxFallback
import Nivara.Portfolio.FxRates

/-!
# The cached exchange rate

`FxRefreshService` (`services/fx.py`, lines 153–225): a refresh asks the providers, upserts their
answer into `fx_rates` and sets `fx:USD_INR` to it. `get_rate` without `as_of` selects the newest
row; the key has what was written last.

* A refresh is one step. What the providers answer, when it runs, and whether the database and
  Redis take what is written are given with it.
* The column refuses what is no number. Postgres does so for the infinities; a `NaN` it stores.

Results:

* `payload_agrees_iff`: when what a refresh writes to the key is the newest row.
* `FxState.consistent_refresh`: what one refresh keeps.
* `refresh_agrees`: in every run of refreshes whose answers are not older than the newest row, the
  key has the newest row and does not go back.
* `backfill_moves_back`: a refresh for a past date.
-/

namespace Nivara.MarketData

open ExpiringKeys
open Portfolio (FxRate Instant UniqueDates getRate)
open Transition (Run)

/-! ## Model -/

/-- The columns of `uq_fx_rates_base_quote_asof`. -/
def FxRate.key (r : FxRate) : String × String × Instant := (r.baseCurrency, r.quoteCurrency, r.asOf)

/-- `Numeric(20, 10)`. -/
def rateColumn (x : ℚ) : Except DataError ℚ :=
  let n := Decimal.roundHalfAway (x * 10 ^ 10)
  if n.natAbs < 10 ^ 20 then .ok (n / 10 ^ 10) else .error .numericFieldOverflow

/-- What the column stores. -/
def rateOf (d : PyDecimal) : Except DataError ℚ :=
  match PyDecimal.rat d with
  | some x => rateColumn x
  | none => .error .numericFieldOverflow

/-- `as_of_day` of `_upsert`; `as_of` is the same instant. -/
def FxObservation.asOfDay (o : FxObservation) : Instant := o.asOf.days * hours 24

/-- The payload of `_cache`. -/
structure CachedRate where
  rate : PyDecimal
  asOf : Instant
  source : String
  deriving DecidableEq

/-- `FX_CACHE_TTL_SECONDS`. -/
def fxCacheTtl : ℤ := seconds (24 * 60 * 60)

/-- The table `fx_rates`, and Redis. -/
structure FxState where
  rates : List FxRate
  cache : Store String CachedRate ℤ

/-- How a call of `refresh_usd_inr` fails. -/
inductive RefreshError
  | fetch (e : Raised)
  | data (e : DataError)
  | database
  deriving DecidableEq

/-- A call of `refresh_usd_inr`. -/
structure Refresh (F : Type) where
  asOf : Option Date
  apiKey : Option String
  http : Request → Reply F
  /-- The database takes the statement. -/
  database : Bool
  /-- Redis takes the command. -/
  redis : Bool
  now : Instant

section Model

variable {F : Type} (f : Floats F) (upper : String → String)

/-- `fx_cache_key`. -/
def fxCacheKey (base quote : String) : String := "fx:" ++ upper base ++ "_" ++ upper quote

/-- The values of `_upsert`. -/
def FxObservation.row (o : FxObservation) (rate : ℚ) : FxRate :=
  ⟨o.baseCurrency, o.quoteCurrency, rate, o.asOfDay⟩

/-- `_upsert`. -/
def FxObservation.upsert (o : FxObservation) (rates : List FxRate) : Except DataError (List FxRate) := do
  let rate ← rateOf o.rate
  return Keyed.upsert FxRate.key (o.row rate) rates

def FxObservation.payload (o : FxObservation) : CachedRate := ⟨o.rate, o.asOfDay, o.source⟩

/-- `_cache`. A failure is logged. -/
def FxObservation.cache (o : FxObservation) (redis : Bool) (now : Instant)
    (cache : Store String CachedRate ℤ) : Store String CachedRate ℤ :=
  if redis then setEx now (fxCacheKey upper o.baseCurrency o.quoteCurrency) o.payload fxCacheTtl cache
    else cache

/-- The answer of the providers to the call. -/
def Refresh.answer (call : Refresh F) : Except Raised FxObservation :=
  (FredEcbClient.getLatestUsdInr f call.http call.apiKey call.asOf).outcome

/-- `refresh_usd_inr`: the state after it, and how it ends. -/
def refreshUsdInr (call : Refresh F) (s : FxState) : FxState × Except RefreshError FxObservation :=
  match call.answer f with
  | .error e => (s, .error (.fetch e))
  | .ok o =>
    if !call.database then (s, .error .database)
    else
      match o.upsert s.rates with
      | .error e => (s, .error (.data e))
      | .ok rates => (⟨rates, o.cache upper call.redis call.now s.cache⟩, .ok o)

/-- `get_rate(base="USD", quote="INR")`. -/
def FxState.latestRate (s : FxState) : Option ℚ := getRate upper s.rates "USD" "INR" none

/-- The cached entry of the pair. -/
def FxState.cached (now : Instant) (s : FxState) : Option CachedRate :=
  getKey now (fxCacheKey upper "USD" "INR") s.cache

/-- Refreshes, one after the other. -/
def RefreshStep (s : FxState) (call : Refresh F) (t : FxState) : Prop :=
  (refreshUsdInr f upper call s).1 = t

end Model

/-! ## What is to hold -/

/-- No row of USD/INR is newer. -/
def Newest (rates : List FxRate) (t : Instant) : Prop :=
  ∀ r ∈ rates, r.Selected "USD" "INR" none → r.asOf ≤ t

/-- The entry is that of the newest row, and what `get_rate` returns. -/
structure CachedRate.Agrees (upper : String → String) (s : FxState) (c : CachedRate) : Prop where
  row : ∃ r ∈ s.rates, r.Selected "USD" "INR" none ∧ r.asOf = c.asOf ∧ PyDecimal.rat c.rate = some r.rate
  newest : Newest s.rates c.asOf
  latestRate : PyDecimal.rat c.rate = s.latestRate upper

/-- The column stores the rate as it is. -/
def FxObservation.AtMostTenDecimals (o : FxObservation) : Prop :=
  ∃ x, PyDecimal.rat o.rate = some x ∧ (x * 10 ^ 10).den = 1

/-- The answer of the providers, if there is one, is not older than the newest row, and the column
    and Redis take it as it is. -/
def Refresh.Advances {F : Type} (f : Floats F) (s : FxState) (call : Refresh F) : Prop :=
  ∀ o, call.answer f = .ok o → Newest s.rates o.asOfDay ∧ o.AtMostTenDecimals ∧ call.redis = true

/-- One row for a date, and an entry that agrees with the rows if there is one. -/
structure FxState.Consistent (upper : String → String) (s : FxState) : Prop where
  unique : UniqueDates s.rates
  agrees : ∀ now c, s.cached upper now = some c → c.Agrees upper s

/-! ## What the providers answer -/

section Answers

variable {F : Type} {f : Floats F}

/-- An observation of USD/INR. -/
def FxObservation.IsUsdInr (o : FxObservation) : Prop := o.baseCurrency = "USD" ∧ o.quoteCurrency = "INR"

theorem EcbClient.isUsdInr_of_reading {observations : Json F} {timeValues : List (Json F)} {idx : ℤ}
    {o : FxObservation} (h : EcbClient.reading f observations timeValues idx = .ok (some o)) :
    o.IsUsdInr := by
  obtain ⟨raw, -, h⟩ := Loop.of_bind_eq_ok h
  by_cases htruthy : (!raw.truthy f) = true
  · rw [if_pos htruthy] at h
    cases h
  rw [if_neg htruthy] at h
  obtain ⟨value, -, h⟩ := Loop.of_bind_eq_ok h
  by_cases hnull : value.isNull = true
  · rw [if_pos hnull] at h
    cases h
  rw [if_neg hnull] at h
  split at h
  · cases h
  · by_cases hidx : (timeValues.length : ℤ) ≤ idx
    · rw [if_pos hidx] at h
      cases h
    rw [if_neg hidx] at h
    obtain ⟨time, -, h⟩ := Loop.of_bind_eq_ok h
    obtain ⟨d, -, h⟩ := Loop.of_bind_eq_ok h
    cases h
    exact ⟨rfl, rfl⟩

theorem EcbClient.isUsdInr_of_parse {payload : Json F} {o : FxObservation}
    (h : EcbClient.parse f payload = .ok (.ok o)) : o.IsUsdInr := by
  obtain ⟨dataSets, -, h⟩ := Loop.of_bind_eq_ok h
  dsimp only at h
  split_ifs at h
  · cases h
  obtain ⟨first, -, h⟩ := Loop.of_bind_eq_ok h
  obtain ⟨seriesMap, -, h⟩ := Loop.of_bind_eq_ok h
  split_ifs at h
  · cases h
  obtain ⟨series, -, h⟩ := Loop.of_bind_eq_ok h
  obtain ⟨observations, -, h⟩ := Loop.of_bind_eq_ok h
  split_ifs at h
  · cases h
  unfold EcbClient.parseStructure at h
  obtain ⟨structure', -, h⟩ := Loop.of_bind_eq_ok h
  obtain ⟨dimensions, -, h⟩ := Loop.of_bind_eq_ok h
  obtain ⟨dims, -, h⟩ := Loop.of_bind_eq_ok h
  obtain ⟨ds, -, h⟩ := Loop.of_bind_eq_ok h
  obtain ⟨timeDim, -, h⟩ := Loop.of_bind_eq_ok h
  cases timeDim with
  | none => cases h
  | some timeDim =>
    unfold EcbClient.parseObservations at h
    obtain ⟨values, -, h⟩ := Loop.of_bind_eq_ok h
    obtain ⟨items, -, h⟩ := Loop.of_bind_eq_ok h
    obtain ⟨timeValues, -, h⟩ := Loop.of_bind_eq_ok h
    obtain ⟨keys, -, h⟩ := Loop.of_bind_eq_ok h
    obtain ⟨indices, -, h⟩ := Loop.of_bind_eq_ok h
    obtain ⟨found, hfound, h⟩ := Loop.of_bind_eq_ok h
    cases found with
    | none => cases h
    | some o' =>
      cases h
      obtain ⟨_, idx, _, -, -, hreading⟩ := Raises.findSomeM?_eq_some.mp hfound
      exact EcbClient.isUsdInr_of_reading hreading

/-- Whoever answers, it is an observation of the pair. -/
theorem FredEcbClient.isUsdInr {http : Request → Reply F} {apiKey : Option String} {asOf : Option Date}
    {o : FxObservation} (h : (FredEcbClient.getLatestUsdInr f http apiKey asOf).outcome = .ok o) :
    o.IsUsdInr := by
  unfold FredEcbClient.getLatestUsdInr at h
  dsimp only at h
  split at h
  case h_1 o' hfred =>
    obtain rfl := Except.ok.inj h
    obtain ⟨_, _, rate, d, -, -, -, rfl⟩ := FredClient.getLatestUsdInr_eq_ok.mp hfred
    exact ⟨rfl, rfl⟩
  case h_2 => cases h
  case h_3 =>
    unfold EcbClient.getLatestUsdInr at h
    obtain ⟨payload, -, h⟩ := Loop.of_bind_eq_ok h
    split at h
    case h_1 o' hparse =>
      cases h
      exact EcbClient.isUsdInr_of_parse hparse
    case h_2 => cases h
    case h_3 => cases h

end Answers

/-! ## The table -/

section Table

variable {upper : String → String} {s : FxState} {rates : List FxRate} {o : FxObservation} {row : FxRate}
  {cache : Store String CachedRate ℤ}

theorem eq_of_key (h : UniqueDates rates) {r r' : FxRate} (hr : r ∈ rates) (hr' : r' ∈ rates)
    (hkey : FxRate.key r = FxRate.key r') : r = r' := by
  obtain ⟨hbase, hrest⟩ := Prod.mk.inj hkey
  obtain ⟨hquote, hdate⟩ := Prod.mk.inj hrest
  exact h r hr r' hr' hbase hquote hdate

theorem uniqueDates_upsert (h : UniqueDates rates) : UniqueDates (Keyed.upsert FxRate.key row rates) := by
  intro r hr r' hr' hbase hquote hdate
  have hkey : FxRate.key r = FxRate.key r' := Prod.ext hbase (Prod.ext hquote hdate)
  rcases Keyed.mem_upsert.mp hr with rfl | ⟨hold, hne⟩ <;>
    rcases Keyed.mem_upsert.mp hr' with rfl | ⟨hold', hne'⟩
  · rfl
  · exact absurd hkey.symm hne'
  · exact absurd hkey hne
  · exact eq_of_key h hold hold' hkey

theorem selected_row (ho : o.IsUsdInr) (rate : ℚ) : (o.row rate).Selected "USD" "INR" none :=
  ⟨ho.1, ho.2, fun _ ht => by cases ht⟩

/-- A row of the pair has the key of the row of an observation when it has its date. -/
theorem key_eq_row (ho : o.IsUsdInr) {r : FxRate} (hr : r.Selected "USD" "INR" none)
    (hdate : r.asOf = o.asOfDay) (rate : ℚ) : FxRate.key r = FxRate.key (o.row rate) :=
  Prod.ext (hr.1.trans ho.1.symm) (Prod.ext (hr.2.1.trans ho.2.symm) hdate)

/-- The column stores a value as it is exactly when it has at most ten decimals. -/
theorem rateColumn_eq_iff {x y : ℚ} (h : rateColumn x = .ok y) : y = x ↔ (x * 10 ^ 10).den = 1 := by
  have hy : y = Decimal.roundHalfAway (x * 10 ^ 10) / 10 ^ 10 := by
    unfold rateColumn at h
    dsimp only at h
    split_ifs at h
    exact (Except.ok.inj h).symm
  constructor
  · rintro rfl
    have hint : y * 10 ^ 10 = (Decimal.roundHalfAway (y * 10 ^ 10) : ℚ) := by
      conv_lhs => rw [hy]
      field_simp
    rw [hint, Rat.den_intCast]
  · intro hden
    rw [hy, Decimal.roundHalfAway_of_den_eq_one hden]
    field_simp

theorem upsert_eq_ok (h : o.upsert s.rates = .ok rates) :
    ∃ x rate, PyDecimal.rat o.rate = some x ∧ rateColumn x = .ok rate ∧
      rates = Keyed.upsert FxRate.key (o.row rate) s.rates := by
  obtain ⟨rate, hrate, h⟩ := Loop.of_bind_eq_ok h
  unfold rateOf at hrate
  split at hrate
  · exact ⟨_, rate, ‹_›, hrate, (Except.ok.inj h).symm⟩
  · cases hrate

/-- `get_rate` returns the rate of the newest row. -/
theorem latestRate_eq (husd : upper "USD" = "USD") (hinr : upper "INR" = "INR")
    (hunique : UniqueDates s.rates) {r : FxRate} (hr : r ∈ s.rates)
    (hselected : r.Selected "USD" "INR" none) (hnewest : Newest s.rates r.asOf) :
    s.latestRate upper = some r.rate := by
  unfold FxState.latestRate getRate
  dsimp only
  rw [husd, hinr, if_neg (by decide),
    (Portfolio.fxLookup_eq_some_iff hunique).mpr ⟨r, hr, hselected, rfl, hnewest⟩]

/-- What a refresh writes to the key is the newest row exactly when no row is newer than the
    observation and its rate is stored as it is. -/
theorem payload_agrees_iff (husd : upper "USD" = "USD") (hinr : upper "INR" = "INR")
    (hunique : UniqueDates s.rates) (ho : o.IsUsdInr) (h : o.upsert s.rates = .ok rates) :
    o.payload.Agrees upper ⟨rates, cache⟩ ↔ Newest s.rates o.asOfDay ∧ o.AtMostTenDecimals := by
  obtain ⟨x, rate, hx, hrate, rfl⟩ := upsert_eq_ok h
  constructor
  · rintro ⟨⟨r, hr, hselected, hdate, hvalue⟩, hnewest, -⟩
    have hkey := key_eq_row ho hselected hdate rate
    obtain rfl : r = o.row rate := (Keyed.mem_upsert.mp hr).resolve_right fun hold => hold.2 hkey
    obtain rfl : x = rate := Option.some.inj (hx.symm.trans hvalue)
    refine ⟨fun r' hr' hselected' => ?_, x, hx, (rateColumn_eq_iff hrate).mp rfl⟩
    by_cases hkey' : FxRate.key r' = FxRate.key (o.row x)
    · exact (congrArg (fun k => k.2.2) hkey').le
    · exact hnewest r' (Keyed.mem_upsert.mpr (.inr ⟨hr', hkey'⟩)) hselected'
  · rintro ⟨hnewest, x', hx', hden⟩
    obtain rfl : x = x' := Option.some.inj (hx.symm.trans hx')
    obtain rfl : rate = x := (rateColumn_eq_iff hrate).mpr hden
    have hmem : o.row rate ∈ Keyed.upsert FxRate.key (o.row rate) s.rates := Keyed.mem_upsert.mpr (.inl rfl)
    have hnewest' : Newest (Keyed.upsert FxRate.key (o.row rate) s.rates) o.asOfDay := by
      intro r hr hselected
      rcases Keyed.mem_upsert.mp hr with rfl | ⟨hold, -⟩
      · exact le_rfl
      · exact hnewest r hold hselected
    have hlatest := latestRate_eq (s := ⟨_, cache⟩) husd hinr (uniqueDates_upsert hunique) hmem
      (selected_row ho rate) hnewest'
    exact ⟨⟨_, hmem, selected_row ho rate, rfl, hx⟩, hnewest', hx.trans hlatest.symm⟩

end Table

/-! ## Refreshes -/

section Refreshes

variable {F : Type} {f : Floats F} {upper : String → String} {s t : FxState} {call : Refresh F}

/-- A refresh fails and changes nothing, or writes the answer of the providers. -/
theorem refreshUsdInr_cases (f : Floats F) (upper : String → String) (call : Refresh F) (s : FxState) :
    (∃ e, refreshUsdInr f upper call s = (s, .error e)) ∨
      ∃ o rates, call.answer f = .ok o ∧ o.IsUsdInr ∧ o.upsert s.rates = .ok rates ∧
        refreshUsdInr f upper call s = (⟨rates, o.cache upper call.redis call.now s.cache⟩, .ok o) := by
  unfold refreshUsdInr
  cases hanswer : call.answer f with
  | error e => exact .inl ⟨_, rfl⟩
  | ok o =>
    dsimp only
    by_cases hdatabase : (!call.database) = true
    · rw [if_pos hdatabase]
      exact .inl ⟨_, rfl⟩
    · rw [if_neg hdatabase]
      cases hupsert : o.upsert s.rates with
      | error e => exact .inl ⟨_, rfl⟩
      | ok rates => exact .inr ⟨o, rates, rfl, FredEcbClient.isUsdInr hanswer, hupsert, rfl⟩

/-- A refresh keeps the rows of all dates. -/
theorem exists_key_refresh (f : Floats F) (upper : String → String) (call : Refresh F) {r : FxRate}
    (hr : r ∈ s.rates) :
    ∃ r' ∈ (refreshUsdInr f upper call s).1.rates, FxRate.key r' = FxRate.key r := by
  rcases refreshUsdInr_cases f upper call s with ⟨e, he⟩ | ⟨o, rates, -, -, hupsert, he⟩
  · rw [he]
    exact ⟨r, hr, rfl⟩
  · obtain ⟨x, rate, -, -, rfl⟩ := upsert_eq_ok hupsert
    rw [he]
    exact Keyed.exists_mem_upsert hr

/-- What is in the key after a write. -/
theorem cached_cache {o : FxObservation} (upper : String → String) (ho : o.IsUsdInr) (now : Instant)
    (rates : List FxRate) (cache : Store String CachedRate ℤ) :
    FxState.cached upper now ⟨rates, o.cache upper true now cache⟩ = some o.payload ∧
      ∀ now' c, FxState.cached upper now' ⟨rates, o.cache upper true now cache⟩ = some c →
        c = o.payload := by
  have hkey : fxCacheKey upper "USD" "INR" = fxCacheKey upper o.baseCurrency o.quoteCurrency := by
    rw [ho.1, ho.2]
  unfold FxState.cached FxObservation.cache
  dsimp only
  rw [hkey, if_pos rfl]
  exact ⟨getKey_setEx (lt_add_of_pos_right now (by decide)) _, fun now' c hc => eq_of_getKey_setEx hc⟩

variable (husd : upper "USD" = "USD") (hinr : upper "INR" = "INR")

include husd hinr

/-- A refresh that succeeds and advances leaves the newest row in the key. -/
theorem agrees_refresh {o : FxObservation} (hunique : UniqueDates s.rates) (hadvances : call.Advances f s)
    (h : (refreshUsdInr f upper call s).2 = .ok o) :
    (refreshUsdInr f upper call s).1.cached upper call.now = some o.payload ∧
      o.payload.Agrees upper (refreshUsdInr f upper call s).1 ∧
      ∀ now c, (refreshUsdInr f upper call s).1.cached upper now = some c → c = o.payload := by
  rcases refreshUsdInr_cases f upper call s with ⟨e, he⟩ | ⟨o', rates, hanswer, ho, hupsert, he⟩
  · rw [he] at h
    cases h
  · rw [he] at h
    obtain rfl := Except.ok.inj h
    obtain ⟨hnewest, hdecimals, hredis⟩ := hadvances _ hanswer
    rw [he, hredis]
    obtain ⟨hcached, hall⟩ := cached_cache upper ho call.now rates s.cache
    exact ⟨hcached, (payload_agrees_iff husd hinr hunique ho hupsert).mpr ⟨hnewest, hdecimals⟩, hall⟩

/-- A refresh that advances keeps one row for a date, and an entry that agrees with the rows. -/
theorem FxState.consistent_refresh (hs : s.Consistent upper) (hadvances : call.Advances f s) :
    (refreshUsdInr f upper call s).1.Consistent upper := by
  rcases refreshUsdInr_cases f upper call s with ⟨e, he⟩ | ⟨o, rates, -, -, hupsert, he⟩
  · rw [he]
    exact hs
  · obtain ⟨hcached, hagrees, hall⟩ := agrees_refresh husd hinr hs.unique hadvances (congrArg Prod.snd he)
    refine ⟨?_, fun now c hc => hall now c hc ▸ hagrees⟩
    obtain ⟨x, rate, -, -, rfl⟩ := upsert_eq_ok hupsert
    rw [he]
    exact uniqueDates_upsert hs.unique

/-- What a run keeps: the state is consistent, and no row has been lost. -/
theorem consistent_of_run (hs : s.Consistent upper)
    (hrun : Run (RefreshStep f upper) (fun s call => Refresh.Advances f s call) s t) :
    t.Consistent upper ∧ ∀ r ∈ s.rates, ∃ r' ∈ t.rates, FxRate.key r' = FxRate.key r := by
  refine hrun.invariant
    (I := fun u => u.Consistent upper ∧ ∀ r ∈ s.rates, ∃ r' ∈ u.rates, FxRate.key r' = FxRate.key r)
    ⟨hs, fun r hr => ⟨r, hr, rfl⟩⟩ ?_
  rintro u call _ ⟨hu, hrows⟩ hadvances rfl
  refine ⟨FxState.consistent_refresh husd hinr hu hadvances, fun r hr => ?_⟩
  obtain ⟨r', hr', hkey⟩ := hrows r hr
  obtain ⟨r'', hr'', hkey'⟩ := exists_key_refresh f upper call hr'
  exact ⟨r'', hr'', hkey'.trans hkey⟩

/-- In every run of refreshes that advance, the key holds the newest row whenever it is there and
    after each refresh that succeeds, and it does not go back. -/
theorem refresh_agrees (hs : s.Consistent upper)
    (hrun : Run (RefreshStep f upper) (fun s call => Refresh.Advances f s call) s t) :
    (∀ now c, t.cached upper now = some c → c.Agrees upper t) ∧
      (∀ now now' c c', s.cached upper now = some c → t.cached upper now' = some c' → c.asOf ≤ c'.asOf) ∧
      ∀ (call : Refresh F) o, call.Advances f t → (refreshUsdInr f upper call t).2 = .ok o →
        ∃ c, (refreshUsdInr f upper call t).1.cached upper call.now = some c ∧
          c.Agrees upper (refreshUsdInr f upper call t).1 := by
  obtain ⟨ht, hrows⟩ := consistent_of_run husd hinr hs hrun
  refine ⟨ht.agrees, fun now now' c c' hc hc' => ?_, fun call o hadvances hok => ?_⟩
  · obtain ⟨r, hr, hselected, hdate, -⟩ := (hs.agrees now c hc).row
    obtain ⟨r', hr', hkey⟩ := hrows r hr
    obtain ⟨hbase, hrest⟩ := Prod.mk.inj hkey
    obtain ⟨hquote, hdate'⟩ := Prod.mk.inj hrest
    have hselected' : r'.Selected "USD" "INR" none :=
      ⟨hbase.trans hselected.1, hquote.trans hselected.2.1, fun _ ht => by cases ht⟩
    calc
      c.asOf = r'.asOf := (hdate'.trans hdate).symm
      _ ≤ c'.asOf := (ht.agrees now' c' hc').newest r' hr' hselected'
  · obtain ⟨hcached, hagrees, -⟩ := agrees_refresh husd hinr ht.unique hadvances hok
    exact ⟨_, hcached, hagrees⟩

end Refreshes

/-- FRED answers with one observation. -/
def fredAnswers (date value : String) (_ : Request) : Reply Empty :=
  .response 200 (.json (.obj [(py "observations", .arr [.obj [
    (py "date", .str (py date)), (py "value", .str (py value))]])]))

/-- A refresh at the epoch that goes through. -/
def refreshOf (asOf : Option Date) (date value : String) : Refresh Empty :=
  ⟨asOf, some "k", fredAnswers date value, true, true, 0⟩

/-- No rows, and no key. -/
def noRates : FxState := ⟨[], fun _ => none⟩

theorem noRates_consistent : noRates.Consistent id :=
  ⟨fun _ hr => (List.not_mem_nil hr).elim, fun _ c hc => (Option.some_ne_none c hc.symm).elim⟩

def tenthOfApril : FxObservation :=
  FredClient.observation (.finite false 8310 (-2)) ⟨2025, 4, 10, by decide, by decide, by decide⟩

def eleventhOfApril : FxObservation :=
  FredClient.observation (.finite false 8325 (-2)) ⟨2025, 4, 11, by decide, by decide, by decide⟩

theorem answer_refreshOf : (refreshOf none "2025-04-10" "83.10").answer noDoubles = .ok tenthOfApril ∧
    (refreshOf none "2025-04-11" "83.25").answer noDoubles = .ok eleventhOfApril := by
  decide +kernel

/-- The observations of two days, one after the other. -/
theorem refresh_agrees_sample :
    let s := (refreshUsdInr noDoubles id (refreshOf none "2025-04-10" "83.10") noRates).1
    let t := (refreshUsdInr noDoubles id (refreshOf none "2025-04-11" "83.25") s).1
    t.latestRate id = some (333 / 4) ∧ ∃ c, t.cached id 0 = some c ∧ c.Agrees id t := by
  refine ⟨by decide +kernel, ?_⟩
  have hfirst : (refreshOf none "2025-04-10" "83.10").Advances noDoubles noRates := by
    intro o ho
    obtain rfl := Except.ok.inj (answer_refreshOf.1.symm.trans ho)
    exact ⟨fun _ hr => (List.not_mem_nil hr).elim, ⟨_, rfl, by decide +kernel⟩, rfl⟩
  have hrun : Run (RefreshStep noDoubles id) (fun s call => Refresh.Advances noDoubles s call) noRates
      (refreshUsdInr noDoubles id (refreshOf none "2025-04-10" "83.10") noRates).1 :=
    .tail _ .refl hfirst rfl
  refine (refresh_agrees rfl rfl noRates_consistent hrun).2.2 (refreshOf none "2025-04-11" "83.25")
    eleventhOfApril ?_ ?_
  · intro o ho
    obtain rfl := Except.ok.inj (answer_refreshOf.2.symm.trans ho)
    have hnewest : ∀ r ∈ (refreshUsdInr noDoubles id (refreshOf none "2025-04-10" "83.10") noRates).1.rates,
        r.asOf ≤ eleventhOfApril.asOfDay := by decide +kernel
    exact ⟨fun r hr _ => hnewest r hr, ⟨_, rfl, by decide +kernel⟩, rfl⟩
  · decide +kernel

/-- A refresh for a date in February puts the rate of February in the key. -/
theorem backfill_moves_back :
    let backfill := refreshOf (some ⟨2025, 2, 5, by decide, by decide, by decide⟩) "2025-02-05" "80.10"
    let s := (refreshUsdInr noDoubles id (refreshOf none "2025-04-11" "83.25") noRates).1
    let t := (refreshUsdInr noDoubles id backfill s).1
    (refreshUsdInr noDoubles id backfill s).2.isOk = true ∧
      (s.cached id 0).map CachedRate.rate = some (.finite false 8325 (-2)) ∧
      (t.cached id 0).map CachedRate.rate = some (.finite false 8010 (-2)) ∧
      t.latestRate id = some (333 / 4) ∧ ¬ ∃ c, t.cached id 0 = some c ∧ c.Agrees id t := by
  intro backfill s t
  have hcached : (t.cached id 0).map CachedRate.rate = some (.finite false 8010 (-2)) := by decide +kernel
  have hlatest : t.latestRate id = some (333 / 4) := by decide +kernel
  refine ⟨by decide +kernel, by decide +kernel, hcached, hlatest, ?_⟩
  rintro ⟨c, hc, hagrees⟩
  have hrate := hagrees.latestRate
  rw [hc] at hcached
  rw [Option.some.inj hcached, hlatest] at hrate
  exact absurd hrate (by decide +kernel)

end Nivara.MarketData
