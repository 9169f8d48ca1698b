import Nivara.Common.Time
import Nivara.CorporateActions.Service
import Nivara.Portfolio.Summary
import Nivara.Portfolio.SyncConnection

/-!
# `RiskGuardian`: volatility and earnings alerts

The two detectors over the positions table (`safety/risk_guardian.py`, lines 96–229). Both
read every row of the table. A sync leaves the row of a closed position there, with
quantity 0, and writes one row for each connection that holds an instrument.

* Arithmetic in doubles and its texts are a parameter; a double that is not a number is
  not modelled.
* A `date` is its number of days after 1970-01-01.
* The loops are modelled with the row each alert is about.

Results:

* `mem_earningsRows`: the earnings alerts are about the first row of each user and symbol.
* `alertsAddressed_iff`: when every alert goes to a user who holds the instrument, and no
  user gets two volatility alerts about one instrument.
* `closed_position_alerted`: the row of a closed position is alerted.
-/

namespace Nivara.Safety

open Portfolio (Database Position Instrument BrokerConnection Instant)
open CorporateActions (PriceHistory)

/-! ## Model -/

/-- What the detectors compute in doubles, and how they print it. -/
structure Doubles where
  /-- `float(d)` of a column's value. -/
  float : ℚ → ℚ
  sub : ℚ → ℚ → ℚ
  mul : ℚ → ℚ → ℚ
  /-- `Series.mean()`. -/
  mean : List ℚ → ℚ
  /-- `f"{x:.2f}"`. -/
  fixed2 : ℚ → String
  /-- `f"{x:g}"`. -/
  general : ℚ → String

/-- `date.isoformat()`. -/
def isoformat (date : ℤ) : String :=
  let (year, month, day) := civilFromDays date
  pad 4 year.toNat ++ "-" ++ pad 2 month.toNat ++ "-" ++ pad 2 day.toNat

/-- The `payload` of an alert. -/
inductive AlertPayload
  | volatility (symbol : String) (todayRange adr multiplier : ℚ)
  | earnings (symbol : String) (earningsDate : String) (daysUntil : ℤ)
  deriving DecidableEq

/-- `AlertEvent` (`schemas/notification.py`). -/
structure AlertEvent where
  userId : UUID
  notificationType : String
  title : String
  body : String
  payload : AlertPayload
  deriving DecidableEq

/-- The tables the detectors read. -/
structure WatchedTables extends Database where
  connections : List BrokerConnection
  prices : List PriceHistory

section Model

variable (f : Doubles) (t : WatchedTables)

/-- `_user_id_for_connection`. -/
def WatchedTables.userIdForConnection (brokerConnectionId : UUID) : Option UUID :=
  (t.connections.find? fun c => c.id = brokerConnectionId).map BrokerConnection.userId

/-- `_load_instrument`. -/
def WatchedTables.loadInstrument (instrumentId : UUID) : Option Instrument :=
  t.catalog.getInstrument instrumentId

/-- The rows `price_stmt` selects, the newest first. -/
def WatchedTables.latestPrices (instrumentId : UUID) (limit : ℕ) : List PriceHistory :=
  ((t.prices.filter fun r => r.instrumentId = instrumentId).insertionSort
    fun a b => b.timestamp ≤ a.timestamp).take limit

/-- `high - low` of a row of the frame. -/
def Doubles.range (r : PriceHistory) : ℚ := f.sub (f.float r.high) (f.float r.low)

/-- `today_range` and `adr`, when there is enough history and the range is above the
    threshold (lines 128–146). -/
def WatchedTables.volatility (lookbackDays : ℕ) (multiplier : ℚ) (instrumentId : UUID) : Option (ℚ × ℚ) :=
  let rows := t.latestPrices instrumentId (lookbackDays + 1)
  if rows.length < lookbackDays + 1 then none
  else
    let ranges := rows.map f.range
    let todayRange := ranges.headD 0
    let adr := f.mean ranges.tail
    if adr ≤ 0 then none
    else if f.mul multiplier adr < todayRange then some (todayRange, adr)
    else none

/-- The body of the loop of `detect_volatility_alerts` (lines 114–166). -/
def volatilityAlert (lookbackDays : ℕ) (multiplier : ℚ) (position : Position) : Option AlertEvent := do
  let userId ← t.userIdForConnection position.brokerConnectionId
  let instrument ← t.loadInstrument position.instrumentId
  let (todayRange, adr) ← t.volatility f lookbackDays multiplier position.instrumentId
  return {
    userId := userId
    notificationType := "price_alert"
    title := s!"Volatility alert: {instrument.symbol}"
    body := s!"{instrument.symbol} traded a {f.fixed2 todayRange} range today " ++
      s!"vs {f.fixed2 adr} average ({f.general multiplier}× threshold)."
    payload := .volatility instrument.symbol todayRange adr multiplier }

/-- `detect_volatility_alerts`, each alert with its row. -/
def volatilityRows (lookbackDays : ℕ) (multiplier : ℚ) : List (Position × AlertEvent) :=
  t.positions.filterMap fun p => (volatilityAlert f t lookbackDays multiplier p).map fun a => (p, a)

/-- The user, the instrument and the earnings date of a row that `detect_earnings_alerts`
    gets to line 203 with. -/
def WatchedTables.earningsDue (getEarningsDate : String → Option ℤ) (today daysAhead : ℤ)
    (position : Position) : Option (UUID × Instrument × ℤ) := do
  let userId ← t.userIdForConnection position.brokerConnectionId
  let instrument ← t.loadInstrument position.instrumentId
  let earningsDate ← getEarningsDate instrument.symbol
  if today ≤ earningsDate ∧ earningsDate ≤ today + daysAhead then
    return (userId, instrument, earningsDate)
  else none

/-- The event of lines 208–227. -/
def earningsAlert (today : ℤ) (userId : UUID) (instrument : Instrument) (earningsDate : ℤ) : AlertEvent :=
  let daysUntil := earningsDate - today
  { userId := userId
    notificationType := "system"
    title := s!"Earnings in {daysUntil} days: {instrument.symbol}"
    body := s!"{instrument.symbol} reports earnings on " ++
      s!"{isoformat earningsDate} ({daysUntil} days away)."
    payload := .earnings instrument.symbol (isoformat earningsDate) daysUntil }

/-- The body of the loop of `detect_earnings_alerts` (lines 192–227), on `seen` and the
    alerts. -/
def earningsStep (getEarningsDate : String → Option ℤ) (today daysAhead : ℤ)
    (st : List (UUID × String) × List (Position × AlertEvent)) (position : Position) :
    List (UUID × String) × List (Position × AlertEvent) :=
  match t.earningsDue getEarningsDate today daysAhead position with
  | none => st
  | some (userId, instrument, earningsDate) =>
    let key := (userId, instrument.symbol)
    if key ∈ st.1 then st
    else (key :: st.1, st.2 ++ [(position, earningsAlert today userId instrument earningsDate)])

/-- `detect_earnings_alerts`, each alert with its row. -/
def earningsRows (getEarningsDate : String → Option ℤ) (today daysAhead : ℤ) :
    List (Position × AlertEvent) :=
  (t.positions.foldl (earningsStep t getEarningsDate today daysAhead) ([], [])).2

/-- The rows that the run of `run_all` alerts, with the defaults of the detectors; the macro
    alerts follow. -/
def alertedRows (getEarningsDate : String → Option ℤ) (today : ℤ) : List (Position × AlertEvent) :=
  volatilityRows f t 20 2 ++ earningsRows t getEarningsDate today 5

/-- The user has a nonzero quantity of the instrument on some connection. -/
def WatchedTables.Holds (userId instrumentId : UUID) : Prop :=
  ∃ q ∈ t.positions, t.userIdForConnection q.brokerConnectionId = some userId ∧
    q.instrumentId = instrumentId ∧ q.quantity ≠ 0

/-- Every alert goes to a holder, and a user gets at most one volatility alert about an
    instrument. -/
structure AlertsAddressed (getEarningsDate : String → Option ℤ) (today : ℤ) : Prop where
  held : ∀ r ∈ alertedRows f t getEarningsDate today, t.Holds r.2.userId r.1.instrumentId
  once : ((volatilityRows f t 20 2).map fun r => (r.2.userId, r.1.instrumentId)).Nodup

/-- The row of an instrument whose range is above the threshold. -/
def WatchedTables.VolatileRow (position : Position) (userId : UUID) : Prop :=
  t.userIdForConnection position.brokerConnectionId = some userId ∧
    (t.loadInstrument position.instrumentId).isSome ∧ (t.volatility f 20 2 position.instrumentId).isSome

/-- Of the rows with this user and symbol the row is the first whose earnings are due. -/
def WatchedTables.FirstDue (getEarningsDate : String → Option ℤ) (today daysAhead : ℤ) (l : List Position)
    (position : Position) (userId : UUID) (instrument : Instrument) (earningsDate : ℤ) : Prop :=
  ∃ before after, l = before ++ position :: after ∧
    t.earningsDue getEarningsDate today daysAhead position = some (userId, instrument, earningsDate) ∧
    ∀ q ∈ before, ∀ i d, t.earningsDue getEarningsDate today daysAhead q = some (userId, i, d) →
      i.symbol ≠ instrument.symbol

end Model

variable {f : Doubles} {t : WatchedTables} {getEarningsDate : String → Option ℤ} {today daysAhead : ℤ}
  {p : Position} {a : AlertEvent} {userId : UUID}

/-! ## Which rows are alerted -/

theorem volatilityAlert_userId (h : volatilityAlert f t 20 2 p = some a) : t.VolatileRow f p a.userId := by
  unfold volatilityAlert at h
  simp only [Option.bind_eq_bind, Option.bind_eq_some_iff] at h
  obtain ⟨userId, huser, instrument, hinst, ⟨todayRange, adr⟩, hvol, ha⟩ := h
  cases ha
  exact ⟨huser, by rw [hinst]; rfl, by rw [hvol]; rfl⟩

theorem exists_volatilityAlert (h : t.VolatileRow f p userId) :
    ∃ a, volatilityAlert f t 20 2 p = some a ∧ a.userId = userId := by
  obtain ⟨huser, hinst, hvol⟩ := h
  obtain ⟨instrument, hinst⟩ := Option.isSome_iff_exists.mp hinst
  obtain ⟨⟨todayRange, adr⟩, hvol⟩ := Option.isSome_iff_exists.mp hvol
  unfold volatilityAlert
  rw [huser, hinst, hvol]
  exact ⟨_, rfl, rfl⟩

theorem mem_volatilityRows : (p, a) ∈ volatilityRows f t 20 2 ↔
    p ∈ t.positions ∧ volatilityAlert f t 20 2 p = some a := by
  unfold volatilityRows
  rw [List.mem_filterMap]
  constructor
  · rintro ⟨q, hq, h⟩
    obtain ⟨b, hb, heq⟩ := Option.map_eq_some_iff.mp h
    cases heq
    exact ⟨hq, hb⟩
  · rintro ⟨hp, h⟩
    exact ⟨p, hp, by rw [h]; rfl⟩

/-- One more row at the end of the table. -/
theorem firstDue_append {l : List Position} {x : Position} {instrument : Instrument} {earningsDate : ℤ} :
    t.FirstDue getEarningsDate today daysAhead (l ++ [x]) p userId instrument earningsDate ↔
      t.FirstDue getEarningsDate today daysAhead l p userId instrument earningsDate ∨
      p = x ∧ t.earningsDue getEarningsDate today daysAhead x = some (userId, instrument, earningsDate) ∧
        ∀ q ∈ l, ∀ i d, t.earningsDue getEarningsDate today daysAhead q = some (userId, i, d) →
          i.symbol ≠ instrument.symbol := by
  constructor
  · rintro ⟨before, after, hl, hdue, hbefore⟩
    rcases List.eq_nil_or_concat after with rfl | ⟨after', y, rfl⟩
    · obtain ⟨rfl, heq⟩ := List.append_inj' hl rfl
      cases heq
      exact .inr ⟨rfl, hdue, hbefore⟩
    · rw [List.concat_eq_append, ← List.cons_append, ← List.append_assoc] at hl
      obtain ⟨rfl, -⟩ := List.append_inj' hl rfl
      exact .inl ⟨before, after', rfl, hdue, hbefore⟩
  · rintro (⟨before, after, rfl, hdue, hbefore⟩ | ⟨rfl, hdue, hbefore⟩)
    · exact ⟨before, after ++ [x], by simp, hdue, hbefore⟩
    · exact ⟨l, [], rfl, hdue, hbefore⟩

variable (t getEarningsDate today daysAhead) in
/-- What the loop of the earnings detector has seen and alerted behind the rows `l`. -/
structure EarningsLoop (l : List Position) (st : List (UUID × String) × List (Position × AlertEvent)) :
    Prop where
  seen : ∀ key, key ∈ st.1 ↔
    ∃ q ∈ l, ∃ i d, t.earningsDue getEarningsDate today daysAhead q = some (key.1, i, d) ∧ i.symbol = key.2
  alerts : ∀ p a, (p, a) ∈ st.2 ↔
    ∃ u i d, t.FirstDue getEarningsDate today daysAhead l p u i d ∧ a = earningsAlert today u i d

namespace EarningsLoop

variable {l : List Position} {x : Position} {u : UUID} {i : Instrument} {d : ℤ}
  {st : List (UUID × String) × List (Position × AlertEvent)}

/-- Nothing is due. -/
theorem skip (h : EarningsLoop t getEarningsDate today daysAhead l st)
    (hx : t.earningsDue getEarningsDate today daysAhead x = none) :
    EarningsLoop t getEarningsDate today daysAhead (l ++ [x]) st where
  seen key := by simp [h.seen, hx]
  alerts p a := by simp [h.alerts, firstDue_append, hx]

/-- An earlier row has the user and the symbol. -/
theorem again (h : EarningsLoop t getEarningsDate today daysAhead l st)
    (hx : t.earningsDue getEarningsDate today daysAhead x = some (u, i, d)) (hkey : (u, i.symbol) ∈ st.1) :
    EarningsLoop t getEarningsDate today daysAhead (l ++ [x]) st := by
  obtain ⟨q, hq, i', d', hdue, hsym⟩ := (h.seen _).mp hkey
  refine ⟨fun key => ?_, fun p a => ?_⟩
  · rw [h.seen]
    constructor
    · rintro ⟨q, hq, h⟩
      exact ⟨q, List.mem_append_left _ hq, h⟩
    · rintro ⟨q', hq', i'', d'', hdue', hsym'⟩
      rcases List.mem_append.mp hq' with hq' | hq'
      · exact ⟨q', hq', i'', d'', hdue', hsym'⟩
      · rw [List.mem_singleton.mp hq', hx] at hdue'
        cases hdue'
        exact ⟨q, hq, i', d', hdue, hsym.trans hsym'⟩
  · rw [h.alerts]
    simp only [firstDue_append]
    constructor
    · rintro ⟨u, i, d, hfirst, ha⟩
      exact ⟨u, i, d, .inl hfirst, ha⟩
    · rintro ⟨u', i'', d'', hfirst | ⟨rfl, hdue', hbefore⟩, ha⟩
      · exact ⟨u', i'', d'', hfirst, ha⟩
      · rw [hx] at hdue'
        cases hdue'
        exact absurd hsym (hbefore q hq i' d' hdue)

/-- The row is the first of its user and symbol. -/
theorem alert (h : EarningsLoop t getEarningsDate today daysAhead l st)
    (hx : t.earningsDue getEarningsDate today daysAhead x = some (u, i, d)) (hkey : (u, i.symbol) ∉ st.1) :
    EarningsLoop t getEarningsDate today daysAhead (l ++ [x])
      ((u, i.symbol) :: st.1, st.2 ++ [(x, earningsAlert today u i d)]) := by
  have hnew : ∀ q ∈ l, ∀ i' d', t.earningsDue getEarningsDate today daysAhead q = some (u, i', d') →
      i'.symbol ≠ i.symbol := fun q hq i' d' hdue hsym => hkey ((h.seen _).mpr ⟨q, hq, i', d', hdue, hsym⟩)
  refine ⟨fun key => ?_, fun p a => ?_⟩
  · rw [List.mem_cons, h.seen]
    constructor
    · rintro (rfl | ⟨q, hq, h⟩)
      · exact ⟨x, by simp, i, d, hx, rfl⟩
      · exact ⟨q, List.mem_append_left _ hq, h⟩
    · rintro ⟨q, hq, i', d', hdue, hsym⟩
      rcases List.mem_append.mp hq with hq | hq
      · exact .inr ⟨q, hq, i', d', hdue, hsym⟩
      · rw [List.mem_singleton.mp hq, hx] at hdue
        cases hdue
        exact .inl (Prod.ext rfl hsym.symm)
  · rw [List.mem_append, h.alerts, List.mem_singleton]
    simp only [firstDue_append]
    constructor
    · rintro (⟨u', i', d', hfirst, ha⟩ | heq)
      · exact ⟨u', i', d', .inl hfirst, ha⟩
      · cases heq
        exact ⟨u, i, d, .inr ⟨rfl, hx, hnew⟩, rfl⟩
    · rintro ⟨u', i', d', hfirst | ⟨rfl, hdue, -⟩, ha⟩
      · exact .inl ⟨u', i', d', hfirst, ha⟩
      · rw [hx] at hdue
        cases hdue
        exact .inr (Prod.ext rfl ha)

end EarningsLoop

theorem earningsLoop (l : List Position) : EarningsLoop t getEarningsDate today daysAhead l
    (l.foldl (earningsStep t getEarningsDate today daysAhead) ([], [])) := by
  induction l using List.reverseRecOn with
  | nil => exact ⟨by simp, by simp [WatchedTables.FirstDue]⟩
  | append_singleton l x ih =>
    rw [List.foldl_append, List.foldl_cons, List.foldl_nil]
    generalize l.foldl (earningsStep t getEarningsDate today daysAhead) ([], []) = st at ih ⊢
    unfold earningsStep
    cases hx : t.earningsDue getEarningsDate today daysAhead x with
    | none => exact ih.skip hx
    | some due =>
      obtain ⟨u, i, d⟩ := due
      by_cases hkey : (u, i.symbol) ∈ st.1
      · simp only [hkey, if_true]
        exact ih.again hx hkey
      · simp only [hkey, if_false]
        exact ih.alert hx hkey

theorem mem_earningsRows : (p, a) ∈ earningsRows t getEarningsDate today daysAhead ↔
    ∃ u i d, t.FirstDue getEarningsDate today daysAhead t.positions p u i d ∧ a = earningsAlert today u i d :=
  (earningsLoop t.positions).alerts p a

/-! ## Who is alerted -/

/-- No user gets two volatility alerts about an instrument when no user has two rows of one that
    is volatile. -/
theorem volatilityRows_nodup_iff :
    ((volatilityRows f t 20 2).map fun r => (r.2.userId, r.1.instrumentId)).Nodup ↔
      t.positions.Pairwise fun p q =>
        ∀ u, t.VolatileRow f p u → t.VolatileRow f q u → p.instrumentId ≠ q.instrumentId := by
  unfold List.Nodup volatilityRows
  rw [List.pairwise_map, List.pairwise_filterMap]
  refine List.Pairwise.iff fun p q => ?_
  constructor
  · intro h u hp hq heq
    obtain ⟨a, ha, rfl⟩ := exists_volatilityAlert hp
    obtain ⟨b, hb, hu⟩ := exists_volatilityAlert hq
    exact h (p, a) (by rw [ha]; rfl) (q, b) (by rw [hb]; rfl) (Prod.ext hu.symm heq)
  · rintro h r hr r' hr' heq
    obtain ⟨a, ha, rfl⟩ := Option.map_eq_some_iff.mp hr
    obtain ⟨b, hb, rfl⟩ := Option.map_eq_some_iff.mp hr'
    obtain ⟨hu, hinst⟩ := Prod.mk.inj heq
    exact h a.userId (volatilityAlert_userId ha) (hu ▸ volatilityAlert_userId hb) hinst

/-- Every alert of a run goes to a user who holds the instrument, and no user gets two volatility
    alerts about one, exactly when every row of a volatile instrument and every first row of a
    user and symbol with earnings ahead belongs to a holder of the instrument, and no user has two
    rows of a volatile instrument. -/
theorem alertsAddressed_iff (f : Doubles) (t : WatchedTables) (getEarningsDate : String → Option ℤ)
    (today : ℤ) :
    AlertsAddressed f t getEarningsDate today ↔
      (∀ p ∈ t.positions, ∀ u, t.VolatileRow f p u → t.Holds u p.instrumentId) ∧
      (t.positions.Pairwise fun p q =>
        ∀ u, t.VolatileRow f p u → t.VolatileRow f q u → p.instrumentId ≠ q.instrumentId) ∧
      ∀ p u i d, t.FirstDue getEarningsDate today 5 t.positions p u i d → t.Holds u p.instrumentId := by
  constructor
  · rintro ⟨hheld, honce⟩
    refine ⟨fun p hp u hvol => ?_, volatilityRows_nodup_iff.mp honce, fun p u i d hfirst => ?_⟩
    · obtain ⟨a, ha, rfl⟩ := exists_volatilityAlert hvol
      exact hheld (p, a) (List.mem_append_left _ (mem_volatilityRows.mpr ⟨hp, ha⟩))
    · exact hheld (p, earningsAlert today u i d)
        (List.mem_append_right _ (mem_earningsRows.mpr ⟨u, i, d, hfirst, rfl⟩))
  · rintro ⟨hvol, honce, hdue⟩
    refine ⟨?_, volatilityRows_nodup_iff.mpr honce⟩
    rintro ⟨p, a⟩ hr
    rcases List.mem_append.mp hr with hr | hr
    · obtain ⟨hp, ha⟩ := mem_volatilityRows.mp hr
      exact hvol p hp _ (volatilityAlert_userId ha)
    · obtain ⟨u, i, d, hfirst, rfl⟩ := mem_earningsRows.mp hr
      exact hdue p u i d hfirst

/-- Exact arithmetic. -/
def exactDoubles : Doubles where
  float := id
  sub x y := x - y
  mul x y := x * y
  mean l := l.sum / l.length
  fixed2 := toString
  general := toString

/-- Ten shares are bought and sold again: the tables after a sync that reports them and one that
    reports nothing. The instrument's last day has ten times the range of the twenty before. -/
def soldOut : WatchedTables where
  toDatabase := Portfolio.afterSync id 1 7 .alpaca 60
    (Portfolio.afterSync id 1 7 .alpaca 30 Portfolio.sampleDatabase ⟨.ok [Portfolio.sampleRow "AAPL" 10], .ok []⟩)
    ⟨.ok [], .ok []⟩
  connections := [⟨7, 1, .alpaca, "A1", .active⟩]
  prices := ⟨1, 20, 100, 110, 100, 100, 1⟩ :: (List.range 20).map fun n => ⟨1, n, 100, 101, 100, 100, 1⟩

/-- The user holds nothing and is told that the instrument is volatile. -/
theorem closed_position_alerted :
    ¬ ∀ (db : Database) (ps : List Portfolio.NormalizedPosition) (connections : List BrokerConnection)
      (prices : List PriceHistory), AlertsAddressed exactDoubles
        ⟨Portfolio.afterSync id 1 7 .alpaca 60 db ⟨.ok ps, .ok []⟩, connections, prices⟩ (fun _ => none) 0 := by
  intro h
  have hheld := (h (Portfolio.afterSync id 1 7 .alpaca 30 Portfolio.sampleDatabase
    ⟨.ok [Portfolio.sampleRow "AAPL" 10], .ok []⟩) [] soldOut.connections soldOut.prices).held
  have hrows : soldOut.positions = [⟨7, 1, 0, 100, "USD", 60⟩] := by decide +kernel
  have hvolatile : soldOut.VolatileRow exactDoubles ⟨7, 1, 0, 100, "USD", 60⟩ 1 :=
    ⟨by decide +kernel, by decide +kernel, by decide +kernel⟩
  obtain ⟨a, ha, -⟩ := exists_volatilityAlert hvolatile
  have hmem : _ ∈ volatilityRows exactDoubles soldOut 20 2 :=
    mem_volatilityRows.mpr ⟨hrows ▸ List.mem_singleton_self _, ha⟩
  obtain ⟨q, hq, -, -, hquantity⟩ := hheld _ (List.mem_append_left _ hmem)
  have hq : q ∈ soldOut.positions := hq
  rw [hrows, List.mem_singleton] at hq
  rw [hq] at hquantity
  exact hquantity rfl

end Nivara.Safety
