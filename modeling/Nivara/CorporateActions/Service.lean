import Nivara.Common.Decimal
import Nivara.Common.Text
import Nivara.Lib.Keyed
import Nivara.Lib.Loop

/-!
# Splits and the price history

`CorporateActionsService.detect_from_adjustment_factor` and `apply_split`
(`services/corporate_actions.py`) and `upsert_ohlcv` (`data/storage.py`), on the
tables they read and write and the indicator keys in Redis.

* A function that raises leaves the tables as they are: its transaction is rolled
  back.
* The price columns are `Numeric(20, 8)`, so what an `UPDATE` or an `INSERT` writes
  is rounded to eight decimals.
* `uuid4()` is an input: the id of the row that `detect_from_adjustment_factor` adds.

Results:

* `OHLC.stored_eq_ok`: prices of at most eight decimals are stored as they are.
* `CorporateAction.applied_setNotes`: the notes that `apply_split` writes carry the
  marker.
* `adjustPrices_eq_ok`, `adjustPrices_zero`: what the `UPDATE` makes of each row.
* `applySplit_cases`: what a call that returns has done.
* `applySplit_again`: a second call on the same action changes nothing.
-/

namespace Nivara.CorporateActions

/-- A UTC instant in microseconds since the epoch. -/
abbrev Instant := ℤ

/-- `date.toordinal()`. -/
abbrev Date := ℤ

/-- `datetime.combine(date, datetime.min.time(), tzinfo=UTC)`. -/
def Date.midnight (date : Date) : Instant := (date - 719163) * 86400000000

/-! ## Rows -/

/-- `PriceHistory` (`models/price_history.py`). -/
structure PriceHistory where
  instrumentId : UUID
  timestamp : Instant
  open_ : ℚ
  high : ℚ
  low : ℚ
  close : ℚ
  volume : ℤ
  deriving DecidableEq, Repr

/-- The primary key. -/
def PriceHistory.key (row : PriceHistory) : UUID × Instant := (row.instrumentId, row.timestamp)

/-- The prices of a bar. -/
structure OHLC where
  open_ : ℚ
  high : ℚ
  low : ℚ
  close : ℚ
  deriving DecidableEq, Repr

def PriceHistory.ohlc (row : PriceHistory) : OHLC := ⟨row.open_, row.high, row.low, row.close⟩

/-- `CorporateAction` (`models/corporate_actions.py`); `action_type` is `"split"`. -/
structure CorporateAction where
  id : UUID
  instrumentId : UUID
  exDate : Date
  ratioOrAmount : ℚ
  currency : Option String
  notes : Option String
  deriving DecidableEq, Repr

/-- The `AuditLog` row of `apply_split`. -/
structure AuditLog where
  userId : Option UUID
  eventType : String
  corporateActionId : UUID
  instrumentId : UUID
  exDate : Date
  factor : ℚ
  rowsUpdated : ℕ
  cacheKeysInvalidated : ℕ
  deriving DecidableEq, Repr

/-- `OHLCVBar` (`data/base.py`). -/
structure OHLCVBar where
  timestamp : Instant
  open_ : ℚ
  high : ℚ
  low : ℚ
  close : ℚ
  volume : ℕ
  deriving DecidableEq, Repr

def OHLCVBar.ohlc (bar : OHLCVBar) : OHLC := ⟨bar.open_, bar.high, bar.low, bar.close⟩

/-- `SplitDetection`. -/
structure SplitDetection where
  instrumentId : UUID
  exDate : Date
  factor : ℚ
  corporateActionId : UUID
  deriving DecidableEq, Repr

/-- The tables, and the keys in Redis. -/
structure Store where
  prices : List PriceHistory
  actions : List CorporateAction
  audit : List AuditLog
  cache : List String
  deriving DecidableEq, Repr

/-- What the functions raise. -/
inductive ServiceError
  /-- `ValueError`. -/
  | valueError (message : String)
  /-- `OverflowError`: `ex_date - timedelta(days=...)` is no date. -/
  | dateOutOfRange
  | data (error : DataError)
  /-- `IntegrityError` on a primary key. -/
  | uniqueViolation
  /-- `ON CONFLICT DO UPDATE` meets a row for the second time. -/
  | cardinalityViolation
  deriving DecidableEq, Repr

/-! ## Detection -/

def noActionFactor : ℚ := 1

/-- `detect_from_adjustment_factor` (lines 118–151). -/
def detectFromAdjustmentFactor (s : Store) (newId instrumentId : UUID) (exDate : Date) (factor : ℚ)
    (currency notes : Option String) : Except ServiceError (Store × Option SplitDetection) :=
  if factor = noActionFactor then .ok (s, none)
  else if s.actions.any fun a => a.id = newId then .error .uniqueViolation
  else
    ((Decimal.numeric factor).mapError .data).bind fun ratio =>
      .ok ({ s with actions := s.actions ++ [⟨newId, instrumentId, exDate, ratio, currency, notes⟩] },
        some ⟨instrumentId, exDate, factor, newId⟩)

/-! ## The marker -/

def appliedMarker : String := "[applied]"

/-- `row.notes and APPLIED_MARKER in row.notes`. -/
def CorporateAction.applied (row : CorporateAction) : Bool :=
  match row.notes with
  | none => false
  | some notes => notes ≠ "" ∧ appliedMarker.toList <:+: notes.toList

/-- `(row.notes + " " if row.notes else "") + APPLIED_MARKER`. -/
def CorporateAction.newNotes (row : CorporateAction) : String :=
  match row.notes with
  | none => appliedMarker
  | some notes => if notes = "" then appliedMarker else notes ++ " " ++ appliedMarker

def CorporateAction.setNotes (notes : String) (row : CorporateAction) : CorporateAction :=
  { row with notes := some notes }

/-- The notes that `apply_split` writes carry the marker, whichever row they are
    computed from. -/
theorem CorporateAction.applied_setNotes (row row' : CorporateAction) :
    (row'.setNotes row.newNotes).applied = true := by
  have hmarker : ∀ notes : String, (row'.setNotes (notes ++ appliedMarker)).applied = true := by
    intro notes
    have hinfix : appliedMarker.toList <:+: (notes ++ appliedMarker).toList := by
      rw [String.toList_append]
      exact (List.suffix_append _ _).isInfix
    have hne : notes ++ appliedMarker ≠ "" := by
      intro h
      rw [h] at hinfix
      exact absurd hinfix (by decide)
    simp only [applied, setNotes, decide_eq_true_eq]
    exact ⟨hne, hinfix⟩
  unfold newNotes
  cases row.notes with
  | none => simpa using hmarker ""
  | some notes =>
    by_cases hn : notes = ""
    · simpa [hn] using hmarker ""
    · simpa only [if_neg hn] using hmarker (notes ++ " ")

/-! ## Prices -/

/-- What the price columns make of the values they are given. -/
def OHLC.stored (p : OHLC) : Except DataError OHLC := do
  let open_ ← Decimal.numeric p.open_
  let high ← Decimal.numeric p.high
  let low ← Decimal.numeric p.low
  let close ← Decimal.numeric p.close
  return ⟨open_, high, low, close⟩

def OHLC.scale (factor : ℚ) (p : OHLC) : OHLC :=
  ⟨p.open_ * factor, p.high * factor, p.low * factor, p.close * factor⟩

/-- The columns hold the prices without rounding. -/
def OHLC.Fits (p : OHLC) : Prop :=
  Decimal.AtMostEightDecimals p.open_ ∧ Decimal.AtMostEightDecimals p.high ∧
    Decimal.AtMostEightDecimals p.low ∧ Decimal.AtMostEightDecimals p.close

instance (p : OHLC) : Decidable p.Fits := by unfold OHLC.Fits; infer_instance

@[simp] theorem OHLC.scale_one (p : OHLC) : p.scale 1 = p := by
  simp [OHLC.scale]

theorem OHLC.scale_scale (f g : ℚ) (p : OHLC) : (p.scale f).scale g = p.scale (f * g) := by
  simp [OHLC.scale, mul_assoc]

/-- Prices that fit are stored as they are. -/
theorem OHLC.stored_eq_ok {p q : OHLC} (h : p.stored = .ok q) (hp : p.Fits) : q = p := by
  obtain ⟨hopen, hhigh, hlow, hclose⟩ := hp
  unfold OHLC.stored at h
  obtain ⟨open_, ho, h⟩ := Loop.of_bind_eq_ok h
  obtain ⟨high, hh, h⟩ := Loop.of_bind_eq_ok h
  obtain ⟨low, hl, h⟩ := Loop.of_bind_eq_ok h
  obtain ⟨close, hc, h⟩ := Loop.of_bind_eq_ok h
  cases h
  rw [Decimal.numeric_eq_ok ho hopen, Decimal.numeric_eq_ok hh hhigh, Decimal.numeric_eq_ok hl hlow,
    Decimal.numeric_eq_ok hc hclose]

/-! ## The adjustment -/

/-- `vol_factor`. -/
def volFactor (factor : ℚ) : ℚ := if factor ≠ 0 then Decimal.divide 1 factor else 1

/-- What the `UPDATE` writes for a row. -/
def PriceHistory.adjust (factor : ℚ) (row : PriceHistory) : Except DataError PriceHistory := do
  let p ← (row.ohlc.scale factor).stored
  let volume ← Decimal.bigint (row.volume * volFactor factor)
  return { row with open_ := p.open_, high := p.high, low := p.low, close := p.close, volume := volume }

/-- `window_start`. -/
def windowStart (historyDays : ℤ) (exDate : Date) : Except ServiceError Instant :=
  if 1 ≤ exDate - historyDays ∧ exDate - historyDays ≤ 3652059 then
    .ok (Date.midnight (exDate - historyDays))
  else .error .dateOutOfRange

/-- The bars before the ex-date within the history window. -/
def SplitDetection.Covers (historyDays : ℤ) (d : SplitDetection) (key : UUID × Instant) : Prop :=
  key.1 = d.instrumentId ∧ Date.midnight (d.exDate - historyDays) ≤ key.2 ∧
    key.2 < Date.midnight d.exDate

instance (historyDays : ℤ) (d : SplitDetection) (key : UUID × Instant) :
    Decidable (d.Covers historyDays key) := by
  unfold SplitDetection.Covers; infer_instance

/-- The `WHERE` clause of the `UPDATE`. -/
def SplitDetection.inWindow (d : SplitDetection) (start : Instant) (row : PriceHistory) : Bool :=
  row.instrumentId = d.instrumentId ∧ start ≤ row.timestamp ∧ row.timestamp < Date.midnight d.exDate

/-- The `UPDATE` (lines 248–284): the rows of the table after it, and its row count. -/
def adjustPrices (historyDays : ℤ) (d : SplitDetection) (prices : List PriceHistory) :
    Except ServiceError (List PriceHistory × ℕ) :=
  (windowStart historyDays d.exDate).bind fun start =>
    ((prices.mapM fun row =>
        if d.inWindow start row then row.adjust d.factor else .ok row).mapError .data).bind
      fun prices' => .ok (prices', prices.countP (d.inWindow start))

/-- `_invalidate_indicator_cache`: the keys `tech:{instrument_id}:*` go. The id has
    no wildcard. -/
def invalidateIndicatorCache (instrumentId : UUID) (cache : List String) : List String × ℕ :=
  let matching := fun key : String => s!"tech:{instrumentId.str}:".toList.isPrefixOf key.toList
  (cache.filter fun key => !matching key, cache.countP matching)

def Store.getAction (s : Store) (id : UUID) : Option CorporateAction := s.actions.find? fun a => a.id = id

/-- The action carries the marker. -/
def Store.marked (store : Store) (d : SplitDetection) : Bool :=
  (store.getAction d.corporateActionId).any CorporateAction.applied

/-- The `ValueError` of `apply_split`. -/
def actionNotFound (id : UUID) : ServiceError := .valueError s!"CorporateAction {id.str} not found"

/-- What `apply_split` commits (lines 286–308) once the prices are updated and the
    cache keys are gone. -/
def Store.commitSplit (s : Store) (d : SplitDetection) (userId : Option UUID) (notes : String)
    (prices : List PriceHistory) (rowsUpdated invalidated : ℕ) : Store :=
  { s with
    prices := prices
    actions := Keyed.modify CorporateAction.id d.corporateActionId (·.setNotes notes) s.actions
    audit := s.audit ++ [⟨userId, "corporate_action.applied", d.corporateActionId, d.instrumentId,
      d.exDate, d.factor, rowsUpdated, invalidated⟩] }

/-- `apply_split` (lines 227–318). -/
def applySplit (historyDays : ℤ) (s : Store) (d : SplitDetection) (userId : Option UUID) :
    Except ServiceError (Store × ℕ) :=
  match s.getAction d.corporateActionId with
  | none => .error (actionNotFound d.corporateActionId)
  | some row =>
    if row.applied then .ok (s, 0)
    else
      (adjustPrices historyDays d s.prices).bind fun (prices, rowsUpdated) =>
        let (cache, invalidated) := invalidateIndicatorCache d.instrumentId s.cache
        .ok (Store.commitSplit { s with cache := cache } d userId row.newNotes prices rowsUpdated
          invalidated, rowsUpdated)

/-! ## The daily bars -/

/-- The row of a bar. -/
def OHLCVBar.toRow (instrumentId : UUID) (bar : OHLCVBar) : Except DataError PriceHistory := do
  let p ← bar.ohlc.stored
  let volume ← Decimal.bigint bar.volume
  return ⟨instrumentId, bar.timestamp, p.open_, p.high, p.low, p.close, volume⟩

/-- `INSERT ... ON CONFLICT DO UPDATE` of one row. -/
def upsertRow (prices : List PriceHistory) (row : PriceHistory) : List PriceHistory :=
  if prices.any fun r => r.key = row.key then
    Keyed.modify PriceHistory.key row.key (fun _ => row) prices
  else prices ++ [row]

/-- `upsert_ohlcv` (`data/storage.py`, lines 29–70). -/
def upsertOhlcv (s : Store) (instrumentId : UUID) (bars : List OHLCVBar) :
    Except ServiceError (Store × ℕ) :=
  if bars = [] then .ok (s, 0)
  else
    ((bars.mapM (OHLCVBar.toRow instrumentId)).mapError .data).bind fun rows =>
      if (rows.map PriceHistory.key).Nodup then
        .ok ({ s with prices := rows.foldl upsertRow s.prices }, rows.length)
      else .error .cardinalityViolation

/-! ## What the functions do -/

variable {historyDays : ℤ} {d : SplitDetection} {s s' : Store} {userId : Option UUID}

theorem of_mapError_eq_ok {ε ε' α : Type} {f : ε → ε'} {x : Except ε α} {a : α}
    (h : x.mapError f = .ok a) : x = .ok a := by
  cases x with
  | error e => cases h
  | ok b => cases h; rfl

/-- What the `UPDATE` makes of each row. -/
theorem adjustPrices_eq_ok {prices prices' : List PriceHistory} {n : ℕ}
    (h : adjustPrices historyDays d prices = .ok (prices', n)) :
    n = prices.countP (fun row => d.Covers historyDays row.key) ∧
      List.Forall₂ (fun row row' =>
        (if d.Covers historyDays row.key then row.adjust d.factor else .ok row) = .ok row')
        prices prices' := by
  unfold adjustPrices at h
  obtain ⟨start, hstart, h⟩ := Loop.of_bind_eq_ok h
  obtain ⟨rows, hrows, h⟩ := Loop.of_bind_eq_ok h
  unfold windowStart at hstart
  split_ifs at hstart
  cases hstart
  cases h
  refine ⟨rfl, ?_⟩
  refine (Loop.forall₂_of_mapM (of_mapError_eq_ok hrows)).imp fun row row' hrow => ?_
  have hcovers : d.inWindow (Date.midnight (d.exDate - historyDays)) row = true ↔
      d.Covers historyDays row.key := decide_eq_true_iff
  simp only [hcovers] at hrow
  exact hrow

/-- An `UPDATE` that matches no row changes none. -/
theorem adjustPrices_zero {prices prices' : List PriceHistory}
    (h : adjustPrices historyDays d prices = .ok (prices', 0)) : prices' = prices := by
  obtain ⟨hcount, hforall⟩ := adjustPrices_eq_ok h
  have hnone := List.countP_eq_zero.mp hcount.symm
  clear hcount h
  induction hforall with
  | nil => rfl
  | @cons row row' rows rows' hrow _ ih =>
    have hc : ¬ d.Covers historyDays row.key := by simpa using hnone row (by simp)
    rw [if_neg hc] at hrow
    rw [Except.ok.inj hrow, ih fun r hr => hnone r (List.mem_cons_of_mem _ hr)]

/-- A call that returns has skipped a marked action, or has adjusted the prices and
    marked the action. -/
theorem applySplit_cases {n : ℕ} (h : applySplit historyDays s d userId = .ok (s', n)) :
    ∃ row, s.getAction d.corporateActionId = some row ∧
      ((row.applied = true ∧ s' = s ∧ n = 0) ∨
        (row.applied = false ∧ ∃ prices, adjustPrices historyDays d s.prices = .ok (prices, n) ∧
          s' = Store.commitSplit { s with cache := (invalidateIndicatorCache d.instrumentId s.cache).1 } d
            userId row.newNotes prices n (invalidateIndicatorCache d.instrumentId s.cache).2)) := by
  unfold applySplit at h
  cases hrow : s.getAction d.corporateActionId with
  | none => simp only [hrow] at h; cases h
  | some row =>
    simp only [hrow] at h
    refine ⟨row, rfl, ?_⟩
    split_ifs at h with happ
    · cases h
      exact .inl ⟨happ, rfl, rfl⟩
    · obtain ⟨⟨prices, m⟩, hprices, h⟩ := Loop.of_bind_eq_ok h
      cases h
      exact .inr ⟨by simpa using happ, prices, hprices, rfl⟩

/-- The notes of the action after a commit. -/
theorem getAction_commitSplit (store : Store) (userId : Option UUID) (notes : String)
    (prices : List PriceHistory) (n m : ℕ) :
    (store.commitSplit d userId notes prices n m).getAction d.corporateActionId =
      (store.getAction d.corporateActionId).map (CorporateAction.setNotes notes) :=
  Keyed.find?_modify fun _ => rfl

/-- A commit marks the action. -/
theorem marked_commitSplit {store : Store} {userId : Option UUID} {row : CorporateAction}
    {prices : List PriceHistory} {n m : ℕ} (hfound : (store.getAction d.corporateActionId).isSome) :
    (store.commitSplit d userId row.newNotes prices n m).marked d = true := by
  obtain ⟨row', hrow'⟩ := Option.isSome_iff_exists.mp hfound
  unfold Store.marked
  rw [getAction_commitSplit, hrow']
  exact CorporateAction.applied_setNotes row row'

/-- A second call on the same action changes nothing and returns 0. -/
theorem applySplit_again {n : ℕ} (h : applySplit historyDays s d userId = .ok (s', n))
    (userId' : Option UUID) : applySplit historyDays s' d userId' = .ok (s', 0) := by
  have hskip : ∀ row, s'.getAction d.corporateActionId = some row → row.applied = true →
      applySplit historyDays s' d userId' = .ok (s', 0) := by
    intro row hrow happ
    unfold applySplit
    simp [hrow, happ]
  obtain ⟨row, hrow, ⟨happ, rfl, rfl⟩ | ⟨-, prices, -, rfl⟩⟩ := applySplit_cases h
  · exact hskip row hrow happ
  · have hnotes := getAction_commitSplit (d := d)
      { s with cache := (invalidateIndicatorCache d.instrumentId s.cache).1 } userId row.newNotes prices n
        (invalidateIndicatorCache d.instrumentId s.cache).2
    have hfound : Store.getAction { s with cache := (invalidateIndicatorCache d.instrumentId s.cache).1 }
        d.corporateActionId = some row := hrow
    rw [hfound, Option.map_some] at hnotes
    exact hskip _ hnotes (CorporateAction.applied_setNotes row row)

end Nivara.CorporateActions
