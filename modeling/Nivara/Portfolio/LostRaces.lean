import Nivara.Lib.UnitOfWork
import Nivara.Portfolio.ResolveRaces
import Nivara.Scheduling.Calendar

/-!
# Inserts that lose a race

What an insert that another transaction has come before does to the other writes of its caller:
`_create_mapping` (`services/symbol_mapping.py`, lines 133–169), `resolve` (`services/instruments.py`,
lines 69–161) and `record_unexpected_closed` (`services/calendar.py`, lines 233–290). On PostgreSQL they
insert with `ON CONFLICT`; on any other database they add the row and flush.

* `race` holds the rows that other transactions commit right before the insert.
* What `normalize_exchange` of the calendar returns, and `uuid4()`, are inputs.
* `raises` tells whether the upsert of an override raises an `IntegrityError` all the same, which no row
  of its exchange and date can make it do.

Results:

* `resolve_of_lost`: `resolve` returns the instrument of the other transaction.
* `lost_races_iff`: when the caller can still commit its other writes.
* `mapping_race_undoes_writes`: a lost race that undoes them.
-/

namespace Nivara.Portfolio.LostRaces

open UnitOfWork

variable {ω : Type}

/-! ## Model -/

/-- `uq_symbol_mappings_broker_triplet`; a row without an exchange is unlike every other. -/
def mappingKey (m : SymbolMapping) : Option (Broker × String × String) :=
  m.brokerExchange.map fun exchange => (m.broker, m.brokerSymbol, exchange)

/-- `_create_mapping`. -/
def createMapping (dialect : String) (race : List SymbolMapping) (mapping : SymbolMapping)
    (s : OrmSession SymbolMapping ω) : After SymbolMapping ω :=
  let s := s.arrive race
  if dialect = "postgresql" then .active (s.insertOrNothing mappingKey mapping).2.flush
  else
    match s.addAndFlush mappingKey mapping with
    | .ok s => .active s
    | .error s => .active s.rollback

/-- `uq_instruments_symbol_exchange`. -/
def instrumentKey (row : InstrumentRow) : Option (String × String) := some row.key

/-- `resolve`. -/
def resolveInstrument (upper : String → String) (dialect : String) (race : List InstrumentRow)
    (r : ResolveRequest) (s : OrmSession InstrumentRow ω) :
    Except InstrumentError InstrumentRow × After InstrumentRow ω :=
  match s.select instrumentKey (r.row upper "") with
  | some existing => (.ok existing, .active s)
  | none =>
    if !r.createIfMissing then
      (.error (.lookupError s!"Instrument not found: symbol={(r.key upper).1} exchange={(r.key upper).2}"),
        .active s)
    else
      match r.name.filter (· ≠ "") with
      | none =>
        (.error (.lookupError "Cannot create instrument without a name. Pass `name` on first encounter."),
          .active s)
      | some name =>
        let s := s.arrive race
        let row := r.row upper name
        if dialect = "postgresql" then
          let (inserted, s) := s.insertOrNothing instrumentKey row
          let s := s.flush
          if inserted then (.ok row, .active s)
          else
            match s.select instrumentKey row with
            | some existing => (.ok existing, .active s)
            | none =>
              (.error (.runtimeError "ON CONFLICT DO NOTHING returned no row and SELECT found none."),
                .active s)
        else
          match s.addAndFlush instrumentKey row with
          | .ok s => (.ok row, .active s)
          | .error s =>
            let s := s.rollback
            match s.select instrumentKey row with
            | some existing => (.ok existing, .active s)
            | none => (.error .integrityError, .active s)

/-- A row of `calendar_overrides`. -/
structure OverrideRow where
  exchange : Scheduling.Exchange
  date : Date
  isOpen : Bool
  reason : String
  deriving DecidableEq

/-- `uq_calendar_overrides_exchange_date`. -/
def overrideKey (row : OverrideRow) : Option (Scheduling.Exchange × Date) := some (row.exchange, row.date)

/-- An `IntegrityError` that leaves the service. -/
inductive OverrideError
  | integrityError
  deriving DecidableEq

/-- `record_unexpected_closed`, for a `row` that is not open. -/
def recordUnexpectedClosed (dialect : String) (raises : Bool) (race : List OverrideRow)
    (mic : Scheduling.Exchange) (on : Date) (reason : String) (s : OrmSession OverrideRow ω) :
    Except OverrideError OverrideRow × After OverrideRow ω :=
  let row : OverrideRow := ⟨mic, on, false, reason⟩
  if dialect = "postgresql" ∧ raises = false then
    (.ok row, .active ((s.arrive race).upsert overrideKey row).flush)
  else
    let s := if dialect = "postgresql" then (s.arrive race).rollback else s
    match s.select overrideKey row with
    | some existing =>
      let existing := { existing with isOpen := false, reason := reason }
      (.ok existing, .active (s.updateAndFlush existing))
    | none =>
      let s := if dialect = "postgresql" then s else s.arrive race
      match s.addAndFlush overrideKey row with
      | .ok s => (.ok row, .active s)
      | .error s => (.error .integrityError, .inactive s)

/-! ## Lost races -/

section Lost

variable {dialect : String}

theorem createMapping_of_lost {s : OrmSession SymbolMapping ω} {race : List SymbolMapping}
    {mapping : SymbolMapping} (h : s.Lost mappingKey race mapping) :
    Kept mappingKey s (createMapping dialect race mapping s) ↔
      dialect = "postgresql" ∨ s.openWrites = [] := by
  unfold createMapping
  dsimp only
  split_ifs with hdialect
  · rw [insertOrNothing_of_lost h]
    refine iff_of_true (kept_of_openWrites rfl ?_) (.inl hdialect)
    rw [openWrites_flush]
    exact List.Sublist.refl _
  · rw [addAndFlush_of_lost h, or_iff_right hdialect]
    exact kept_iff_of_undone (saved_rollback _)

section Resolve

variable {upper : String → String} {s : OrmSession InstrumentRow ω} {race : List InstrumentRow}
  {r : ResolveRequest} {name : String}

/-- The call that has lost its race returns the instrument of the other transaction, and the writes of its
    caller are still there on PostgreSQL. -/
theorem resolveInstrument_of_lost (hcreate : r.createIfMissing = true)
    (hname : r.name.filter (· ≠ "") = some name) (h : s.Lost instrumentKey race (r.row upper name)) :
    (∃ existing, (resolveInstrument upper dialect race r s).1 = .ok existing ∧
        existing.key = r.key upper) ∧
      (Kept instrumentKey s (resolveInstrument upper dialect race r s).2 ↔
        dialect = "postgresql" ∨ s.openWrites = []) := by
  have hfirst : s.select instrumentKey (r.row upper "") = none := select_of_lost h
  unfold resolveInstrument
  rw [hfirst, hcreate, hname]
  dsimp only
  rw [if_neg (by decide)]
  by_cases hdialect : dialect = "postgresql"
  · obtain ⟨existing, hselect, hkey⟩ := exists_select (taken_flush_of_lost h)
    rw [if_pos hdialect, insertOrNothing_of_lost h]
    dsimp only
    rw [if_neg Bool.false_ne_true, hselect]
    refine ⟨⟨existing, rfl, Option.some.inj hkey⟩, iff_of_true (kept_of_openWrites rfl ?_) (.inl hdialect)⟩
    rw [openWrites_flush]
    exact List.Sublist.refl _
  · obtain ⟨existing, hselect, hkey⟩ := exists_select (taken_rollback_of_lost h)
    rw [if_neg hdialect, addAndFlush_of_lost h, or_iff_right hdialect]
    dsimp only
    rw [hselect]
    exact ⟨⟨existing, rfl, Option.some.inj hkey⟩, kept_iff_of_undone (saved_rollback _)⟩

end Resolve

theorem recordUnexpectedClosed_of_lost {s : OrmSession OverrideRow ω} {race : List OverrideRow}
    {mic : Scheduling.Exchange} {on : Date} {reason : String}
    (h : s.Lost overrideKey race ⟨mic, on, false, reason⟩) :
    Kept overrideKey s (recordUnexpectedClosed dialect false race mic on reason s).2 ↔
      dialect = "postgresql" ∨ s.openWrites = [] := by
  unfold recordUnexpectedClosed
  dsimp only
  by_cases hdialect : dialect = "postgresql"
  · rw [if_pos ⟨hdialect, rfl⟩]
    refine iff_of_true (kept_of_openWrites rfl ?_) (.inl hdialect)
    rw [openWrites_flush]
    unfold OrmSession.upsert OrmSession.openWrites
    exact (List.sublist_append_left _ _).append_right _
  · rw [if_neg (fun hpg => hdialect hpg.1), if_neg hdialect, select_of_lost h, or_iff_right hdialect]
    dsimp only
    rw [if_neg hdialect, addAndFlush_of_lost h]
    exact kept_iff_of_undone rfl

end Lost

/-! ## Main result -/

/-- The caller can commit its other writes after a lost race exactly on PostgreSQL, or when there are none. -/
theorem lost_races_iff (dialect : String) :
    (∀ (s : OrmSession SymbolMapping ω) (race : List SymbolMapping) (mapping : SymbolMapping),
        s.Lost mappingKey race mapping →
          (Kept mappingKey s (createMapping dialect race mapping s) ↔
            dialect = "postgresql" ∨ s.openWrites = [])) ∧
      (∀ (upper : String → String) (s : OrmSession InstrumentRow ω) (race : List InstrumentRow)
          (r : ResolveRequest) (name : String), r.createIfMissing = true →
        r.name.filter (· ≠ "") = some name → s.Lost instrumentKey race (r.row upper name) →
          (Kept instrumentKey s (resolveInstrument upper dialect race r s).2 ↔
            dialect = "postgresql" ∨ s.openWrites = [])) ∧
      ∀ (s : OrmSession OverrideRow ω) (race : List OverrideRow) (mic : Scheduling.Exchange) (on : Date)
          (reason : String), s.Lost overrideKey race ⟨mic, on, false, reason⟩ →
        (Kept overrideKey s (recordUnexpectedClosed dialect false race mic on reason s).2 ↔
          dialect = "postgresql" ∨ s.openWrites = []) :=
  ⟨fun _ _ _ h => createMapping_of_lost h,
    fun _ _ _ _ _ hcreate hname h => (resolveInstrument_of_lost hcreate hname h).2,
    fun _ _ _ _ _ h => recordUnexpectedClosed_of_lost h⟩

/-- A mapping of an order that two transactions come across. -/
def racedMapping : SymbolMapping := ⟨1, .zerodha, "INFY", some "NSE"⟩

/-- On another database the audit row of the caller is lost with the race. -/
theorem mapping_race_undoes_writes :
    let s : OrmSession SymbolMapping String := ⟨[], [], [], ["audit row"]⟩
    s.Lost mappingKey [racedMapping] racedMapping ∧
      (createMapping "sqlite" [racedMapping] racedMapping s).saved mappingKey = [] ∧
      ¬ Kept mappingKey s (createMapping "sqlite" [racedMapping] racedMapping s) := by
  intro s
  have hlost : s.Lost mappingKey [racedMapping] racedMapping := ⟨by decide, by decide⟩
  refine ⟨hlost, rfl, fun hkept => ?_⟩
  rcases (createMapping_of_lost hlost).mp hkept with hdialect | hopen
  · exact absurd hdialect (by decide)
  · cases hopen

end Nivara.Portfolio.LostRaces
