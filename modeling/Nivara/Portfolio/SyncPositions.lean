import Nivara.Portfolio.Session
import Nivara.Lib.Keyed
import Nivara.Lib.Loop
import Nivara.Lib.Reconcile

/-!
# `_sync_positions`

The position half of a sync (`services/portfolio_sync.py`, lines 167-231): an
upsert loop over the broker's rows, then a loop that closes the rows the broker
no longer reports.

`existing_by_instrument` is built once, before the loop, from the rows of the
connection; a row the loop adds does not enter it. Its values are the live rows
of the session, so an update is a modification of the session's table.
-/

namespace Nivara.Portfolio

open Keyed

/-! ## Model -/

/-- `Currency` (`schemas/broker.py`). -/
inductive Currency
  | USD
  | INR
  | EUR
  | GBP
  deriving DecidableEq, Repr

/-- The literal's text. -/
def Currency.str : Currency → String
  | .USD => "USD"
  | .INR => "INR"
  | .EUR => "EUR"
  | .GBP => "GBP"

/-- `NormalizedPosition` (`schemas/broker.py`), without the broker's own valuation
    (`current_price`, `market_value`, `unrealized_pl`), which a sync does not read. -/
structure NormalizedPosition where
  brokerSymbol : String
  quantity : ℚ
  avgEntryPrice : ℚ
  currency : Currency
  exchange : Option String
  deriving DecidableEq, Repr

/-- A dollar position at 100, without an exchange, as Alpaca reports it. -/
def sampleRow (symbol : String) (quantity : ℚ) : NormalizedPosition :=
  ⟨symbol, quantity, 100, .USD, none⟩

/-- The row written for a reported position. -/
def positionOf (conn : UUID) (now : Instant) (inst : UUID) (bp : NormalizedPosition) : Position where
  brokerConnectionId := conn
  instrumentId := inst
  quantity := bp.quantity
  avgCost := bp.avgEntryPrice
  currency := bp.currency.str
  asOf := now

/-- A closed row: quantity 0, refreshed `as_of`. -/
def closeRow (now : Instant) (p : Position) : Position := { p with quantity := 0, asOf := now }

/-- The state of the upsert loop. -/
structure PositionLoop where
  session : Session
  seen : List UUID
  upserted : ℕ
  skipped : ℕ
  warnings : List String

/-- What `_sync_positions` returns. -/
structure PositionsResult where
  upserted : ℕ
  closed : ℕ
  skipped : ℕ
  warnings : List String
  deriving DecidableEq, Repr

section Model

variable (upper : String → String) (conn : UUID) (broker : Broker) (now : Instant)

/-- The assignment to the row of an instrument, or the insert (lines 199-215);
    `existing` are the keys of `existing_by_instrument`. -/
def upsertPosition (existing : List UUID) (inst : UUID) (bp : NormalizedPosition) (s : Session) :
    Session :=
  if inst ∈ existing then
    { s with
      positions := modify Position.key (conn, inst)
        (fun row => { row with
          quantity := bp.quantity
          avgCost := bp.avgEntryPrice
          currency := bp.currency.str
          asOf := now }) s.positions }
  else { s with positions := s.positions ++ [positionOf conn now inst bp] }

/-- The warning for a row that does not resolve (line 194). -/
def unmappedWarning (bp : NormalizedPosition) (message : String) : String :=
  s!"unmapped_symbol: {bp.brokerSymbol} ({message})"

/-- The body of the upsert loop (lines 186-216). Only `SymbolNotMappedError` is
    caught. -/
def positionStep (existing : List UUID) (st : PositionLoop) (bp : NormalizedPosition) :
    Except SyncError PositionLoop :=
  match normalizeSymbol upper st.session broker bp.brokerSymbol bp.exchange with
  | .error (.symbolNotMapped message) =>
    .ok { st with
      warnings := st.warnings ++ [unmappedWarning bp message]
      skipped := st.skipped + 1 }
  | .error e => .error e
  | .ok (instrument, session) =>
    .ok { st with
      session := upsertPosition conn now existing instrument.id bp session
      seen := instrument.id :: st.seen
      upserted := st.upserted + 1 }

/-- The body of the closing loop (lines 220-228), on the table and `closed`. -/
def closeMissing (seen : List UUID) (st : List Position × ℕ) (inst : UUID) : List Position × ℕ :=
  if inst ∈ seen then st
  else
    match st.1.find? fun p => p.key = (conn, inst) with
    | none => st -- not reached: every key of the dictionary has its row
    | some row =>
      if row.quantity = 0 then
        (modify Position.key (conn, inst) (fun row => { row with asOf := now }) st.1, st.2)
      else (modify Position.key (conn, inst) (closeRow now) st.1, st.2 + 1)

/-- The keys of `existing_by_instrument`. -/
def existingInstruments (s : Session) : List UUID :=
  (s.positions.filter fun p => p.brokerConnectionId = conn).map Position.instrumentId

/-- `PortfolioSyncService._sync_positions`. -/
def syncPositions (db : Database) (brokerPositions : List NormalizedPosition) :
    Except SyncError (Database × PositionsResult) := do
  let existing := existingInstruments conn db.toSession
  let st ← brokerPositions.foldlM (positionStep upper conn broker now existing)
    ⟨db.toSession, [], 0, 0, []⟩
  let (rows, closed) := existing.foldl (closeMissing conn now st.seen) (st.session.positions, 0)
  let db ← { st.session with positions := rows }.flush
  return (db, ⟨st.upserted, closed, st.skipped, st.warnings⟩)

/-! ## What the broker's rows resolve to -/

/-- The lookup of a reported row. -/
def positionLookup (cat : Catalog) (bp : NormalizedPosition) : Except ResolveError Instrument :=
  cat.lookup upper broker bp.brokerSymbol bp.exchange

/-- The reported rows that resolve, with their instrument, in the broker's order. -/
def reports (cat : Catalog) (l : List NormalizedPosition) : List (UUID × NormalizedPosition) :=
  resolved (positionLookup upper broker cat) l

/-- The row makes the sync raise `MultipleResultsFound`. -/
def AmbiguousPosition (cat : Catalog) (bp : NormalizedPosition) : Prop :=
  positionLookup upper broker cat bp = .error .multipleResultsFound

instance (cat : Catalog) (bp : NormalizedPosition) :
    Decidable (AmbiguousPosition upper broker cat bp) := by
  unfold AmbiguousPosition; infer_instance

/-- The warnings for the rows that do not resolve. -/
def unmappedWarnings (cat : Catalog) (l : List NormalizedPosition) : List String :=
  (unmapped (positionLookup upper broker cat) l).map fun r => unmappedWarning r.1 r.2

end Model

/-! ## The table in closed form -/

section ClosedForm

variable (conn : UUID) (now : Instant)

/-- What the upsert loop has made of a stored row after the reports `rs`. -/
def stampRow (rs : List (UUID × NormalizedPosition)) (p : Position) : Position :=
  if p.brokerConnectionId = conn then
    match lastFor rs p.instrumentId with
    | some bp => positionOf conn now p.instrumentId bp
    | none => p
  else p

/-- What the whole of `_sync_positions` makes of a stored row. -/
def reconcileRow (rs : List (UUID × NormalizedPosition)) (p : Position) : Position :=
  if p.brokerConnectionId = conn then
    match lastFor rs p.instrumentId with
    | some bp => positionOf conn now p.instrumentId bp
    | none => closeRow now p
  else p

/-- The reports for instruments without a stored row. -/
def newReports (existing : List UUID) (rs : List (UUID × NormalizedPosition)) :
    List (UUID × NormalizedPosition) :=
  rs.filter fun r => r.1 ∉ existing

/-- The rows the upsert loop adds. -/
def newRows (existing : List UUID) (rs : List (UUID × NormalizedPosition)) : List Position :=
  (newReports existing rs).map fun r => positionOf conn now r.1 r.2

end ClosedForm

variable {upper : String → String} {conn : UUID} {broker : Broker} {now : Instant}
  {rs : List (UUID × NormalizedPosition)} {existing : List UUID}

@[simp] theorem positionOf_key (inst : UUID) (bp : NormalizedPosition) :
    (positionOf conn now inst bp).key = (conn, inst) := rfl

@[simp] theorem closeRow_key (p : Position) : (closeRow now p).key = p.key := rfl

@[simp] theorem stampRow_key (p : Position) : (stampRow conn now rs p).key = p.key := by
  unfold stampRow
  by_cases hc : p.brokerConnectionId = conn
  · rw [if_pos hc]
    cases lastFor rs p.instrumentId <;> simp [Position.key, positionOf, hc]
  · rw [if_neg hc]

@[simp] theorem reconcileRow_key (p : Position) : (reconcileRow conn now rs p).key = p.key := by
  unfold reconcileRow
  by_cases hc : p.brokerConnectionId = conn
  · rw [if_pos hc]
    cases lastFor rs p.instrumentId <;> simp [Position.key, positionOf, closeRow, hc]
  · rw [if_neg hc]

theorem key_eq_iff {p : Position} {inst : UUID} :
    p.key = (conn, inst) ↔ p.brokerConnectionId = conn ∧ p.instrumentId = inst := by
  simp [Position.key]

/-- The keys of `existing_by_instrument` are the instruments with a row. -/
theorem mem_existingInstruments {s : Session} {inst : UUID} :
    inst ∈ existingInstruments conn s ↔ ∃ p ∈ s.positions, p.key = (conn, inst) := by
  simp only [existingInstruments, List.mem_map, List.mem_filter, decide_eq_true_eq, key_eq_iff,
    and_assoc]

/-- One more report for a stored instrument overwrites its row. -/
theorem modify_stampRow (rows : List Position) (inst : UUID) (bp : NormalizedPosition) :
    modify Position.key (conn, inst)
        (fun row => { row with
          quantity := bp.quantity
          avgCost := bp.avgEntryPrice
          currency := bp.currency.str
          asOf := now }) (rows.map (stampRow conn now rs)) =
      rows.map (stampRow conn now (rs ++ [(inst, bp)])) := by
  rw [modify_map]
  apply List.map_congr_left
  intro p _
  rw [stampRow_key]
  by_cases hk : p.key = (conn, inst)
  · obtain ⟨hc, hi⟩ := key_eq_iff.mp hk
    rw [if_pos hk]
    unfold stampRow
    rw [if_pos hc, if_pos hc, lastFor_append, if_pos hi.symm]
    cases lastFor rs p.instrumentId <;> simp [positionOf, hc]
  · rw [if_neg hk]
    unfold stampRow
    by_cases hc : p.brokerConnectionId = conn
    · have hi : inst ≠ p.instrumentId := fun h => hk (key_eq_iff.mpr ⟨hc, h.symm⟩)
      rw [if_pos hc, if_pos hc, lastFor_append, if_neg hi]
    · rw [if_neg hc, if_neg hc]

/-- A report for an instrument without a row leaves the stored rows alone. -/
theorem map_stampRow_of_new (rows : List Position) (inst : UUID) (bp : NormalizedPosition)
    (hnew : ∀ p ∈ rows, p.key ≠ (conn, inst)) :
    rows.map (stampRow conn now (rs ++ [(inst, bp)])) = rows.map (stampRow conn now rs) := by
  rw [← modify_stampRow]
  apply modify_of_forall_ne
  intro r hr
  obtain ⟨p, hp, rfl⟩ := List.mem_map.mp hr
  rw [stampRow_key]
  exact hnew p hp

/-- The upsert on the table of the loop. -/
theorem upsertPosition_closed (s : Session) (rows : List Position) (inst : UUID)
    (bp : NormalizedPosition)
    (hex : ∀ inst, inst ∈ existing ↔ ∃ p ∈ rows, p.key = (conn, inst))
    (hs : s.positions = rows.map (stampRow conn now rs) ++ newRows conn now existing rs) :
    upsertPosition conn now existing inst bp s =
      { s with positions := rows.map (stampRow conn now (rs ++ [(inst, bp)])) ++
          newRows conn now existing (rs ++ [(inst, bp)]) } := by
  unfold upsertPosition newRows newReports
  rw [List.filter_append]
  by_cases hin : inst ∈ existing
  · have hnew : ∀ r ∈ newRows conn now existing rs, r.key ≠ (conn, inst) := by
      intro r hr hk
      obtain ⟨q, hq, rfl⟩ := List.mem_map.mp hr
      have hni : q.1 ∉ existing := by simpa using (List.mem_filter.mp hq).2
      have hqi : q.1 = inst := (Prod.mk.inj hk).2
      exact hni (hqi ▸ hin)
    rw [if_pos hin, hs, modify_append, modify_stampRow, modify_of_forall_ne hnew]
    simp [newRows, newReports, hin]
  · have hnew : ∀ p ∈ rows, p.key ≠ (conn, inst) := fun p hp hk => hin ((hex inst).mpr ⟨p, hp, hk⟩)
    rw [if_neg hin, hs, map_stampRow_of_new rows inst bp hnew]
    simp [newRows, newReports, hin]

/-! ## The upsert loop -/

section Loop

variable (upper : String → String) (conn : UUID) (broker : Broker) (now : Instant)

/-- The state of the upsert loop after the rows `l`, with the mappings `cat'`. -/
def loopAfter (db : Database) (cat' : Catalog) (l : List NormalizedPosition) : PositionLoop where
  session := { db.toSession with
    catalog := cat'
    positions := db.positions.map (stampRow conn now (reports upper broker db.catalog l)) ++
      newRows conn now (existingInstruments conn db.toSession) (reports upper broker db.catalog l) }
  seen := ((reports upper broker db.catalog l).map Prod.fst).reverse
  upserted := (reports upper broker db.catalog l).length
  skipped := (unmappedWarnings upper broker db.catalog l).length
  warnings := unmappedWarnings upper broker db.catalog l

/-- The instruments the loop inserts a row for, with repetitions. -/
def newInstruments (db : Database) (l : List NormalizedPosition) : List UUID :=
  (newReports (existingInstruments conn db.toSession) (reports upper broker db.catalog l)).map Prod.fst

end Loop

variable {db : Database} {cat' : Catalog} {l : List NormalizedPosition} {bp : NormalizedPosition}

/-- The keys of the loop's table: those stored, then those of the new rows. -/
theorem loopAfter_keys :
    (loopAfter upper conn broker now db cat' l).session.positions.map Position.key =
      db.positions.map Position.key ++ (newInstruments upper conn broker db l).map fun i => (conn, i) := by
  simp [loopAfter, newInstruments, newRows, Function.comp_def]

/-- Only the new rows can violate the unique constraint. -/
theorem tableKeys_nodup_iff :
    (db.positions.map Position.key ++
        (newInstruments upper conn broker db l).map fun i => (conn, i)).Nodup ↔
      (newInstruments upper conn broker db l).Nodup := by
  have hinj : Function.Injective fun i : UUID => (conn, i) := fun a b h => (Prod.mk.inj h).2
  rw [List.nodup_append, List.nodup_map_iff hinj]
  refine ⟨fun h => h.2.1, fun h => ⟨db.uq_positions, h, ?_⟩⟩
  intro k hk k' hk' heq
  obtain ⟨p, hp, rfl⟩ := List.mem_map.mp hk
  obtain ⟨inst, hi, rfl⟩ := List.mem_map.mp hk'
  obtain ⟨r, hr, rfl⟩ := List.mem_map.mp hi
  have hnew : r.1 ∉ existingInstruments conn db.toSession := by
    simpa using (List.mem_filter.mp hr).2
  exact hnew (mem_existingInstruments.mpr ⟨p, hp, heq⟩)

theorem newInstruments_append_of_dup (h : ¬ (newInstruments upper conn broker db l).Nodup) :
    ¬ (newInstruments upper conn broker db (l ++ [bp])).Nodup := by
  intro hnd
  apply h
  unfold newInstruments newReports at hnd ⊢
  unfold reports at hnd ⊢
  rw [resolved_append, List.filter_append, List.map_append] at hnd
  exact (List.nodup_append.mp hnd).1

/-- A flush of the loop's session fails only for two new rows of one instrument. -/
theorem flush_loopAfter {e : SyncError}
    (h : (loopAfter upper conn broker now db cat' l).session.flush = .error e) :
    ¬ (newInstruments upper conn broker db l).Nodup ∧
      e = .integrityError .positionsConnInstrument := by
  by_cases hnd : (newInstruments upper conn broker db l).Nodup
  · have hp : ((loopAfter upper conn broker now db cat' l).session.positions.map
        Position.key).Nodup := by
      rw [loopAfter_keys]; exact tableKeys_nodup_iff.mpr hnd
    rw [Session.flush_eq_ok hp db.uq_orders] at h
    cases h
  · have hp : ¬ ((loopAfter upper conn broker now db cat' l).session.positions.map
        Position.key).Nodup := by
      rw [loopAfter_keys]; exact fun hn => hnd (tableKeys_nodup_iff.mp hn)
    rw [Session.flush_of_positions_dup hp] at h
    cases h
    exact ⟨hnd, rfl⟩

/-! One round, by how the symbol resolves. -/

theorem positionStep_of_unmapped {st : PositionLoop} {message : String}
    (h : positionLookup upper broker st.session.catalog bp = .error (.symbolNotMapped message)) :
    positionStep upper conn broker now existing st bp =
      .ok { st with
        warnings := st.warnings ++ [unmappedWarning bp message]
        skipped := st.skipped + 1 } := by
  simp only [positionStep, normalizeSymbol_of_error h, ResolveError.toSync]

theorem positionStep_of_ambiguous {st : PositionLoop}
    (h : AmbiguousPosition upper broker st.session.catalog bp) :
    positionStep upper conn broker now existing st bp = .error .multipleResultsFound := by
  simp only [positionStep, normalizeSymbol_of_error h, ResolveError.toSync]

variable (conn now existing) in
theorem positionStep_of_mapped {st : PositionLoop} {i : Instrument}
    (h : positionLookup upper broker st.session.catalog bp = .ok i) :
    (∃ cat', Catalog.SameLookups upper st.session.catalog cat' ∧
      positionStep upper conn broker now existing st bp =
        .ok { st with
          session := upsertPosition conn now existing i.id bp { st.session with catalog := cat' }
          seen := i.id :: st.seen
          upserted := st.upserted + 1 }) ∨
    (∃ e, st.session.flush = .error e ∧
      positionStep upper conn broker now existing st bp = .error e) := by
  rcases normalizeSymbol_of_ok h with ⟨cat', hsame, hstep⟩ | ⟨e, hflush, hstep⟩
  · exact .inl ⟨cat', hsame, by simp only [positionStep, hstep]⟩
  · refine .inr ⟨e, hflush, ?_⟩
    have he : ∀ m, e ≠ .symbolNotMapped m := by
      rintro m rfl
      unfold Session.flush at hflush
      split_ifs at hflush <;> cases hflush
    simp only [positionStep, hstep]

variable (conn now l) in
/-- One round of the upsert loop from its closed form. -/
theorem positionStep_loopAfter (hsame : Catalog.SameLookups upper db.catalog cat')
    (hamb : ¬ AmbiguousPosition upper broker db.catalog bp) :
    (∃ cat'', Catalog.SameLookups upper db.catalog cat'' ∧
      positionStep upper conn broker now (existingInstruments conn db.toSession)
        (loopAfter upper conn broker now db cat' l) bp =
          .ok (loopAfter upper conn broker now db cat'' (l ++ [bp]))) ∨
    (¬ (newInstruments upper conn broker db l).Nodup ∧
      positionStep upper conn broker now (existingInstruments conn db.toSession)
        (loopAfter upper conn broker now db cat' l) bp =
          .error (.integrityError .positionsConnInstrument)) := by
  have hlook : positionLookup upper broker
      (loopAfter upper conn broker now db cat' l).session.catalog bp =
        positionLookup upper broker db.catalog bp :=
    hsame.find _
  rcases hr : positionLookup upper broker db.catalog bp with (message | _) | i
  · left
    refine ⟨cat', hsame, ?_⟩
    rw [positionStep_of_unmapped (hlook.trans hr)]
    simp [loopAfter, reports, unmappedWarnings, resolved_append, unmapped_append, hr]
  · exact absurd hr hamb
  · rcases positionStep_of_mapped conn now (existingInstruments conn db.toSession)
      (hlook.trans hr) with
      ⟨cat'', hsame', hstep⟩ | ⟨e, hflush, hstep⟩
    · left
      refine ⟨cat'', hsame.trans hsame', ?_⟩
      rw [hstep, upsertPosition_closed _ db.positions i.id bp (fun inst => mem_existingInstruments)
        (show _ = _ ++ newRows conn now _ (reports upper broker db.catalog l) from rfl)]
      simp [loopAfter, reports, unmappedWarnings, resolved_append, unmapped_append, hr]
    · right
      obtain ⟨hdup, rfl⟩ := flush_loopAfter hflush
      exact ⟨hdup, hstep⟩

variable (upper conn broker now) in
theorem loopAfter_nil (db : Database) :
    loopAfter upper conn broker now db db.catalog [] = ⟨db.toSession, [], 0, 0, []⟩ := by
  have hstamp : db.positions.map (stampRow conn now []) = db.positions := by
    conv_rhs => rw [← List.map_id db.positions]
    exact List.map_congr_left fun p _ => by simp [stampRow]
  simp [loopAfter, reports, unmappedWarnings, newRows, newReports, hstamp]

variable (upper conn broker now) in
/-- The upsert loop: it reaches the closed form, or a mapping flush meets two new
    rows of one instrument, or a row is ambiguous. -/
theorem positionLoop_spec (db : Database) (l : List NormalizedPosition) :
    (∃ cat', Catalog.SameLookups upper db.catalog cat' ∧
      (∀ bp ∈ l, ¬ AmbiguousPosition upper broker db.catalog bp) ∧
      l.foldlM (positionStep upper conn broker now (existingInstruments conn db.toSession))
        ⟨db.toSession, [], 0, 0, []⟩ = .ok (loopAfter upper conn broker now db cat' l)) ∨
    (¬ (newInstruments upper conn broker db l).Nodup ∧
      l.foldlM (positionStep upper conn broker now (existingInstruments conn db.toSession))
        ⟨db.toSession, [], 0, 0, []⟩ = .error (.integrityError .positionsConnInstrument)) ∨
    ((∃ bp ∈ l, ¬ ¬ AmbiguousPosition upper broker db.catalog bp) ∧
      l.foldlM (positionStep upper conn broker now (existingInstruments conn db.toSession))
        ⟨db.toSession, [], 0, 0, []⟩ = .error .multipleResultsFound) := by
  rw [← loopAfter_nil upper conn broker now db]
  refine Loop.foldlM_closedForm (.refl db.catalog)
    (fun _ l _ hsame hb => positionStep_loopAfter conn now l hsame hb) ?_
    (fun _ _ hdup => newInstruments_append_of_dup hdup) l
  intro cat' l bp hsame hb
  exact positionStep_of_ambiguous ((hsame.find _).trans (not_not.mp hb))

/-! ## The closing loop -/

variable (conn now) in
/-- One round of the closing loop for an instrument that was not reported, when the
    table holds its row once. -/
theorem closeMissing_of_not_seen {seen : List UUID} {rows : List Position} {n : ℕ} {p : Position}
    (hp : p.brokerConnectionId = conn) (hseen : p.instrumentId ∉ seen)
    (hrow : rows.filter (fun q => q.key = p.key) = [p]) :
    closeMissing conn now seen (rows, n) p.instrumentId =
      (modify Position.key p.key (closeRow now) rows, n + if p.quantity = 0 then 0 else 1) := by
  have hk : (conn, p.instrumentId) = p.key := by simp [Position.key, hp]
  unfold closeMissing
  simp only [hk, if_neg hseen, find?_of_filter_key hrow]
  by_cases hq : p.quantity = 0
  · rw [if_pos hq, if_pos hq]
    congr 1
    apply modify_congr
    intro r hr hkey
    have hrp : r ∈ rows.filter fun q => q.key = p.key := List.mem_filter.mpr ⟨hr, by simpa using hkey⟩
    rw [hrow, List.mem_singleton] at hrp
    rw [hrp, closeRow, hq]
  · rw [if_neg hq, if_neg hq]

/-- The closing loop over the stored rows `L`: it closes those not seen and counts
    the ones that were open. -/
theorem closeMissing_foldl (seen : List UUID) :
    ∀ (L rows : List Position) (n : ℕ), (L.map Position.key).Nodup →
      (∀ p ∈ L, p.brokerConnectionId = conn) →
      (∀ p ∈ L, p.instrumentId ∉ seen → rows.filter (fun q => q.key = p.key) = [p]) →
      (L.map Position.instrumentId).foldl (closeMissing conn now seen) (rows, n) =
        (rows.map fun q =>
          if q.key ∈ L.map Position.key ∧ q.instrumentId ∉ seen then closeRow now q else q,
          n + (L.filter fun p => p.instrumentId ∉ seen ∧ p.quantity ≠ 0).length) := by
  intro L
  induction L with
  | nil => intro rows n _ _ _; simp
  | cons p L ih =>
    intro rows n hnd hconn hrow
    obtain ⟨hp, hL⟩ := List.nodup_cons.mp hnd
    have hconn' : ∀ q ∈ L, q.brokerConnectionId = conn := fun q hq => hconn q (by simp [hq])
    rw [List.map_cons, List.foldl_cons]
    by_cases hseen : p.instrumentId ∈ seen
    · have hskip : closeMissing conn now seen (rows, n) p.instrumentId = (rows, n) := by
        unfold closeMissing; rw [if_pos hseen]
      rw [hskip, ih rows n hL hconn' fun q hq => hrow q (by simp [hq])]
      congr 1
      · apply List.map_congr_left
        intro q _
        have hq : (q.key ∈ (p :: L).map Position.key ∧ q.instrumentId ∉ seen) ↔
            (q.key ∈ L.map Position.key ∧ q.instrumentId ∉ seen) := by
          rw [List.map_cons, List.mem_cons]
          refine and_congr_left fun hq => or_iff_right ?_
          intro hk
          exact hq ((Prod.mk.inj hk).2 ▸ hseen)
        simp only [hq]
      · simp [hseen]
    · have hone := hrow p (by simp) hseen
      rw [closeMissing_of_not_seen conn now (hconn p (by simp)) hseen hone, ih _ _ hL hconn']
      · congr 1
        · rw [map_modify]
          apply List.map_congr_left
          intro q _
          by_cases hk : q.key = p.key
          · have hq : q.instrumentId ∉ seen := by
              rw [show q.instrumentId = p.instrumentId from (Prod.mk.inj hk).2]; exact hseen
            rw [if_pos hk, closeRow_key, hk, if_neg fun h => hp h.1, if_pos ⟨by simp, hq⟩]
          · simp [hk]
        · by_cases hq : p.quantity = 0 <;> simp [hseen, hq]; omega
      · intro q hq hqs
        have hne : q.key ≠ p.key := fun h => hp (h ▸ List.mem_map_of_mem hq)
        rw [filter_modify_of_ne closeRow_key hne]
        exact hrow q (by simp [hq]) hqs

/-! ## The whole of `_sync_positions` -/

section Spec

variable (upper : String → String) (conn : UUID) (broker : Broker) (now : Instant)

/-- The rows that were open and are not reported. -/
def closedRows (db : Database) (l : List NormalizedPosition) : List Position :=
  db.positions.filter fun p => p.brokerConnectionId = conn ∧ p.quantity ≠ 0 ∧
    p.instrumentId ∉ (reports upper broker db.catalog l).map Prod.fst

/-- The session before the final flush, with the mappings `cat'`. -/
def reconciledSession (db : Database) (cat' : Catalog) (l : List NormalizedPosition) : Session :=
  { db.toSession with
    catalog := cat'
    positions := db.positions.map (reconcileRow conn now (reports upper broker db.catalog l)) ++
      newRows conn now (existingInstruments conn db.toSession) (reports upper broker db.catalog l) }

/-- The summary of a call that returns. -/
def positionsResult (db : Database) (l : List NormalizedPosition) : PositionsResult where
  upserted := (reports upper broker db.catalog l).length
  closed := (closedRows upper conn broker db l).length
  skipped := (unmappedWarnings upper broker db.catalog l).length
  warnings := unmappedWarnings upper broker db.catalog l

/-- What `_sync_positions` has made of its tables: the stored rows of the connection
    are reconciled, new rows follow, and the mappings answer every lookup as before. -/
structure PositionsReconciled (db : Database) (l : List NormalizedPosition) (db' : Database) :
    Prop where
  positions : db'.positions = db.positions.map
      (reconcileRow conn now (reports upper broker db.catalog l)) ++
    newRows conn now (existingInstruments conn db.toSession) (reports upper broker db.catalog l)
  lookups : Catalog.SameLookups upper db.catalog db'.catalog

/-- What a call of `_sync_positions` that returns has made of the database: nothing
    changes but its tables. -/
structure PositionsSynced (db : Database) (l : List NormalizedPosition) (db' : Database) : Prop
    extends PositionsReconciled upper conn broker now db l db' where
  orders : db'.orders = db.orders
  auditLog : db'.auditLog = db.auditLog

end Spec

theorem lastFor_eq_none_of_not_seen {inst : UUID} (h : inst ∉ (rs.map Prod.fst).reverse) :
    lastFor rs inst = none :=
  lastFor_eq_none.mpr fun hm => h (List.mem_reverse.mpr hm)

/-- A stored row that was not reported is still there, once. -/
theorem filter_loopAfter_of_not_seen {p : Position} (hp : p ∈ db.positions)
    (hc : p.brokerConnectionId = conn)
    (hseen : p.instrumentId ∉ (loopAfter upper conn broker now db cat' l).seen) :
    (loopAfter upper conn broker now db cat' l).session.positions.filter
      (fun q => q.key = p.key) = [p] := by
  have hk : p.key = (conn, p.instrumentId) := by simp [Position.key, hc]
  have hnew : (newRows conn now (existingInstruments conn db.toSession)
      (reports upper broker db.catalog l)).filter (fun q => q.key = p.key) = [] := by
    rw [List.filter_eq_nil_iff]
    intro q hq hqk
    obtain ⟨r, hr, rfl⟩ := List.mem_map.mp hq
    have hni : r.1 ∉ existingInstruments conn db.toSession := by
      simpa using (List.mem_filter.mp hr).2
    have hri : r.1 = p.instrumentId := by simpa [hk] using hqk
    exact hni (mem_existingInstruments.mpr ⟨p, hp, by rw [hk, hri]⟩)
  have hstamp : stampRow conn now (reports upper broker db.catalog l) p = p := by
    unfold stampRow
    rw [if_pos hc, lastFor_eq_none_of_not_seen hseen]
  simp only [loopAfter, List.filter_append, hnew, List.append_nil, List.filter_map]
  rw [show ((fun q : Position => decide (q.key = p.key)) ∘
    stampRow conn now (reports upper broker db.catalog l)) = fun q => decide (q.key = p.key) by
      funext q; simp, filter_key_eq_singleton db.uq_positions hp]
  simp [hstamp]

/-- The closing loop turns the table of the upsert loop into the reconciled one. -/
theorem closeMissing_loopAfter (db : Database) (cat' : Catalog) (l : List NormalizedPosition) :
    (existingInstruments conn db.toSession).foldl
        (closeMissing conn now (loopAfter upper conn broker now db cat' l).seen)
        ((loopAfter upper conn broker now db cat' l).session.positions, 0) =
      (db.positions.map (reconcileRow conn now (reports upper broker db.catalog l)) ++
        newRows conn now (existingInstruments conn db.toSession) (reports upper broker db.catalog l),
        (closedRows upper conn broker db l).length) := by
  have hL : ∀ p ∈ db.positions.filter (fun p => p.brokerConnectionId = conn),
      p ∈ db.positions ∧ p.brokerConnectionId = conn := fun p hp => by simpa using hp
  have hkey : ∀ q ∈ db.positions,
      (q.key ∈ (db.positions.filter fun p => p.brokerConnectionId = conn).map Position.key ↔
        q.brokerConnectionId = conn) := by
    intro q hq
    constructor
    · intro h
      obtain ⟨p, hp, hpq⟩ := List.mem_map.mp h
      rw [← (Prod.mk.inj hpq).1]; exact (hL p hp).2
    · intro h
      exact List.mem_map_of_mem (List.mem_filter.mpr ⟨hq, by simpa using h⟩)
  unfold existingInstruments
  rw [closeMissing_foldl _ _ _ _ (db.uq_positions.sublist (List.filter_sublist.map _))
    (fun p hp => (hL p hp).2)
    (fun p hp hseen => filter_loopAfter_of_not_seen (hL p hp).1 (hL p hp).2 hseen)]
  congr 1
  · simp only [loopAfter, List.map_append, List.map_map]
    congr 1
    · apply List.map_congr_left
      intro q hq
      simp only [Function.comp_apply, stampRow_key, hkey q hq]
      unfold stampRow reconcileRow
      by_cases hc : q.brokerConnectionId = conn
      · rw [if_pos hc, if_pos hc]
        cases hlast : lastFor (reports upper broker db.catalog l) q.instrumentId with
        | none =>
          rw [lastFor_eq_none] at hlast
          rw [if_pos ⟨hc, by simpa using hlast⟩]
        | some bp =>
          have hmem : q.instrumentId ∈ (reports upper broker db.catalog l).map Prod.fst :=
            List.mem_map_of_mem (f := Prod.fst) (mem_of_lastFor hlast)
          exact if_neg fun h => h.2 (List.mem_reverse.mpr hmem)
      · rw [if_neg hc, if_neg hc, if_neg fun h => hc h.1]
    · conv_rhs => rw [← List.map_id (newRows _ _ _ _)]
      apply List.map_congr_left
      intro q hq
      obtain ⟨r, hr, rfl⟩ := List.mem_map.mp hq
      have hmem : r.1 ∈ (reports upper broker db.catalog l).map Prod.fst :=
        List.mem_map_of_mem (List.mem_filter.mp hr).1
      exact if_neg fun h => h.2 (List.mem_reverse.mpr hmem)
  · rw [Nat.zero_add, List.filter_filter]
    congr 1
    apply List.filter_congr
    intro p _
    simp only [loopAfter, List.mem_reverse, Bool.decide_and]
    grind

/-- `_sync_positions` on rows none of which is ambiguous, when the upsert loop ends. -/
theorem syncPositions_of_loop
    (h : l.foldlM (positionStep upper conn broker now (existingInstruments conn db.toSession))
        ⟨db.toSession, [], 0, 0, []⟩ = .ok (loopAfter upper conn broker now db cat' l)) :
    syncPositions upper conn broker now db l =
      (reconciledSession upper conn broker now db cat' l).flush.map fun db' =>
        (db', positionsResult upper conn broker db l) := by
  simp only [syncPositions, h, bind, Except.bind, closeMissing_loopAfter]
  have hs : ({ (loopAfter upper conn broker now db cat' l).session with
      positions := db.positions.map (reconcileRow conn now (reports upper broker db.catalog l)) ++
        newRows conn now (existingInstruments conn db.toSession)
          (reports upper broker db.catalog l) } : Session) =
      reconciledSession upper conn broker now db cat' l := rfl
  rw [hs]
  cases (reconciledSession upper conn broker now db cat' l).flush <;> rfl

theorem reconciledSession_keys :
    (reconciledSession upper conn broker now db cat' l).positions.map Position.key =
      db.positions.map Position.key ++
        (newInstruments upper conn broker db l).map fun i => (conn, i) := by
  simp [reconciledSession, newInstruments, newRows, Function.comp_def]

variable (upper conn broker now) in
/-- How a call of `_sync_positions` ends. -/
theorem syncPositions_cases (db : Database) (l : List NormalizedPosition) :
    ((∀ bp ∈ l, ¬ AmbiguousPosition upper broker db.catalog bp) ∧
      (newInstruments upper conn broker db l).Nodup ∧
      ∃ db', syncPositions upper conn broker now db l =
          .ok (db', positionsResult upper conn broker db l) ∧
        PositionsSynced upper conn broker now db l db') ∨
    (¬ (newInstruments upper conn broker db l).Nodup ∧
      syncPositions upper conn broker now db l =
        .error (.integrityError .positionsConnInstrument)) ∨
    ((∃ bp ∈ l, AmbiguousPosition upper broker db.catalog bp) ∧
      syncPositions upper conn broker now db l = .error .multipleResultsFound) := by
  rcases positionLoop_spec upper conn broker now db l with
    ⟨cat', hsame, hamb, hl⟩ | ⟨hdup, hl⟩ | ⟨⟨bp, hbp, hamb⟩, hl⟩
  · by_cases hnd : (newInstruments upper conn broker db l).Nodup
    · have hkeys : ((reconciledSession upper conn broker now db cat' l).positions.map
          Position.key).Nodup := by
        rw [reconciledSession_keys]; exact tableKeys_nodup_iff.mpr hnd
      refine .inl ⟨hamb, hnd, ⟨_, hkeys, db.uq_orders⟩, ?_, ⟨⟨rfl, hsame⟩, rfl, rfl⟩⟩
      rw [syncPositions_of_loop hl, Session.flush_eq_ok hkeys db.uq_orders]
      rfl
    · have hkeys : ¬ ((reconciledSession upper conn broker now db cat' l).positions.map
          Position.key).Nodup := by
        rw [reconciledSession_keys]; exact fun hn => hnd (tableKeys_nodup_iff.mp hn)
      refine .inr (.inl ⟨hnd, ?_⟩)
      rw [syncPositions_of_loop hl, Session.flush_of_positions_dup hkeys]
      rfl
  · exact .inr (.inl ⟨hdup, by simp only [syncPositions, hl, bind, Except.bind]⟩)
  · exact .inr (.inr ⟨⟨bp, hbp, not_not.mp hamb⟩, by
      simp only [syncPositions, hl, bind, Except.bind]⟩)

variable (conn now) in
/-- `_sync_positions` returns when no row is ambiguous and no two new rows are for
    one instrument. -/
theorem syncPositions_of_nodup (hamb : ∀ bp ∈ l, ¬ AmbiguousPosition upper broker db.catalog bp)
    (hnd : (newInstruments upper conn broker db l).Nodup) :
    ∃ db', syncPositions upper conn broker now db l =
        .ok (db', positionsResult upper conn broker db l) ∧
      PositionsSynced upper conn broker now db l db' := by
  rcases syncPositions_cases upper conn broker now db l with
    ⟨-, -, h⟩ | ⟨hdup, -⟩ | ⟨⟨bp, hbp, hb⟩, -⟩
  · exact h
  · exact absurd hnd hdup
  · exact absurd hb (hamb bp hbp)

/-- What a call that returns has found and done. -/
theorem syncPositions_eq_ok {db' : Database} {res : PositionsResult}
    (h : syncPositions upper conn broker now db l = .ok (db', res)) :
    (∀ bp ∈ l, ¬ AmbiguousPosition upper broker db.catalog bp) ∧
      (newInstruments upper conn broker db l).Nodup ∧
      res = positionsResult upper conn broker db l ∧
      PositionsSynced upper conn broker now db l db' := by
  rcases syncPositions_cases upper conn broker now db l with
    ⟨hamb, hnd, db'', h', hsync⟩ | ⟨-, h'⟩ | ⟨-, h'⟩
  · rw [h'] at h; cases h
    exact ⟨hamb, hnd, rfl, hsync⟩
  · rw [h'] at h; cases h
  · rw [h'] at h; cases h

end Nivara.Portfolio
