import Nivara.Portfolio.Catalog

/-!
# The session and the database

The tables a sync writes (`models/positions.py`, `models/orders.py`), the
SQLAlchemy session that holds rows before they are flushed, and
`SymbolMappingService.normalize_symbol`, which flushes when it persists a
mapping.

* A `Session` is what the code sees: its rows may violate a constraint.
* A `Database` carries the unique constraints as fields. `Session.flush` is the
  only way from one to the other, and raises when a constraint is violated.
* A `SELECT` without `ORDER BY` returns the rows in the order of the table.
* Money and quantity columns hold exact rationals: `Numeric(20, 8)` is read as a
  column wide enough for the values it is given. An instant is a number of
  microseconds since the epoch.

Results:

* `Session.flush_eq_ok`, `Session.flush_of_positions_dup`,
  `Session.flush_of_orders_dup`: when a flush returns.
* `normalizeSymbol_of_ok`: `normalize_symbol` returns the instrument of the lookup,
  changes nothing but the mappings, and no later lookup.
-/

namespace Nivara.Portfolio

/-- A UTC instant in microseconds. -/
abbrev Instant := ℤ

/-! ## Rows -/

/-- `Position` (`models/positions.py`). -/
structure Position where
  brokerConnectionId : UUID
  instrumentId : UUID
  quantity : ℚ
  avgCost : ℚ
  currency : String
  asOf : Instant
  deriving DecidableEq, Repr

/-- The columns of `uq_positions_conn_instrument`. -/
def Position.key (p : Position) : UUID × UUID := (p.brokerConnectionId, p.instrumentId)

/-- `OrderSideEnum`. -/
inductive OrderSide
  | buy
  | sell
  deriving DecidableEq, Repr

/-- `OrderTypeEnum` of the `orders` table. -/
inductive DbOrderType
  | market
  | limit
  deriving DecidableEq, Repr

/-- `OrderStatusEnum` of the `orders` table; `partiallyFilled` is its `"partial"`. -/
inductive DbOrderStatus
  | pending
  | submitted
  | filled
  | partiallyFilled
  | cancelled
  | rejected
  deriving DecidableEq, Repr

/-- `Order` (`models/orders.py`). `_sync_orders` is the only code that builds one,
    so the row carries the two facts that hold of what it writes: `broker_order_id`
    is a string, and the key is `f"{connection.id}:{instrument.id}:{broker_order_id}"`. -/
structure Order where
  brokerConnectionId : UUID
  instrumentId : UUID
  side : OrderSide
  orderType : DbOrderType
  quantity : ℚ
  limitPrice : Option ℚ
  status : DbOrderStatus
  brokerOrderId : String
  idempotencyKey : String
  key_eq : idempotencyKey = colonKey brokerConnectionId instrumentId brokerOrderId
  deriving DecidableEq, Repr

/-- The `event_data` of a `portfolio.sync` audit row (`sync_connection`, lines
    140-150), with the user it is recorded for. -/
structure SyncAudit where
  userId : UUID
  brokerConnectionId : UUID
  broker : Broker
  positionsUpserted : ℕ
  positionsClosed : ℕ
  positionsSkipped : ℕ
  ordersUpserted : ℕ
  warnings : List String
  syncedAt : Instant
  deriving DecidableEq, Repr

/-! ## Session and database -/

/-- The rows the session sees: those of the transaction and those added to it. -/
structure Session where
  catalog : Catalog
  positions : List Position
  orders : List Order
  auditLog : List SyncAudit

/-- The tables, with their unique constraints. -/
structure Database extends Session where
  uq_positions : (positions.map Position.key).Nodup
  uq_orders : (orders.map Order.idempotencyKey).Nodup

/-- What a service call can raise. -/
inductive SyncError
  /-- `SymbolNotMappedError(message)`. -/
  | symbolNotMapped (message : String)
  /-- `sqlalchemy.exc.MultipleResultsFound`. -/
  | multipleResultsFound
  /-- `sqlalchemy.exc.IntegrityError`. -/
  | integrityError (constraint : Catalog.Constraint)
  /-- An exception of the broker adapter that is not a `BrokerAPIError`. -/
  | adapterFailure (message : String)
  deriving DecidableEq, Repr

/-- A failed lookup, as `normalize_symbol` raises it. -/
def ResolveError.toSync : ResolveError → SyncError
  | .symbolNotMapped message => .symbolNotMapped message
  | .multipleResultsFound => .multipleResultsFound

/-- `session.flush()`: sends the pending rows to the database. -/
def Session.flush (s : Session) : Except SyncError Database :=
  if hp : (s.positions.map Position.key).Nodup then
    if ho : (s.orders.map Order.idempotencyKey).Nodup then .ok ⟨s, hp, ho⟩
    else .error (.integrityError .ordersIdempotencyKey)
  else .error (.integrityError .positionsConnInstrument)

theorem Session.flush_eq_ok {s : Session} (hp : (s.positions.map Position.key).Nodup)
    (ho : (s.orders.map Order.idempotencyKey).Nodup) : s.flush = .ok ⟨s, hp, ho⟩ := by
  unfold Session.flush
  rw [dif_pos hp, dif_pos ho]

theorem Session.flush_of_positions_dup {s : Session}
    (hp : ¬ (s.positions.map Position.key).Nodup) :
    s.flush = .error (.integrityError .positionsConnInstrument) := by
  unfold Session.flush; rw [dif_neg hp]

theorem Session.flush_of_orders_dup {s : Session} (hp : (s.positions.map Position.key).Nodup)
    (ho : ¬ (s.orders.map Order.idempotencyKey).Nodup) :
    s.flush = .error (.integrityError .ordersIdempotencyKey) := by
  unfold Session.flush; rw [dif_pos hp, dif_neg ho]

/-! ## A small database -/

/-- One listing of `AAPL`, two of `SHEL`. -/
def sampleCatalog : Catalog where
  instruments := [⟨1, "AAPL", "NASDAQ"⟩, ⟨2, "SHEL", "NYSE"⟩, ⟨3, "SHEL", "LSE"⟩]
  mappings := []
  ids_nodup := by decide
  uq_symbol_exchange := by decide
  uq_mappings := by decide
  mapping_fk := by decide

/-- No position, no order. -/
def sampleDatabase : Database where
  catalog := sampleCatalog
  positions := []
  orders := []
  auditLog := []
  uq_positions := List.nodup_nil
  uq_orders := List.nodup_nil

/-- Ten shares of `AAPL` on connection 7. -/
def sampleHolding : Database where
  catalog := sampleCatalog
  positions := [⟨7, 1, 10, 100, "USD", 0⟩]
  orders := []
  auditLog := []
  uq_positions := List.nodup_singleton _
  uq_orders := List.nodup_nil

/-! ## `normalize_symbol` -/

section Normalize

variable (upper : String → String)

/-- `SymbolMappingService._create_mapping` on PostgreSQL (lines 132-156): the insert
    and a flush. -/
def createMapping (s : Session) (m : SymbolMapping) : Except SyncError Session :=
  match s.catalog.insertMapping m with
  | .error c => .error (.integrityError c)
  | .ok cat => ({ s with catalog := cat }.flush).map Database.toSession

/-- `SymbolMappingService.normalize_symbol` (lines 57-113). -/
def normalizeSymbol (s : Session) (broker : Broker) (brokerSymbol : String)
    (brokerExchange : Option String) : Except SyncError (Instrument × Session) :=
  let k := lookupKey upper broker brokerSymbol brokerExchange
  match s.catalog.resolve upper k with
  | .error e => .error e.toSync
  | .ok (.mapped inst) => .ok (inst, s)
  | .ok (.inferred candidate) =>
    (createMapping s (k.mapping candidate.id)).map fun s => (candidate, s)

/-- The instrument the catalog has for a broker's symbol. -/
def Catalog.lookup (cat : Catalog) (broker : Broker) (brokerSymbol : String)
    (brokerExchange : Option String) : Except ResolveError Instrument :=
  cat.find upper (lookupKey upper broker brokerSymbol brokerExchange)

end Normalize

variable {upper : String → String} {s : Session} {broker : Broker} {sym : String}
  {exch : Option String}

theorem normalizeSymbol_of_error {e : ResolveError}
    (h : s.catalog.lookup upper broker sym exch = .error e) :
    normalizeSymbol upper s broker sym exch = .error e.toSync := by
  unfold Catalog.lookup Catalog.find at h
  cases hr : s.catalog.resolve upper (lookupKey upper broker sym exch) with
  | error e' =>
    rw [hr] at h
    cases h
    simp only [normalizeSymbol, hr]
  | ok r => rw [hr] at h; cases h

/-- Persisting an inferred mapping flushes the session. -/
theorem createMapping_of_inferred {k : LookupKey} {i : Instrument}
    (h : s.catalog.resolve upper k = .ok (.inferred i)) :
    (∃ cat', Catalog.SameLookups upper s.catalog cat' ∧
      createMapping s (k.mapping i.id) = .ok { s with catalog := cat' }) ∨
    (∃ e, s.flush = .error e ∧ createMapping s (k.mapping i.id) = .error e) := by
  obtain ⟨cat', hins, hsame⟩ := Catalog.find_insertMapping h
  by_cases hp : (s.positions.map Position.key).Nodup
  · by_cases ho : (s.orders.map Order.idempotencyKey).Nodup
    · refine .inl ⟨cat', hsame, ?_⟩
      simp only [createMapping, hins, Session.flush_eq_ok (s := { s with catalog := cat' }) hp ho]
      rfl
    · refine .inr ⟨_, Session.flush_of_orders_dup hp ho, ?_⟩
      simp only [createMapping, hins,
        Session.flush_of_orders_dup (s := { s with catalog := cat' }) hp ho]
      rfl
  · refine .inr ⟨_, Session.flush_of_positions_dup hp, ?_⟩
    simp only [createMapping, hins, Session.flush_of_positions_dup (s := { s with catalog := cat' }) hp]
    rfl

/-- A symbol that resolves is answered with its instrument, unless persisting its
    mapping flushes rows that violate a constraint. The answer comes with a catalog
    that has the same lookups. -/
theorem normalizeSymbol_of_ok {i : Instrument} (h : s.catalog.lookup upper broker sym exch = .ok i) :
    (∃ cat', Catalog.SameLookups upper s.catalog cat' ∧
      normalizeSymbol upper s broker sym exch = .ok (i, { s with catalog := cat' })) ∨
    (∃ e, s.flush = .error e ∧ normalizeSymbol upper s broker sym exch = .error e) := by
  unfold Catalog.lookup Catalog.find at h
  cases hr : s.catalog.resolve upper (lookupKey upper broker sym exch) with
  | error e' => rw [hr] at h; cases h
  | ok r =>
    rw [hr] at h
    cases r with
    | mapped j =>
      cases h
      exact .inl ⟨s.catalog, .refl _, by simp only [normalizeSymbol, hr]; rfl⟩
    | inferred j =>
      cases h
      rcases createMapping_of_inferred hr with ⟨cat', hsame, hc⟩ | ⟨e, he, hc⟩
      · exact .inl ⟨cat', hsame, by simp only [normalizeSymbol, hr, hc]; rfl⟩
      · exact .inr ⟨e, he, by simp only [normalizeSymbol, hr, hc]; rfl⟩

/-- With nothing pending that a flush could refuse, `normalize_symbol` returns what the
    lookup answers. -/
theorem normalizeSymbol_ok_iff {db : Database} {i : Instrument} :
    (∃ s, normalizeSymbol upper db.toSession broker sym exch = .ok (i, s)) ↔
      db.catalog.lookup upper broker sym exch = .ok i := by
  cases hlook : db.catalog.lookup upper broker sym exch with
  | error e =>
    rw [normalizeSymbol_of_error hlook]
    simp
  | ok j =>
    rcases normalizeSymbol_of_ok hlook with ⟨cat', -, hj⟩ | ⟨e, he, -⟩
    · rw [hj]
      simp
    · rw [Session.flush_eq_ok db.uq_positions db.uq_orders] at he
      cases he

/-! ## The rows of a response -/

section Rows

variable {β : Type} (look : β → Except ResolveError Instrument)

/-- The rows of a response that resolve, with their instrument, in the broker's order. -/
def resolved (l : List β) : List (UUID × β) :=
  l.filterMap fun b =>
    match look b with
    | .ok i => some (i.id, b)
    | .error _ => none

/-- The rows of a response that are skipped, with the text of the exception. -/
def unmapped (l : List β) : List (β × String) :=
  l.filterMap fun b =>
    match look b with
    | .error (.symbolNotMapped message) => some (b, message)
    | _ => none

variable {look} {l : List β} {b : β}

@[simp] theorem resolved_nil : resolved look [] = [] := rfl

@[simp] theorem unmapped_nil : unmapped look [] = [] := rfl

theorem resolved_append : resolved look (l ++ [b]) = resolved look l ++
    match look b with
    | .ok i => [(i.id, b)]
    | .error _ => [] := by
  unfold resolved
  rw [List.filterMap_append, List.filterMap_cons, List.filterMap_nil]
  cases look b <;> rfl

theorem unmapped_append : unmapped look (l ++ [b]) = unmapped look l ++
    match look b with
    | .error (.symbolNotMapped message) => [(b, message)]
    | _ => [] := by
  unfold unmapped
  rw [List.filterMap_append, List.filterMap_cons, List.filterMap_nil]
  rcases look b with (_ | _) | _ <;> rfl

theorem mem_resolved {id : UUID} :
    (id, b) ∈ resolved look l ↔ b ∈ l ∧ ∃ i, look b = .ok i ∧ i.id = id := by
  unfold resolved
  rw [List.mem_filterMap]
  constructor
  · rintro ⟨a, ha, h⟩
    cases hr : look a with
    | error e => rw [hr] at h; cases h
    | ok i => rw [hr] at h; cases h; exact ⟨ha, i, hr, rfl⟩
  · rintro ⟨hb, i, hr, rfl⟩
    exact ⟨b, hb, by rw [hr]⟩

variable (look) in
/-- The rows that resolve are rows of the response, in its order. -/
theorem map_snd_resolved_sublist (l : List β) : ((resolved look l).map Prod.snd).Sublist l := by
  induction l with
  | nil => exact List.Sublist.refl _
  | cons b l ih =>
    unfold resolved at ih ⊢
    rw [List.filterMap_cons]
    cases look b with
    | error e => exact ih.cons b
    | ok i => exact ih.cons_cons b

/-- Without an ambiguous row every row resolves or is skipped. -/
theorem length_resolved_add_length_unmapped (h : ∀ b ∈ l, look b ≠ .error .multipleResultsFound) :
    (resolved look l).length + (unmapped look l).length = l.length := by
  induction l with
  | nil => rfl
  | cons b l ih =>
    have ih := ih fun a ha => h a (List.mem_cons_of_mem _ ha)
    have hb := h b (by simp)
    unfold resolved unmapped at ih ⊢
    rw [List.filterMap_cons, List.filterMap_cons, List.length_cons]
    rcases hr : look b with (message | _) | i
    · simp only [List.length_cons]; omega
    · exact absurd hr hb
    · simp only [List.length_cons]; omega

theorem resolved_congr {look' : β → Except ResolveError Instrument} (h : ∀ b, look' b = look b)
    (l : List β) : resolved look' l = resolved look l := by
  rw [funext h]

end Rows

end Nivara.Portfolio
