import Nivara.Portfolio.SyncOrders
import Nivara.Portfolio.Reconciliation

/-!
# `sync_connection`

One sync of a broker connection (`services/portfolio_sync.py`, lines 93-163): fetch
the positions, reconcile them, fetch the orders, upsert them, write the audit row.
A `BrokerAPIError` of a fetch is turned into a warning and an empty list; every
other exception leaves the function, and the endpoint rolls the transaction back.

Results:

* `syncConnection_ok_iff`, `syncConnection_eq_ok`: when the call returns, and what
  it has done.
* `sync_of_failed_fetch_keeps_iff`: when a failed fetch of the positions leaves the
  stored positions alone.
-/

namespace Nivara.Portfolio

open Keyed Loop Reconcile

/-! ## Model -/

/-- `BrokerErrorCode` (`brokers/errors.py`). -/
inductive BrokerErrorCode
  | authExpired
  | rateLimited
  | instrumentUnknown
  | upstreamDown
  | networkTimeout
  deriving DecidableEq, Repr

/-- The code's value. -/
def BrokerErrorCode.value : BrokerErrorCode → String
  | .authExpired => "AUTH_EXPIRED"
  | .rateLimited => "RATE_LIMITED"
  | .instrumentUnknown => "INSTRUMENT_UNKNOWN"
  | .upstreamDown => "UPSTREAM_DOWN"
  | .networkTimeout => "NETWORK_TIMEOUT"

/-- What a call of the broker adapter can raise. -/
inductive FetchError
  /-- `BrokerAPIError(code, message)`. -/
  | brokerApi (code : BrokerErrorCode) (message : String)
  /-- Any other exception. -/
  | other (message : String)
  deriving DecidableEq, Repr

/-- How the two calls of the adapter end. -/
structure Fetch where
  getPositions : Except FetchError (List NormalizedPosition)
  getOrders : Except FetchError (List NormalizedOrder)

/-- `SyncSummary`. -/
structure SyncSummary where
  brokerConnectionId : UUID
  syncedAt : Instant
  positionsUpserted : ℕ
  positionsClosed : ℕ
  ordersUpserted : ℕ
  positionsSkipped : ℕ
  warnings : List String
  deriving DecidableEq, Repr

/-- The rows `sync_connection` goes on with, and its warning (lines 109-114,
    126-131). -/
def fetched {β : Type} (label : String) :
    Except FetchError (List β) → Except SyncError (List β × List String)
  | .ok rows => .ok (rows, [])
  | .error (.brokerApi code message) => .ok ([], [s!"{label}: [{code.value}] {message}"])
  | .error (.other message) => .error (.adapterFailure message)

/-- `AuditService.record`: no constraint of the table concerns the row. -/
def Database.record (db : Database) (entry : SyncAudit) : Database :=
  { db with auditLog := db.auditLog ++ [entry] }

section Model

variable (upper : String → String) (userId conn : UUID) (broker : Broker) (now : Instant)

/-- `PortfolioSyncService.sync_connection`. -/
def syncConnection (db : Database) (fetch : Fetch) : Except SyncError (Database × SyncSummary) := do
  let (brokerPositions, fetchWarnings) ← fetched "positions_fetch_failed" fetch.getPositions
  let (db, p) ← syncPositions upper conn broker now db brokerPositions
  let (brokerOrders, orderFetchWarnings) ← fetched "orders_fetch_failed" fetch.getOrders
  let (db, o) ← syncOrders upper conn broker db brokerOrders
  let warnings := fetchWarnings ++ p.warnings ++ orderFetchWarnings ++ o.warnings
  return (db.record
      { userId := userId
        brokerConnectionId := conn
        broker := broker
        positionsUpserted := p.upserted
        positionsClosed := p.closed
        positionsSkipped := p.skipped
        ordersUpserted := o.upserted
        warnings := warnings
        syncedAt := now },
    { brokerConnectionId := conn
      syncedAt := now
      positionsUpserted := p.upserted
      positionsClosed := p.closed
      ordersUpserted := o.upserted
      positionsSkipped := p.skipped
      warnings := warnings })

/-- The database after the request: committed when the call returned, rolled back
    when it raised (`api/portfolio.py`, lines 217-243). -/
def afterSync (db : Database) (fetch : Fetch) : Database :=
  match syncConnection upper userId conn broker now db fetch with
  | .ok (db', _) => db'
  | .error _ => db

/-- The rows a fetch hands on; `none` when its exception leaves the function. -/
def rowsOf {β : Type} : Except FetchError (List β) → Option (List β)
  | .ok rows => some rows
  | .error (.brokerApi _ _) => some []
  | .error (.other _) => none

/-- The order half of the sync returns. -/
def OrdersAccepted (db : Database) (getOrders : Except FetchError (List NormalizedOrder)) : Prop :=
  ∃ l, rowsOf getOrders = some l ∧ (∀ bo ∈ l, ¬ AmbiguousOrder upper broker db.catalog bo) ∧
    FreshOrderKeys upper conn broker db l

/-- The position half of the sync returns. -/
def PositionsAccepted (db : Database)
    (getPositions : Except FetchError (List NormalizedPosition)) : Prop :=
  ∃ l, rowsOf getPositions = some l ∧
    (∀ bp ∈ l, ¬ AmbiguousPosition upper broker db.catalog bp) ∧
    (newInstruments upper conn broker db l).Nodup

/-- What a sync that returns has made of the database: the two halves, one after the
    other, and one more audit row. -/
inductive Synced (db : Database) (ps : List NormalizedPosition) (os : List NormalizedOrder) :
    Database → Prop
  | intro {db₁ db₂ : Database} (entry : SyncAudit)
      (positions : PositionsSynced upper conn broker now db ps db₁)
      (orders : OrdersSynced upper conn broker db₁ os db₂) : Synced db ps os (db₂.record entry)

end Model

variable {upper : String → String} {userId conn : UUID} {broker : Broker} {now : Instant}
  {db db' : Database} {fetch : Fetch} {ps : List NormalizedPosition} {os : List NormalizedOrder}

/-! ## When a sync returns -/

theorem fetched_of_rowsOf {β : Type} (label : String) {r : Except FetchError (List β)} {l : List β}
    (h : rowsOf r = some l) : ∃ w, fetched label r = .ok (l, w) := by
  rcases r with (_ | _) | rows <;> cases h <;> exact ⟨_, rfl⟩

theorem rowsOf_of_fetched {β : Type} {label : String} {r : Except FetchError (List β)} {l : List β}
    {w : List String} (h : fetched label r = .ok (l, w)) : rowsOf r = some l := by
  rcases r with (_ | _) | rows <;> cases h <;> rfl

theorem PositionsSynced.orderLookup (h : PositionsSynced upper conn broker now db ps db') :
    orderLookup upper broker db'.catalog = orderLookup upper broker db.catalog :=
  funext fun _ => h.lookups.find _

theorem PositionsSynced.byBrokerId (h : PositionsSynced upper conn broker now db ps db') :
    byBrokerId conn db'.toSession = byBrokerId conn db.toSession := by
  unfold Portfolio.byBrokerId; rw [h.orders]

theorem PositionsSynced.orderReports (h : PositionsSynced upper conn broker now db ps db') :
    orderReports upper broker db'.catalog os = orderReports upper broker db.catalog os := by
  unfold Portfolio.orderReports; rw [h.orderLookup]

theorem PositionsSynced.newOrderRows (h : PositionsSynced upper conn broker now db ps db') :
    newOrderRows upper conn broker db' os = newOrderRows upper conn broker db os := by
  unfold Portfolio.newOrderRows; rw [h.orderReports, h.byBrokerId]

/-- The position half decides nothing about the order half. -/
theorem PositionsSynced.ordersAccepted_iff (h : PositionsSynced upper conn broker now db ps db')
    {r : Except FetchError (List NormalizedOrder)} :
    OrdersAccepted upper conn broker db' r ↔ OrdersAccepted upper conn broker db r := by
  unfold OrdersAccepted AmbiguousOrder FreshOrderKeys newOrderKeys
  simp only [h.orderLookup, h.newOrderRows, h.orders]

/-- The calls a sync that returns has gone through. -/
theorem of_syncConnection_eq_ok {sum : SyncSummary}
    (h : syncConnection upper userId conn broker now db fetch = .ok (db', sum)) :
    ∃ ps os db₁ db₂ p o entry, rowsOf fetch.getPositions = some ps ∧ rowsOf fetch.getOrders = some os ∧
      syncPositions upper conn broker now db ps = .ok (db₁, p) ∧
      syncOrders upper conn broker db₁ os = .ok (db₂, o) ∧ db' = db₂.record entry ∧
      sum.positionsClosed = p.closed := by
  unfold syncConnection at h
  obtain ⟨⟨ps, w⟩, hf, h⟩ := of_bind_eq_ok h
  obtain ⟨⟨db₁, p⟩, hp, h⟩ := of_bind_eq_ok h
  obtain ⟨⟨os, w'⟩, hg, h⟩ := of_bind_eq_ok h
  obtain ⟨⟨db₂, o⟩, ho, h⟩ := of_bind_eq_ok h
  cases h
  exact ⟨ps, os, db₁, db₂, p, o, _, rowsOf_of_fetched hf, rowsOf_of_fetched hg, hp, ho, rfl, rfl⟩

/-- What a sync that returns has done. -/
theorem syncConnection_eq_ok {sum : SyncSummary}
    (h : syncConnection upper userId conn broker now db fetch = .ok (db', sum)) :
    ∃ ps os, rowsOf fetch.getPositions = some ps ∧ rowsOf fetch.getOrders = some os ∧
      Synced upper conn broker now db ps os db' ∧
      sum.positionsClosed = (closedRows upper conn broker db ps).length := by
  obtain ⟨ps, os, db₁, db₂, p, o, entry, hps, hos, hp, ho, rfl, hsum⟩ := of_syncConnection_eq_ok h
  obtain ⟨-, -, rfl, hsp⟩ := syncPositions_eq_ok hp
  obtain ⟨-, -, -, hso⟩ := syncOrders_eq_ok ho
  exact ⟨ps, os, hps, hos, .intro entry hsp hso, hsum⟩

variable (userId now fetch) in
/-- When a sync returns. -/
theorem syncConnection_ok_iff :
    (∃ r, syncConnection upper userId conn broker now db fetch = .ok r) ↔
      PositionsAccepted upper conn broker db fetch.getPositions ∧
        OrdersAccepted upper conn broker db fetch.getOrders := by
  constructor
  · rintro ⟨⟨db', sum⟩, h⟩
    obtain ⟨ps, os, db₁, db₂, p, o, entry, hps, hos, hp, ho, -, -⟩ := of_syncConnection_eq_ok h
    obtain ⟨hamb, hnd, -, hsync⟩ := syncPositions_eq_ok hp
    obtain ⟨hambo, hfresh, -, -⟩ := syncOrders_eq_ok ho
    exact ⟨⟨ps, hps, hamb, hnd⟩, hsync.ordersAccepted_iff.mp ⟨os, hos, hambo, hfresh⟩⟩
  · rintro ⟨⟨ps, hps, hamb, hnd⟩, hord⟩
    obtain ⟨w, hf⟩ := fetched_of_rowsOf "positions_fetch_failed" hps
    obtain ⟨db₁, hp, hsync⟩ := syncPositions_of_nodup conn now hamb hnd
    obtain ⟨os, hos, hambo, hfresh⟩ := hsync.ordersAccepted_iff.mpr hord
    obtain ⟨w', hg⟩ := fetched_of_rowsOf "orders_fetch_failed" hos
    obtain ⟨db₂, ho, -⟩ := syncOrders_of_fresh hambo hfresh
    unfold syncConnection
    rw [hf]
    simp only [bind, Except.bind, hp, hg, ho]
    exact ⟨_, rfl⟩

/-- A sync raises `IntegrityError` for a key when a new order has one that exists. -/
theorem of_syncConnection_eq_integrityError
    (h : syncConnection upper userId conn broker now db fetch =
      .error (.integrityError .ordersIdempotencyKey)) :
    ∃ os, rowsOf fetch.getOrders = some os ∧ ¬ FreshOrderKeys upper conn broker db os := by
  have hfetch : ∀ {β : Type} (label : String) (r : Except FetchError (List β)) (c : Catalog.Constraint),
      fetched label r ≠ .error (.integrityError c) := by
    rintro β label ((_ | _) | rows) c h <;> cases h
  unfold syncConnection at h
  rcases of_bind_eq_error h with h | ⟨⟨ps, w⟩, hf, h⟩
  · exact absurd h (hfetch _ _ _)
  rcases of_bind_eq_error h with h | ⟨⟨db₁, p⟩, hp, h⟩
  · rcases syncPositions_cases upper conn broker now db ps with ⟨-, -, db', h', -⟩ | ⟨-, h'⟩ | ⟨-, h'⟩
    all_goals rw [h'] at h; cases h
  rcases of_bind_eq_error h with h | ⟨⟨os, w'⟩, hg, h⟩
  · exact absurd h (hfetch _ _ _)
  rcases of_bind_eq_error h with h | ⟨⟨db₂, o⟩, ho, h⟩
  · obtain ⟨-, -, -, hsync⟩ := syncPositions_eq_ok hp
    refine ⟨os, rowsOf_of_fetched hg, ?_⟩
    rcases syncOrders_cases upper conn broker db₁ os with ⟨-, -, db', h', -⟩ | ⟨hdup, -⟩ | ⟨-, h'⟩
    · rw [h'] at h; cases h
    · unfold FreshOrderKeys newOrderKeys at hdup ⊢
      rwa [hsync.newOrderRows, hsync.orders] at hdup
    · rw [h'] at h; cases h
  · cases h

namespace Synced

variable (h : Synced upper conn broker now db ps os db')

include h

/-- The positions are those the position half has left. -/
theorem reconciled : PositionsReconciled upper conn broker now db ps db' := by
  obtain ⟨entry, hp, ho⟩ := h
  exact ⟨ho.positions.trans hp.positions, hp.lookups.trans ho.lookups⟩

/-- The orders are those the order half would have left. -/
theorem orders_eq : db'.orders =
    db.orders.map (stampOrder (byBrokerId conn db.toSession)
      (orderReports upper broker db.catalog os)) ++
    newOrders conn (byBrokerId conn db.toSession) (orderReports upper broker db.catalog os) := by
  obtain ⟨entry, hp, ho⟩ := h
  have hrecord : ∀ d : Database, (d.record entry).orders = d.orders := fun _ => rfl
  rw [hrecord, ho.orders, hp.orders, hp.byBrokerId, hp.orderReports]

end Synced

/-! ## A failed fetch of the positions -/

/-- The stored row has the values it had. -/
def KeptIn (rows : List Position) (p : Position) : Prop :=
  ∃ p' ∈ rows, p'.key = p.key ∧ p'.quantity = p.quantity ∧ p'.avgCost = p.avgCost ∧
    p'.currency = p.currency ∧ p'.asOf = p.asOf

theorem keptIn_of_mem {rows : List Position} {p : Position} (hp : p ∈ rows) : KeptIn rows p :=
  ⟨p, hp, rfl, rfl, rfl, rfl, rfl⟩

/-- After a response without a row, a stored row of the connection has its values when
    it was closed at this very instant. -/
theorem PositionsReconciled.keptIn_iff (h : PositionsReconciled upper conn broker now db [] db')
    {p : Position} (hp : p ∈ db.positions) (hc : p.brokerConnectionId = conn) :
    KeptIn db'.positions p ↔ p.quantity = 0 ∧ p.asOf = now := by
  have hmem : closeRow now p ∈ db'.positions :=
    h.mem_of_not_reported hp hc (by simp [reports])
  constructor
  · rintro ⟨p', hp', hk, hq, -, -, ht⟩
    have heq : p' = closeRow now p :=
      List.inj_on_of_nodup_map db'.uq_positions hp' hmem (hk.trans (closeRow_key p).symm)
    rw [heq] at hq ht
    exact ⟨hq.symm, ht.symm⟩
  · rintro ⟨hq, ht⟩
    exact ⟨closeRow now p, hmem, rfl, hq.symm, rfl, rfl, ht.symm⟩

/-- A sync whose fetch of the positions fails leaves every stored position of the
    connection alone exactly when the order half raises, so that the request is
    rolled back, or when every row was closed at this very instant. -/
theorem sync_of_failed_fetch_keeps_iff (upper : String → String) (userId conn : UUID)
    (broker : Broker) (now : Instant) (db : Database) (code : BrokerErrorCode) (message : String)
    (getOrders : Except FetchError (List NormalizedOrder)) :
    (∀ p ∈ db.positions, p.brokerConnectionId = conn →
        KeptIn (afterSync upper userId conn broker now db
          ⟨.error (.brokerApi code message), getOrders⟩).positions p) ↔
      ¬ OrdersAccepted upper conn broker db getOrders ∨
        ∀ p ∈ db.positions, p.brokerConnectionId = conn → p.quantity = 0 ∧ p.asOf = now := by
  have hpos : PositionsAccepted upper conn broker db (.error (.brokerApi code message)) :=
    ⟨[], rfl, by simp, by simp [newInstruments, newReports, reports]⟩
  by_cases hord : OrdersAccepted upper conn broker db getOrders
  · obtain ⟨⟨db', sum⟩, hok⟩ := (syncConnection_ok_iff userId now
      ⟨.error (.brokerApi code message), getOrders⟩).mpr ⟨hpos, hord⟩
    obtain ⟨ps, os, hps, -, hsync, -⟩ := syncConnection_eq_ok hok
    obtain rfl : [] = ps := Option.some.inj hps
    have hafter : (afterSync upper userId conn broker now db
        ⟨.error (.brokerApi code message), getOrders⟩) = db' := by
      unfold afterSync; rw [hok]
    rw [hafter, or_iff_right (not_not.mpr hord)]
    exact forall₃_congr fun p hp hc => hsync.reconciled.keptIn_iff hp hc
  · have hafter : afterSync upper userId conn broker now db
        ⟨.error (.brokerApi code message), getOrders⟩ = db := by
      unfold afterSync
      cases hs : syncConnection upper userId conn broker now db
          ⟨.error (.brokerApi code message), getOrders⟩ with
      | error e => rfl
      | ok r => exact absurd ((syncConnection_ok_iff _ _ _).mp ⟨r, hs⟩).2 hord
    rw [hafter]
    exact iff_of_true (fun p hp _ => keptIn_of_mem hp) (.inl hord)

/-- Ten shares, and a fetch that times out: the position is closed. -/
theorem sync_of_failed_fetch_closes :
    ¬ ∀ p ∈ sampleHolding.positions, p.brokerConnectionId = 7 →
      KeptIn (afterSync String.toUpper 1 7 .alpaca 60 sampleHolding
        ⟨.error (.brokerApi .networkTimeout "timeout"), .ok []⟩).positions p := by
  intro h
  have hrows : (afterSync String.toUpper 1 7 .alpaca 60 sampleHolding
      ⟨.error (.brokerApi .networkTimeout "timeout"), .ok []⟩).positions =
        [⟨7, 1, 0, 100, "USD", 60⟩] := by decide +kernel
  obtain ⟨p, hp, -, hq, -⟩ := h ⟨7, 1, 10, 100, "USD", 0⟩ (List.mem_singleton_self _) rfl
  rw [hrows, List.mem_singleton] at hp
  rw [hp] at hq
  exact absurd hq (by decide +kernel)

end Nivara.Portfolio
