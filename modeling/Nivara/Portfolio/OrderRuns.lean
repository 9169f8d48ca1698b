import Nivara.Portfolio.SyncConnection
import Nivara.Lib.Transition

/-!
# The orders table over a run of syncs

Syncs of any connections, one after the other, with arbitrary responses. A sync
that raises is rolled back and leaves the tables as they were.

The dictionary of `_sync_orders` knows neither the rows of the batch itself nor
rows with an empty `broker_order_id`. `SyncRequest.IdsFresh` says that a response
meets neither gap.

Results:

* `SyncRequest.step_orders`: what one sync makes of the table.
* `orders_of_run`: in a run of syncs that meet no gap, no flush violates the unique
  key, no row is deleted, and each `broker_order_id` has one row.
-/

namespace Nivara.Portfolio

open Transition

/-! ## Model -/

/-- One call of the sync endpoint. -/
structure SyncRequest where
  userId : UUID
  conn : UUID
  broker : Broker
  now : Instant
  fetch : Fetch

section Model

variable (upper : String → String)

/-- How the call of `sync_connection` ends. -/
def SyncRequest.result (db : Database) (r : SyncRequest) : Except SyncError (Database × SyncSummary) :=
  syncConnection upper r.userId r.conn r.broker r.now db r.fetch

/-- The request takes the database from one state to the next. -/
def SyncRequest.Step (db : Database) (r : SyncRequest) (db' : Database) : Prop :=
  db' = afterSync upper r.userId r.conn r.broker r.now db r.fetch

/-- The ids of the rows the request inserts. -/
def SyncRequest.newIds (db : Database) (r : SyncRequest) : List String :=
  (newOrderRows upper r.conn r.broker db ((rowsOf r.fetch.getOrders).getD [])).map fun row =>
    row.2.brokerOrderId

/-- The new ids are distinct, and the empty id is new only to a connection that has
    no row with it. -/
def SyncRequest.IdsFresh (db : Database) (r : SyncRequest) : Prop :=
  (r.newIds upper db).Nodup ∧
    ("" ∈ r.newIds upper db →
      ∀ o ∈ db.orders, o.brokerConnectionId = r.conn → o.brokerOrderId ≠ "")

instance (db : Database) (r : SyncRequest) : Decidable (r.IdsFresh upper db) := by
  unfold SyncRequest.IdsFresh; infer_instance

end Model

/-- The columns an order of the broker is identified by. -/
def Order.orderKey (o : Order) : UUID × String := (o.brokerConnectionId, o.brokerOrderId)

/-- At most one row for each `(connection, broker_order_id)`. -/
def OneRowPerOrder (db : Database) : Prop := (db.orders.map Order.orderKey).Nodup

/-! ## One sync -/

variable {upper : String → String} {db db' : Database} {r : SyncRequest}
  {ps : List NormalizedPosition} {os : List NormalizedOrder} {conn : UUID} {broker : Broker}
  {now : Instant}

/-- Stored columns that no update writes, and the same columns of the new rows. -/
theorem Synced.map_orders (h : Synced upper conn broker now db ps os db') {α : Type} (f : Order → α)
    (hf : ∀ bo o, f (applyOrder bo o) = f o) :
    db'.orders.map f = db.orders.map f ++
      (newOrderRows upper conn broker db os).map fun row => f (orderOf conn row.1 row.2) := by
  rw [h.orders_eq, List.map_append, List.map_map]
  congr 1
  · exact List.map_congr_left fun o _ => stampOrder_keeps f hf o
  · rw [newOrders, List.map_map]; rfl

/-- New ids that are not stored keep one row for each id. -/
theorem orderKeys_append_nodup (hone : OneRowPerOrder db)
    (hids : ((newOrderRows upper conn broker db os).map fun row => row.2.brokerOrderId).Nodup)
    (hempty : "" ∈ (newOrderRows upper conn broker db os).map (fun row => row.2.brokerOrderId) →
      ∀ o ∈ db.orders, o.brokerConnectionId = conn → o.brokerOrderId ≠ "") :
    (db.orders.map Order.orderKey ++ (newOrderRows upper conn broker db os).map fun row =>
      (conn, row.2.brokerOrderId)).Nodup := by
  rw [List.nodup_append]
  refine ⟨hone, ?_, ?_⟩
  · have hpair : (newOrderRows upper conn broker db os).map (fun row => (conn, row.2.brokerOrderId)) =
        ((newOrderRows upper conn broker db os).map fun row => row.2.brokerOrderId).map fun id =>
          (conn, id) := by
      rw [List.map_map]; rfl
    rw [hpair]
    exact hids.map fun a b h => (Prod.mk.inj h).2
  · intro k hk k' hk' heq
    obtain ⟨o, ho, rfl⟩ := List.mem_map.mp hk
    obtain ⟨row, hrow, rfl⟩ := List.mem_map.mp hk'
    obtain ⟨hc, hid⟩ := Prod.mk.inj heq
    rcases newOrderRows_not_stored hrow with he | hall
    · have hmem : "" ∈ (newOrderRows upper conn broker db os).map fun row => row.2.brokerOrderId :=
        List.mem_map.mpr ⟨row, hrow, he⟩
      exact hempty hmem o ho hc (hid.trans he)
    · exact hall o ho hc hid

/-- A request that meets no gap violates no key. -/
theorem SyncRequest.result_ne_integrityError (h : r.IdsFresh upper db) :
    r.result upper db ≠ .error (.integrityError .ordersIdempotencyKey) := by
  intro herr
  obtain ⟨os, hos, hdup⟩ := of_syncConnection_eq_integrityError herr
  have hnew : r.newIds upper db =
      (newOrderRows upper r.conn r.broker db os).map fun row => row.2.brokerOrderId := by
    unfold SyncRequest.newIds; rw [hos]; rfl
  unfold SyncRequest.IdsFresh at h
  rw [hnew] at h
  exact hdup (freshOrderKeys_of_ids h.1 h.2)

/-- What one sync makes of the orders: it keeps the keys of the stored rows, in their
    order, and one row for each id. -/
theorem SyncRequest.step_orders (hone : OneRowPerOrder db) (hfresh : r.IdsFresh upper db)
    (hstep : SyncRequest.Step upper db r db') :
    OneRowPerOrder db' ∧
      db.orders.map Order.idempotencyKey <+: db'.orders.map Order.idempotencyKey := by
  unfold SyncRequest.Step afterSync at hstep
  cases hs : syncConnection upper r.userId r.conn r.broker r.now db r.fetch with
  | error e =>
    rw [hs] at hstep
    rw [hstep]
    exact ⟨hone, List.prefix_refl _⟩
  | ok res =>
    obtain ⟨db₂, sum⟩ := res
    rw [hs] at hstep
    obtain rfl : db' = db₂ := hstep
    obtain ⟨ps, os, -, hos, hsync, -⟩ := syncConnection_eq_ok hs
    have hnew : r.newIds upper db =
        (newOrderRows upper r.conn r.broker db os).map fun row => row.2.brokerOrderId := by
      unfold SyncRequest.newIds; rw [hos]; rfl
    unfold SyncRequest.IdsFresh at hfresh
    rw [hnew] at hfresh
    constructor
    · unfold OneRowPerOrder
      rw [hsync.map_orders Order.orderKey fun _ _ => rfl]
      exact orderKeys_append_nodup hone hfresh.1 hfresh.2
    · rw [hsync.map_orders Order.idempotencyKey fun _ _ => rfl]
      exact List.prefix_append _ _

/-! ## Runs -/

/-- In a run of syncs that meet no gap of the dictionary, started with one row for each
    `(connection, broker_order_id)`: that stays so, the rows stay in their order, and
    no further such sync violates the unique key. -/
theorem orders_of_run (upper : String → String) (db db' : Database) (hone : OneRowPerOrder db)
    (hrun : Run (SyncRequest.Step upper) (fun db r => r.IdsFresh upper db) db db') :
    OneRowPerOrder db' ∧
      db.orders.map Order.idempotencyKey <+: db'.orders.map Order.idempotencyKey ∧
      ∀ r : SyncRequest, r.IdsFresh upper db' →
        r.result upper db' ≠ .error (.integrityError .ordersIdempotencyKey) := by
  have hinv : OneRowPerOrder db' ∧
      db.orders.map Order.idempotencyKey <+: db'.orders.map Order.idempotencyKey := by
    induction hrun with
    | refl => exact ⟨hone, List.prefix_refl _⟩
    | tail r _ hfresh hstep ih =>
      obtain ⟨ht, hpre⟩ := SyncRequest.step_orders ih.1 hfresh hstep
      exact ⟨ht, ih.2.trans hpre⟩
  exact ⟨hinv.1, hinv.2, fun r => r.result_ne_integrityError⟩

/-- A sync of connection 7 without positions. -/
def sampleOrderSync (orders : List NormalizedOrder) : SyncRequest :=
  ⟨1, 7, .alpaca, 60, ⟨.ok [], .ok orders⟩⟩

/-- Two orders with ids of their own. -/
theorem orders_of_run_sample :
    OneRowPerOrder (afterSync String.toUpper 1 7 .alpaca 60 sampleDatabase
        ⟨.ok [], .ok [sampleOrder "a" "AAPL", sampleOrder "b" "AAPL"]⟩) ∧
      sampleDatabase.orders.map Order.idempotencyKey <+:
        (afterSync String.toUpper 1 7 .alpaca 60 sampleDatabase
          ⟨.ok [], .ok [sampleOrder "a" "AAPL", sampleOrder "b" "AAPL"]⟩).orders.map
            Order.idempotencyKey ∧
      ∀ r : SyncRequest, r.IdsFresh String.toUpper (afterSync String.toUpper 1 7 .alpaca 60
          sampleDatabase ⟨.ok [], .ok [sampleOrder "a" "AAPL", sampleOrder "b" "AAPL"]⟩) →
        r.result String.toUpper (afterSync String.toUpper 1 7 .alpaca 60 sampleDatabase
          ⟨.ok [], .ok [sampleOrder "a" "AAPL", sampleOrder "b" "AAPL"]⟩) ≠
            .error (.integrityError .ordersIdempotencyKey) :=
  orders_of_run String.toUpper sampleDatabase _ List.nodup_nil
    (.tail (sampleOrderSync [sampleOrder "a" "AAPL", sampleOrder "b" "AAPL"]) .refl
      (by decide +kernel) rfl)

/-- One id twice in a response: the flush violates the unique key. -/
theorem order_twice_in_one_response :
    ¬ ∀ db db' : Database, OneRowPerOrder db →
      Run (SyncRequest.Step String.toUpper) Unconditional db db' →
      OneRowPerOrder db' ∧
        db.orders.map Order.idempotencyKey <+: db'.orders.map Order.idempotencyKey ∧
        ∀ r : SyncRequest,
          r.result String.toUpper db' ≠ .error (.integrityError .ordersIdempotencyKey) := by
  intro h
  have herr : (match (sampleOrderSync [sampleOrder "a" "AAPL", sampleOrder "a" "AAPL"]).result
      String.toUpper sampleDatabase with
      | .error e => some e
      | .ok _ => none) = some (.integrityError .ordersIdempotencyKey) := by decide +kernel
  have hne := (h sampleDatabase sampleDatabase List.nodup_nil .refl).2.2
    (sampleOrderSync [sampleOrder "a" "AAPL", sampleOrder "a" "AAPL"])
  cases hr : (sampleOrderSync [sampleOrder "a" "AAPL", sampleOrder "a" "AAPL"]).result
      String.toUpper sampleDatabase with
  | error e =>
    rw [hr] at herr hne
    exact hne (congrArg Except.error (Option.some.inj herr))
  | ok res => rw [hr] at herr; cases herr

end Nivara.Portfolio
