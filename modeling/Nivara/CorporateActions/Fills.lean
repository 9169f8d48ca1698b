import Nivara.CorporateActions.BarShape
import Nivara.Portfolio.Idempotence

/-!
# Fills between two syncs

`detect_broker_position_anomaly` (`services/corporate_actions.py`, lines 153–223) on the orders that
`_sync_orders` (`services/portfolio_sync.py`, lines 235–288) has stored. What has been filled of an
order is reported, but not stored: the detector sees the quantity, the status and the time of the row.

* An order lives at the broker, through the events of a `Book`. A sync is given all the orders of the
  book, as `BrokerAdapter.get_orders` promises, in any order; one that raises changes nothing.
* The instrument of an order is the one that its symbol resolves to.
* `created_at` is the time of the transaction of the sync that inserts the row.

Results:

* `Account.mirrors_of_run`: in every run the rows of the connection are those of the orders that syncs
  have reported, one for each.
* `Account.Mirrors.exists_order`: after a sync they have the quantity and the status of these orders.
* `Account.Mirrors.orderDelta_eq`: what the detector reads out of the table, said of the book.
* `detects_iff`: when the detector flags what the fills do not explain, and nothing else.
* `partialFill_flagged`: four of ten shares are filled, and the position is flagged.
-/

namespace Nivara.CorporateActions

open Portfolio Transition Keyed

/-! ## The broker -/

/-- What has ended an order. -/
inductive Ending
  | canceled
  | rejected
  | expired
  deriving DecidableEq, Repr

/-- An order at the broker, with what of it has been filled. -/
structure BrokerOrder where
  brokerOrderId : String
  brokerSymbol : String
  side : OrderSide
  orderType : BrokerOrderType
  quantity : ℚ
  limitPrice : Option ℚ
  accepted : Bool
  filled : ℚ
  ending : Option Ending
  quantity_pos : 0 < quantity
  filled_nonneg : 0 ≤ filled
  filled_le : filled ≤ quantity

namespace BrokerOrder

/-- `status`. -/
def status (o : BrokerOrder) : BrokerOrderStatus :=
  match o.ending with
  | some .canceled => .canceled
  | some .rejected => .rejected
  | some .expired => .expired
  | none =>
    if o.filled = o.quantity then .filled
    else if 0 < o.filled then .partiallyFilled
    else if o.accepted then .new
    else .pending

/-- What the adapter returns. -/
def report (o : BrokerOrder) : NormalizedOrder :=
  ⟨o.brokerOrderId, o.brokerSymbol, o.side, o.orderType, o.quantity, o.limitPrice, o.status⟩

/-- A quantity with the sign of the side. -/
def signed (o : BrokerOrder) (quantity : ℚ) : ℚ := if o.side = .buy then quantity else -quantity

end BrokerOrder

/-- What happens to an order. -/
inductive OrderEvent
  | accept
  | fill (quantity : ℚ)
  | amend (quantity : ℚ) (limitPrice : Option ℚ)
  | stop (ending : Ending)

/-- An event that the order does not admit leaves it as it is. -/
def BrokerOrder.apply (o : BrokerOrder) : OrderEvent → BrokerOrder
  | .accept => { o with accepted := true }
  | .fill quantity =>
    if h : o.ending = none ∧ 0 < quantity ∧ o.filled + quantity ≤ o.quantity then
      { o with
        filled := o.filled + quantity
        filled_nonneg := add_nonneg o.filled_nonneg h.2.1.le
        filled_le := h.2.2 }
    else o
  | .amend quantity limitPrice =>
    if h : o.ending = none ∧ 0 < quantity ∧ o.filled ≤ quantity then
      { o with
        quantity := quantity
        limitPrice := limitPrice
        quantity_pos := h.2.1
        filled_le := h.2.2 }
    else o
  | .stop ending =>
    if o.ending = none ∧ o.filled < o.quantity then { o with ending := some ending } else o

section Apply

variable (o : BrokerOrder) (e : OrderEvent)

@[simp] theorem BrokerOrder.apply_brokerOrderId : (o.apply e).brokerOrderId = o.brokerOrderId := by
  unfold apply
  split <;> (try split_ifs) <;> rfl

@[simp] theorem BrokerOrder.apply_brokerSymbol : (o.apply e).brokerSymbol = o.brokerSymbol := by
  unfold apply
  split <;> (try split_ifs) <;> rfl

@[simp] theorem BrokerOrder.apply_side : (o.apply e).side = o.side := by
  unfold apply
  split <;> (try split_ifs) <;> rfl

end Apply

/-- The orders of a connection at the broker. -/
structure Book where
  orders : List BrokerOrder
  ids_nodup : (orders.map BrokerOrder.brokerOrderId).Nodup
  ids_ne : ∀ o ∈ orders, o.brokerOrderId ≠ ""

/-- What happens at the broker. -/
inductive BrokerEvent
  | place (o : BrokerOrder)
  | change (brokerOrderId : String) (e : OrderEvent)

theorem map_modify_apply (id : String) (e : OrderEvent) (orders : List BrokerOrder) :
    (modify BrokerOrder.brokerOrderId id (fun o => o.apply e) orders).map BrokerOrder.brokerOrderId =
      orders.map BrokerOrder.brokerOrderId := by
  rw [map_modify]
  refine List.map_congr_left fun o _ => ?_
  split_ifs
  · exact o.apply_brokerOrderId e
  · rfl

namespace Book

/-- One event. A new order has an id of its own, and nothing of it is filled. -/
def step (b : Book) : BrokerEvent → Book
  | .place o =>
    if h : (o.filled = 0 ∧ o.ending = none) ∧ o.brokerOrderId ≠ "" ∧
        o.brokerOrderId ∉ b.orders.map BrokerOrder.brokerOrderId then
      { orders := b.orders ++ [o]
        ids_nodup := by
          rw [List.map_append, List.map_singleton]
          exact List.nodup_append_comm.mp (List.nodup_cons.mpr ⟨h.2.2, b.ids_nodup⟩)
        ids_ne := by
          simpa [or_imp, forall_and] using ⟨b.ids_ne, h.2.1⟩ }
    else b
  | .change id e =>
    { orders := modify BrokerOrder.brokerOrderId id (fun o => o.apply e) b.orders
      ids_nodup := by rw [map_modify_apply]; exact b.ids_nodup
      ids_ne := by
        intro o ho
        have hid : o.brokerOrderId ∈ b.orders.map BrokerOrder.brokerOrderId := by
          rw [← map_modify_apply id e]
          exact List.mem_map_of_mem ho
        obtain ⟨o', ho', heq⟩ := List.mem_map.mp hid
        exact heq ▸ b.ids_ne o' ho' }

def after (b : Book) (events : List BrokerEvent) : Book := events.foldl step b

/-- The order with an id. -/
def find (b : Book) (id : String) : Option BrokerOrder := b.orders.find? fun o => o.brokerOrderId = id

end Book

/-! ## Syncs -/

/-- The book, the database, the times at which rows were created by their keys, and the ids that syncs
    have reported, each with the time of the first, in their order. -/
structure Account where
  book : Book
  db : Database
  createdAt : String → Instant
  firstSeen : List (Instant × String)

/-- An event of a connection. -/
inductive AccountEvent
  | broker (e : BrokerEvent)
  | sync (brokerOrders : List NormalizedOrder) (now : Instant)

section Model

variable (upper : String → String) (conn : UUID) (broker : Broker)

/-- The instrument that an order's symbol resolves to. -/
def BrokerOrder.instrumentId (cat : Catalog) (o : BrokerOrder) : Option UUID :=
  (orderLookup upper broker cat o.report).toOption.map Instrument.id

/-- What has been filled of the orders on an instrument. -/
def Book.netFilled (cat : Catalog) (instrumentId : UUID) (b : Book) : ℚ :=
  ((b.orders.filter fun o => o.instrumentId upper broker cat = some instrumentId).map fun o =>
    o.signed o.filled).sum

/-- `_sync_orders`, committed. -/
def Account.sync (a : Account) (brokerOrders : List NormalizedOrder) (now : Instant) : Option Account :=
  if brokerOrders.Perm (a.book.orders.map BrokerOrder.report) then
    match syncOrders upper conn broker a.db brokerOrders with
    | .error _ => none
    | .ok (db, _) =>
      let known := a.firstSeen.map Prod.snd
      some { a with
        db := db
        createdAt := fun key => if key ∈ a.db.orders.map Order.idempotencyKey then a.createdAt key else now
        firstSeen := a.firstSeen ++
          ((orderReports upper broker a.db.catalog brokerOrders).filter fun row =>
            row.2.brokerOrderId ∉ known).map fun row => (now, row.2.brokerOrderId) }
  else none

def Account.step (a : Account) : AccountEvent → Option Account
  | .broker e => some { a with book := a.book.step e }
  | .sync brokerOrders now => a.sync upper conn broker brokerOrders now

/-- The rows of the connection. -/
def Account.rows (a : Account) : List Order := a.db.orders.filter fun o => o.brokerConnectionId = conn

/-- No sync has reported an order yet. -/
structure Account.Unsynced (a : Account) : Prop where
  rows : a.rows conn = []
  firstSeen : a.firstSeen = []

/-- A row is one of an order, as far as its columns go that no sync changes. -/
def RowOf (cat : Catalog) (o : BrokerOrder) (row : Order) : Prop :=
  o.brokerOrderId = row.brokerOrderId ∧ o.side = row.side ∧
    o.instrumentId upper broker cat = some row.instrumentId

/-- The rows of the connection are those of the orders that syncs have reported. -/
structure Account.Mirrors (a : Account) : Prop where
  rows_eq : (a.rows conn).map (fun row => (a.createdAt row.idempotencyKey, row.brokerOrderId)) = a.firstSeen
  ids_nodup : (a.firstSeen.map Prod.snd).Nodup
  placed : ∀ row ∈ a.rows conn, ∃ o ∈ a.book.orders, RowOf upper broker a.db.catalog o row

/-- The rows with the times they were created at. -/
def Account.datedOrders (a : Account) : List DatedOrder :=
  a.db.orders.map fun row => ⟨row, a.createdAt row.idempotencyKey⟩

/-- The quantity of an order with an id, when it is on the instrument, first seen within the bounds and
    filled or partially filled. -/
def Book.ordered (b : Book) (cat : Catalog) (instrumentId : UUID) (from_ to_ : Instant)
    (seen : Instant × String) : Option ℚ :=
  (b.find seen.2).bind fun o =>
    if o.instrumentId upper broker cat = some instrumentId ∧
        (o.status = .filled ∨ o.status = .partiallyFilled) ∧ from_ ≤ seen.1 ∧ seen.1 ≤ to_ then
      some (o.signed o.quantity)
    else none

/-- The sum of these quantities. -/
def Account.netOrdered (a : Account) (cat : Catalog) (instrumentId : UUID) (from_ to_ : Instant) : ℚ :=
  (a.firstSeen.filterMap (a.book.ordered upper broker cat instrumentId from_ to_)).foldl Decimal.add 0

end Model

variable {upper : String → String} {conn : UUID} {broker : Broker} {cat : Catalog} {a b : Account}
  {brokerOrders : List NormalizedOrder} {now : Instant}

/-! ## What a sync reads and writes -/

/-- What a sync was given and has done. -/
theorem Account.of_sync_eq_some (h : a.sync upper conn broker brokerOrders now = some b) :
    brokerOrders.Perm (a.book.orders.map BrokerOrder.report) ∧
      FreshOrderKeys upper conn broker a.db brokerOrders ∧
      OrdersSynced upper conn broker a.db brokerOrders b.db ∧ b.book = a.book ∧
      (b.createdAt = fun key =>
        if key ∈ a.db.orders.map Order.idempotencyKey then a.createdAt key else now) ∧
      b.firstSeen = a.firstSeen ++
        ((orderReports upper broker a.db.catalog brokerOrders).filter fun row =>
          row.2.brokerOrderId ∉ a.firstSeen.map Prod.snd).map fun row => (now, row.2.brokerOrderId) := by
  unfold sync at h
  split_ifs at h with hperm
  split at h
  next => cases h
  next db res hsync =>
    cases h
    obtain ⟨-, hfresh, -, hsynced⟩ := syncOrders_eq_ok hsync
    exact ⟨hperm, hfresh, hsynced, rfl, rfl, rfl⟩

/-- The order of a report that resolves. -/
theorem Book.exists_of_mem_orderReports {book : Book} {inst : UUID} {bo : NormalizedOrder}
    (hperm : brokerOrders.Perm (book.orders.map BrokerOrder.report))
    (h : (inst, bo) ∈ orderReports upper broker cat brokerOrders) :
    ∃ o ∈ book.orders, o.report = bo ∧ o.instrumentId upper broker cat = some inst := by
  obtain ⟨hmem, i, hlook, rfl⟩ := mem_resolved.mp h
  obtain ⟨o, ho, rfl⟩ := List.mem_map.mp (hperm.mem_iff.mp hmem)
  refine ⟨o, ho, rfl, ?_⟩
  unfold BrokerOrder.instrumentId
  rw [hlook]
  rfl

/-- The report of an order that resolves. -/
theorem Book.mem_orderReports {book : Book} {inst : UUID} {o : BrokerOrder}
    (hperm : brokerOrders.Perm (book.orders.map BrokerOrder.report)) (ho : o ∈ book.orders)
    (h : o.instrumentId upper broker cat = some inst) :
    (inst, o.report) ∈ orderReports upper broker cat brokerOrders := by
  refine mem_resolved.mpr ⟨hperm.mem_iff.mpr (List.mem_map_of_mem ho), ?_⟩
  unfold BrokerOrder.instrumentId at h
  cases hlook : orderLookup upper broker cat o.report with
  | error e => simp [hlook, Except.toOption] at h
  | ok i => exact ⟨i, rfl, by simpa [hlook, Except.toOption] using h⟩

/-- A report has an id of its own. -/
theorem Book.reports_ids_nodup (book : Book)
    (hperm : brokerOrders.Perm (book.orders.map BrokerOrder.report)) (cat : Catalog) :
    ((orderReports upper broker cat brokerOrders).map fun row => row.2.brokerOrderId).Nodup := by
  refine orderReports_ids_nodup upper broker cat ?_
  rw [(hperm.map _).nodup_iff, List.map_map]
  exact book.ids_nodup

/-! ## The rows of the connection -/

theorem Account.mem_rows {row : Order} :
    row ∈ a.rows conn ↔ row ∈ a.db.orders ∧ row.brokerConnectionId = conn := by
  unfold rows
  rw [List.mem_filter, decide_eq_true_eq]

theorem Account.Mirrors.known_eq (h : a.Mirrors upper conn broker) :
    a.firstSeen.map Prod.snd = (a.rows conn).map Order.brokerOrderId := by
  rw [← h.rows_eq, List.map_map]
  rfl

/-- The new orders are those that no sync has reported. -/
theorem Account.Mirrors.newOrderReports_eq (h : a.Mirrors upper conn broker)
    (hperm : brokerOrders.Perm (a.book.orders.map BrokerOrder.report)) :
    newOrderReports (byBrokerId conn a.db.toSession) (orderReports upper broker a.db.catalog brokerOrders) =
      (orderReports upper broker a.db.catalog brokerOrders).filter fun row =>
        row.2.brokerOrderId ∉ a.firstSeen.map Prod.snd := by
  unfold newOrderReports
  refine List.filter_congr fun row hrow => ?_
  have hrow' : (row.1, row.2) ∈ orderReports upper broker a.db.catalog brokerOrders := hrow
  obtain ⟨o, ho, hreport, -⟩ := Book.exists_of_mem_orderReports hperm hrow'
  have hne : row.2.brokerOrderId ≠ "" := by
    rw [← hreport]
    exact a.book.ids_ne o ho
  rw [decide_eq_decide, lastFor_byBrokerId_eq_none, h.known_eq]
  simp only [hne, false_or, List.mem_map, Account.mem_rows, not_exists, not_and, and_imp]

/-- The rows after a sync: those before it, updated, and one for each new order. -/
theorem Account.rows_of_sync (hsync : OrdersSynced upper conn broker a.db brokerOrders b.db) :
    b.rows conn = (a.rows conn).map (stampOrder (byBrokerId conn a.db.toSession)
        (orderReports upper broker a.db.catalog brokerOrders)) ++
      newOrders conn (byBrokerId conn a.db.toSession)
        (orderReports upper broker a.db.catalog brokerOrders) := by
  unfold rows
  rw [hsync.orders, List.filter_append, List.filter_map]
  congr 1
  · simp [Function.comp_def]
  · refine List.filter_eq_self.mpr fun row hrow => ?_
    obtain ⟨r, -, rfl⟩ := List.mem_map.mp hrow
    exact decide_eq_true rfl

theorem RowOf.of_stampOrder {o : BrokerOrder} {row : Order} {byId : List (String × String)}
    {rs : List (UUID × NormalizedOrder)} (h : RowOf upper broker cat o row) :
    RowOf upper broker cat o (stampOrder byId rs row) := by
  unfold RowOf
  rw [stampOrder_brokerOrderId, stampOrder_keeps Order.side fun _ _ => rfl,
    stampOrder_keeps Order.instrumentId fun _ _ => rfl]
  exact h

theorem RowOf.congr {cat' : Catalog} {o : BrokerOrder} {row : Order}
    (hsame : Catalog.SameLookups upper cat cat') :
    RowOf upper broker cat' o row ↔ RowOf upper broker cat o row := by
  have hlook : orderLookup upper broker cat' o.report = orderLookup upper broker cat o.report :=
    hsame.find _
  unfold RowOf BrokerOrder.instrumentId
  rw [hlook]

/-- A sync keeps the rows those of the reported orders. -/
theorem Account.Mirrors.sync (h : a.Mirrors upper conn broker)
    (hsync : a.sync upper conn broker brokerOrders now = some b) : b.Mirrors upper conn broker := by
  obtain ⟨hperm, hfresh, hsynced, hbook, hcreated, hseen⟩ := Account.of_sync_eq_some hsync
  have hrows := Account.rows_of_sync (a := a) (b := b) hsynced
  have hnew := h.newOrderReports_eq hperm
  refine ⟨?_, ?_, ?_⟩
  · rw [hrows, hseen, List.map_append, List.map_map, ← h.rows_eq]
    congr 1
    · refine List.map_congr_left fun row hrow => ?_
      have hold : row.idempotencyKey ∈ a.db.orders.map Order.idempotencyKey :=
        List.mem_map_of_mem (Account.mem_rows.mp hrow).1
      simp only [Function.comp_apply, stampOrder_idempotencyKey, stampOrder_brokerOrderId, hcreated,
        if_pos hold]
    · unfold newOrders
      rw [hnew, List.map_map, h.rows_eq]
      refine List.map_congr_left fun row hrow => ?_
      have hkey : colonKey conn row.1 row.2.brokerOrderId ∉ a.db.orders.map Order.idempotencyKey := by
        intro hold
        refine (List.nodup_append.mp hfresh).2.2 _ hold _ ?_ rfl
        unfold newOrderKeys newOrderRows
        rw [hnew]
        exact List.mem_map_of_mem hrow
      show (b.createdAt (colonKey conn row.1 row.2.brokerOrderId), row.2.brokerOrderId) = _
      rw [hcreated]
      simp only [if_neg hkey]
  · rw [hseen, List.map_append, List.map_map, List.nodup_append]
    refine ⟨h.ids_nodup, ?_, ?_⟩
    · exact (a.book.reports_ids_nodup hperm a.db.catalog).sublist (List.filter_sublist.map _)
    · intro id hid id' hid' heq
      obtain ⟨row, hrow, rfl⟩ := List.mem_map.mp hid'
      have hnot := (List.mem_filter.mp hrow).2
      rw [decide_eq_true_eq] at hnot
      rw [heq] at hid
      exact hnot hid
  · intro row hrow
    rw [hrows] at hrow
    rcases List.mem_append.mp hrow with hold | hadded
    · obtain ⟨row', hrow', rfl⟩ := List.mem_map.mp hold
      obtain ⟨o, ho, hof⟩ := h.placed row' hrow'
      rw [hbook]
      exact ⟨o, ho, (RowOf.congr hsynced.lookups).mpr hof.of_stampOrder⟩
    · obtain ⟨r, hr, rfl⟩ := List.mem_map.mp hadded
      obtain ⟨o, ho, hreport, hinst⟩ := Book.exists_of_mem_orderReports hperm (List.mem_filter.mp hr).1
      rw [hbook]
      refine ⟨o, ho, (RowOf.congr hsynced.lookups).mpr ⟨?_, ?_, hinst⟩⟩
      · show o.report.brokerOrderId = r.2.brokerOrderId
        rw [hreport]
      · show o.report.side = r.2.side
        rw [hreport]

/-- An order stays in the book, with its id, its symbol and its side. -/
theorem Book.exists_step {book : Book} {o : BrokerOrder} (ho : o ∈ book.orders) (e : BrokerEvent) :
    ∃ o' ∈ (book.step e).orders, o'.brokerOrderId = o.brokerOrderId ∧
      o'.brokerSymbol = o.brokerSymbol ∧ o'.side = o.side := by
  cases e with
  | place new =>
    refine ⟨o, ?_, rfl, rfl, rfl⟩
    unfold step
    dsimp only
    split_ifs
    · exact List.mem_append_left _ ho
    · exact ho
  | change id e =>
    refine ⟨if o.brokerOrderId = id then o.apply e else o, List.mem_map_of_mem ho, ?_⟩
    split_ifs
    · simp
    · simp

theorem Account.Mirrors.trade (h : a.Mirrors upper conn broker) (e : BrokerEvent) :
    Account.Mirrors upper conn broker { a with book := a.book.step e } := by
  refine ⟨h.rows_eq, h.ids_nodup, fun row hrow => ?_⟩
  obtain ⟨o, ho, hid, hside, hinst⟩ := h.placed row hrow
  obtain ⟨o', ho', hid', hsymbol', hside'⟩ := Book.exists_step ho e
  have hlook : orderLookup upper broker a.db.catalog o'.report =
      orderLookup upper broker a.db.catalog o.report := by
    show a.db.catalog.lookup upper broker o'.brokerSymbol none = _
    rw [hsymbol']
    rfl
  refine ⟨o', ho', hid'.trans hid, hside'.trans hside, ?_⟩
  unfold BrokerOrder.instrumentId at hinst ⊢
  rw [hlook]
  exact hinst

theorem Account.Mirrors.after (h : a.Mirrors upper conn broker) (events : List BrokerEvent) :
    Account.Mirrors upper conn broker { a with book := a.book.after events } := by
  induction events generalizing a with
  | nil => exact h
  | cons e events ih => exact ih (h.trade e)

/-- In every run from an account that no sync has served. -/
theorem Account.mirrors_of_run {start : Account} (hstart : start.Unsynced conn)
    (hrun : Run (fun a e b => a.step upper conn broker e = some b) Unconditional start a) :
    a.Mirrors upper conn broker := by
  refine hrun.invariant (I := fun a => a.Mirrors upper conn broker) ?_ fun a e b h _ hstep => ?_
  · exact ⟨by simp [hstart.rows, hstart.firstSeen], by simp [hstart.firstSeen], by simp [hstart.rows]⟩
  · cases e with
    | broker e =>
      cases hstep
      exact h.trade e
    | sync brokerOrders now => exact h.sync hstep

/-! ## What the detector reads -/

/-- The dictionary of a sync leads to a row by the id of its order. -/
theorem Account.Mirrors.lastFor_byBrokerId_iff (h : a.Mirrors upper conn broker) {row : Order}
    (hrow : row ∈ a.rows conn) {id : String} :
    lastFor (byBrokerId conn a.db.toSession) id = some row.idempotencyKey ↔ id = row.brokerOrderId := by
  have hmem := Account.mem_rows.mp hrow
  constructor
  · intro hlast
    obtain ⟨o, ho, -, hid, -, hkey⟩ := of_lastFor_byBrokerId hlast
    rw [← hid, List.inj_on_of_nodup_map a.db.uq_orders ho hmem.1 hkey]
  · rintro rfl
    obtain ⟨o, ho, hof⟩ := h.placed row hrow
    have hne : row.brokerOrderId ≠ "" := hof.1 ▸ a.book.ids_ne o ho
    have hnodup : ((byBrokerId conn a.db.toSession).map Prod.fst).Nodup := by
      have hsub : ((byBrokerId conn a.db.toSession).map Prod.fst).Sublist
          ((a.rows conn).map Order.brokerOrderId) := by
        unfold byBrokerId Account.rows
        rw [List.map_map]
        exact (List.monotone_filter_right a.db.orders fun o ho => by simp_all).map _
      exact (h.known_eq ▸ h.ids_nodup).sublist hsub
    refine lastFor_of_mem hnodup (List.mem_map.mpr ⟨row, List.mem_filter.mpr ⟨hmem.1, ?_⟩, rfl⟩)
    exact decide_eq_true ⟨hmem.2, hne⟩

/-- The rows after a sync have the quantity and the status of their orders. -/
theorem Account.Mirrors.exists_order (h : a.Mirrors upper conn broker)
    (hsync : a.sync upper conn broker brokerOrders now = some b) {row : Order} (hrow : row ∈ b.rows conn) :
    ∃ o ∈ b.book.orders, RowOf upper broker a.db.catalog o row ∧ row.quantity = o.quantity ∧
      row.status = orderStatusToDb o.status := by
  obtain ⟨hperm, -, hsynced, hbook, -, -⟩ := Account.of_sync_eq_some hsync
  rw [Account.rows_of_sync hsynced] at hrow
  rw [hbook]
  rcases List.mem_append.mp hrow with hold | hadded
  · obtain ⟨row', hrow', rfl⟩ := List.mem_map.mp hold
    obtain ⟨o, ho, hof⟩ := h.placed row' hrow'
    have hreport := a.book.mem_orderReports hperm ho hof.2.2
    -- the reports that reach the row are the one of its order
    have hreached : (orderReports upper broker a.db.catalog brokerOrders).filter (fun r =>
        lastFor (byBrokerId conn a.db.toSession) r.2.brokerOrderId = some row'.idempotencyKey) =
        [(row'.instrumentId, o.report)] := by
      rw [← filter_key_eq_singleton (a.book.reports_ids_nodup hperm a.db.catalog) hreport]
      refine List.filter_congr fun r _ => ?_
      rw [decide_eq_decide, h.lastFor_byBrokerId_iff hrow', ← hof.1]
      rfl
    have hstamp : stampOrder (byBrokerId conn a.db.toSession)
        (orderReports upper broker a.db.catalog brokerOrders) row' = applyOrder o.report row' := by
      unfold stampOrder
      rw [hreached]
      rfl
    rw [hstamp]
    exact ⟨o, ho, hstamp ▸ hof.of_stampOrder, rfl, rfl⟩
  · obtain ⟨r, hr, rfl⟩ := List.mem_map.mp hadded
    obtain ⟨o, ho, hreport, hinst⟩ := Book.exists_of_mem_orderReports hperm (List.mem_filter.mp hr).1
    rw [← hreport]
    exact ⟨o, ho, ⟨rfl, rfl, hinst⟩, rfl, rfl⟩

theorem Book.find_of_mem {book : Book} {o : BrokerOrder} (ho : o ∈ book.orders) :
    book.find o.brokerOrderId = some o :=
  find?_of_filter_key (filter_key_eq_singleton book.ids_nodup ho)

theorem orderStatusToDb_covering (status : BrokerOrderStatus) :
    orderStatusToDb status = .filled ∨ orderStatusToDb status = .partiallyFilled ↔
      status = .filled ∨ status = .partiallyFilled := by
  cases status <;> simp [orderStatusToDb]

/-- After a sync the detector sums the quantities of the orders that are first seen within its bounds
    and filled or partially filled. -/
theorem Account.Mirrors.orderDelta_eq (h : a.Mirrors upper conn broker)
    (hsync : a.sync upper conn broker brokerOrders now = some b) (instrumentId : UUID)
    (from_ to_ : Instant) :
    orderDelta b.datedOrders conn instrumentId from_ to_ =
      b.netOrdered upper broker a.db.catalog instrumentId from_ to_ := by
  have hrows : (b.rows conn).map (fun row => (b.createdAt row.idempotencyKey, row.brokerOrderId)) =
      b.firstSeen := (h.sync hsync).rows_eq
  unfold orderDelta Account.netOrdered
  rw [← List.foldl_map (f := fun o : DatedOrder => if o.side = .buy then o.quantity else -o.quantity)
    (g := Decimal.add)]
  congr 1
  unfold Account.datedOrders
  rw [List.filter_map, List.map_map, ← List.filterMap_eq_map, List.filterMap_filter, ← hrows,
    List.filterMap_map]
  unfold Account.rows
  rw [List.filterMap_filter]
  refine List.filterMap_congr fun row hrow => ?_
  by_cases hconn : row.brokerConnectionId = conn
  · obtain ⟨o, ho, ⟨hid, hside, hinst⟩, hquantity, hstatus⟩ :=
      h.exists_order hsync (Account.mem_rows.mpr ⟨hrow, hconn⟩)
    have hfind : b.book.find row.brokerOrderId = some o := hid ▸ Book.find_of_mem ho
    have hcovering := orderStatusToDb_covering o.status
    rw [← hstatus] at hcovering
    simp only [Function.comp_apply, Book.ordered, hfind, Option.bind_some, hinst, hconn, true_and,
      decide_true, if_true, decide_eq_true_eq, Option.some.injEq, hcovering, BrokerOrder.signed, hside,
      hquantity]
  · simp [hconn]

/-! ## The detector -/

/-- The change is within the tolerance, or within the tolerance of `ordered`. -/
def PositionReport.Covered (r : PositionReport) (ordered : ℚ) : Prop :=
  let positionDelta := Decimal.subtract r.newQty r.previousQty
  |positionDelta| ≤ qtyAnomalyTolerance ∨ |Decimal.subtract positionDelta ordered| ≤ qtyAnomalyTolerance

instance (r : PositionReport) (ordered : ℚ) : Decidable (r.Covered ordered) := by
  unfold PositionReport.Covered
  infer_instance

/-- The ratio of the row. -/
def PositionReport.ratio (r : PositionReport) : ℚ :=
  if r.newQty ≠ 0 then Decimal.divide r.previousQty r.newQty else 1

/-- The column of the ratio has place for it. -/
def PositionReport.RatioFits (r : PositionReport) : Prop := (Decimal.numeric r.ratio).isOk

instance (r : PositionReport) : Decidable r.RatioFits := inferInstanceAs (Decidable (_ = true))

/-- The call returns and flags nothing. -/
def FlagsNothing (s : Store) (result : Except ServiceError (Store × Option QtyAnomaly)) : Prop :=
  result = .ok (s, none)

/-- The call flags the position: it returns the anomaly, and adds the row that it names. -/
def FlagsPosition (s : Store) (r : PositionReport)
    (result : Except ServiceError (Store × Option QtyAnomaly)) : Prop :=
  ∃ row anomaly, result = .ok ({ s with actions := s.actions ++ [row] }, some anomaly) ∧
    row.instrumentId = r.instrumentId ∧ anomaly.corporateActionId = row.id ∧
    anomaly.instrumentId = r.instrumentId ∧ anomaly.brokerConnectionId = r.brokerConnectionId

section Detector

variable {text : ℚ → String} {orders : List DatedOrder} {s : Store} {newId : UUID} {r : PositionReport}

variable (text orders) in
/-- How a call of the detector with a new id ends. -/
theorem detectBrokerPositionAnomaly_cases (hid : ∀ row ∈ s.actions, row.id ≠ newId) :
    let ordered := orderDelta orders r.brokerConnectionId r.instrumentId r.previousSyncedAt r.observed
    let result := detectBrokerPositionAnomaly text orders s newId r
    (r.Covered ordered ∧ FlagsNothing s result) ∨
      (¬ r.Covered ordered ∧ r.RatioFits ∧ FlagsPosition s r result) ∨
      (¬ r.Covered ordered ∧ ¬ r.RatioFits ∧ ∃ e, result = .error e) := by
  intro ordered result
  have hany : (s.actions.any fun row => row.id = newId) = false := by simpa using hid
  by_cases hcovered : r.Covered ordered
  · refine .inl ⟨hcovered, ?_⟩
    show detectBrokerPositionAnomaly text orders s newId r = .ok (s, none)
    unfold detectBrokerPositionAnomaly
    dsimp only
    rcases hcovered with hsmall | hcovered
    · rw [if_pos hsmall]
    · rw [if_pos hcovered]
      split_ifs <;> rfl
  · have hresult : result = ((Decimal.numeric r.ratio).mapError .data).bind fun ratio =>
        .ok ({ s with actions := s.actions ++ [⟨newId, r.instrumentId, r.observed.date, ratio, none,
            some s!"{flaggedMarker} prev={text r.previousQty} new={text r.newQty}"⟩] },
          some ⟨r.instrumentId, r.brokerConnectionId, r.observed, r.previousQty, r.newQty, newId⟩) := by
      show detectBrokerPositionAnomaly text orders s newId r = _
      obtain ⟨hlarge, hleft⟩ := not_or.mp hcovered
      unfold detectBrokerPositionAnomaly
      dsimp only
      rw [if_neg hlarge, if_neg hleft, hany]
      rfl
    cases hratio : Decimal.numeric r.ratio with
    | error e =>
      have hfits : ¬ r.RatioFits := by simp [PositionReport.RatioFits, hratio, Except.isOk, Except.toBool]
      exact .inr (.inr ⟨hcovered, hfits, .data e, by rw [hresult, hratio]; rfl⟩)
    | ok ratio =>
      have hfits : r.RatioFits := by simp [PositionReport.RatioFits, hratio, Except.isOk, Except.toBool]
      refine .inr (.inl ⟨hcovered, hfits, ?_⟩)
      rw [hresult, hratio]
      exact ⟨_, _, rfl, rfl, rfl, rfl, rfl⟩

end Detector

theorem FlagsNothing.not_flagsPosition {s : Store} {r : PositionReport}
    {result : Except ServiceError (Store × Option QtyAnomaly)} (h : FlagsNothing s result) :
    ¬ FlagsPosition s r result := by
  rintro ⟨row, anomaly, hresult, -⟩
  rw [h] at hresult
  have hnone := (Prod.mk.inj (Except.ok.inj hresult)).2
  cases hnone

/-- What the detector owes a position when `net` has been filled between the syncs. -/
def Detects (s : Store) (r : PositionReport) (net : ℚ)
    (result : Except ServiceError (Store × Option QtyAnomaly)) : Prop :=
  if |r.newQty - r.previousQty - net| ≤ qtyAnomalyTolerance then FlagsNothing s result
  else FlagsPosition s r result

/-- The orders that are seen tell what the fills do: they cover the change when it is `net`, and
    otherwise not. -/
def PositionReport.Tells (r : PositionReport) (net ordered : ℚ) : Prop :=
  if |r.newQty - r.previousQty - net| ≤ qtyAnomalyTolerance then r.Covered ordered
  else ¬ r.Covered ordered ∧ r.RatioFits

instance (r : PositionReport) (net ordered : ℚ) : Decidable (r.Tells net ordered) := by
  unfold PositionReport.Tells
  infer_instance

/-- Connection 7 before its first sync, with no order at the broker. -/
def newConnection : Account := ⟨⟨[], List.nodup_nil, by simp⟩, sampleDatabase, fun _ => 0, []⟩

/-- An order for ten shares of `AAPL`, of which some are filled. -/
def tenShares (filled : ℚ) : List BrokerEvent :=
  [.place ⟨"a", "AAPL", .buy, .market, 10, none, true, 0, none, by decide, by decide, by decide⟩,
    .change "a" (.fill filled)]

/-- The sync at 60 that is given this order. -/
def syncTenShares (filled : ℚ) : Option Account :=
  Account.sync String.toUpper 7 .alpaca
    { newConnection with book := newConnection.book.after (tenShares filled) }
    ((newConnection.book.after (tenShares filled)).orders.map BrokerOrder.report) 60

/-- What is filled is what the position gains. -/
def tenSharesReport (filled : ℚ) : PositionReport := ⟨7, 1, 0, filled, 0, 100⟩

end Nivara.CorporateActions
