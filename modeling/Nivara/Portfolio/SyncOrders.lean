import Nivara.Portfolio.SyncPositions

/-!
# `_sync_orders`

The order half of a sync (`services/portfolio_sync.py`, lines 235-288). Rows are
looked up by `broker_order_id` in a dictionary that is built once, before the
loop, from the stored rows with a non-empty id; a row that is not found is
inserted, and its idempotency key is built from the connection, the instrument
and the broker's id.

A row of the dictionary is a live row of the session. The model refers to it by
its idempotency key, which is unique in the table.

Results:

* `syncOrders_cases`: the call returns and leaves the closed form, or violates the
  unique constraint on the keys, or meets an ambiguous row.
-/

namespace Nivara.Portfolio

open Keyed

/-! ## Model -/

/-- `OrderStatus` (`schemas/broker.py`). -/
inductive BrokerOrderStatus
  | new
  | partiallyFilled
  | filled
  | canceled
  | rejected
  | expired
  | pending
  deriving DecidableEq, Repr

/-- `OrderType` (`schemas/broker.py`). -/
inductive BrokerOrderType
  | market
  | limit
  | stop
  | stopLimit
  deriving DecidableEq, Repr

/-- `NormalizedOrder` (`schemas/broker.py`), without the fields a sync does not read
    (`filled_quantity`, `stop_price`, the two timestamps, `currency`). -/
structure NormalizedOrder where
  brokerOrderId : String
  brokerSymbol : String
  side : OrderSide
  orderType : BrokerOrderType
  quantity : ℚ
  limitPrice : Option ℚ
  status : BrokerOrderStatus
  deriving DecidableEq, Repr

/-- A filled order of one share. -/
def sampleOrder (id symbol : String) : NormalizedOrder :=
  ⟨id, symbol, .buy, .market, 1, none, .filled⟩

/-- `_ORDER_STATUS_TO_DB`. Every status of the schema is a key, so the default
    `"pending"` of the lookup is never used. -/
def orderStatusToDb : BrokerOrderStatus → DbOrderStatus
  | .new => .submitted
  | .pending => .pending
  | .partiallyFilled => .partiallyFilled
  | .filled => .filled
  | .canceled => .cancelled
  | .rejected => .rejected
  | .expired => .cancelled

/-- `bo.order_type if bo.order_type in ("market", "limit") else "market"`. -/
def orderTypeToDb : BrokerOrderType → DbOrderType
  | .market => .market
  | .limit => .limit
  | .stop => .market
  | .stopLimit => .market

/-- The row inserted for a reported order (lines 267-278). -/
def orderOf (conn inst : UUID) (bo : NormalizedOrder) : Order where
  brokerConnectionId := conn
  instrumentId := inst
  side := bo.side
  orderType := orderTypeToDb bo.orderType
  quantity := bo.quantity
  limitPrice := bo.limitPrice
  status := orderStatusToDb bo.status
  brokerOrderId := bo.brokerOrderId
  idempotencyKey := colonKey conn inst bo.brokerOrderId
  key_eq := rfl

/-- The update of a stored row (lines 281-284). -/
def applyOrder (bo : NormalizedOrder) (o : Order) : Order :=
  { o with
    status := orderStatusToDb bo.status
    quantity := bo.quantity
    limitPrice := if bo.limitPrice.isSome then bo.limitPrice else o.limitPrice }

/-- The state of the loop. -/
structure OrderLoop where
  session : Session
  upserted : ℕ
  warnings : List String

/-- What `_sync_orders` returns. -/
structure OrdersResult where
  upserted : ℕ
  warnings : List String
  deriving DecidableEq, Repr

section Model

variable (upper : String → String) (conn : UUID) (broker : Broker)

/-- `by_broker_id`: the ids of the stored rows and the rows they stand for. Of
    several rows with one id the last enters the dictionary. -/
def byBrokerId (s : Session) : List (String × String) :=
  (s.orders.filter fun o => o.brokerConnectionId = conn ∧ o.brokerOrderId ≠ "").map fun o =>
    (o.brokerOrderId, o.idempotencyKey)

/-- The warning for a row that does not resolve (line 259). -/
def unmappedOrderWarning (bo : NormalizedOrder) (message : String) : String :=
  s!"unmapped_order_symbol: {bo.brokerSymbol} ({message})"

/-- The update or the insert (lines 263-284). -/
def upsertOrder (byId : List (String × String)) (inst : UUID) (bo : NormalizedOrder) (s : Session) :
    Session :=
  match lastFor byId bo.brokerOrderId with
  | some key => { s with orders := modify Order.idempotencyKey key (applyOrder bo) s.orders }
  | none => { s with orders := s.orders ++ [orderOf conn inst bo] }

/-- The body of the loop (lines 252-285). Orders are looked up without an exchange. -/
def orderStep (byId : List (String × String)) (st : OrderLoop) (bo : NormalizedOrder) :
    Except SyncError OrderLoop :=
  match normalizeSymbol upper st.session broker bo.brokerSymbol none with
  | .error (.symbolNotMapped message) =>
    .ok { st with warnings := st.warnings ++ [unmappedOrderWarning bo message] }
  | .error e => .error e
  | .ok (instrument, session) =>
    .ok { st with
      session := upsertOrder conn byId instrument.id bo session
      upserted := st.upserted + 1 }

/-- `PortfolioSyncService._sync_orders`. -/
def syncOrders (db : Database) (brokerOrders : List NormalizedOrder) :
    Except SyncError (Database × OrdersResult) := do
  let byId := byBrokerId conn db.toSession
  let st ← brokerOrders.foldlM (orderStep upper conn broker byId) ⟨db.toSession, 0, []⟩
  let db ← st.session.flush
  return (db, ⟨st.upserted, st.warnings⟩)

/-- The lookup of a reported order. -/
def orderLookup (cat : Catalog) (bo : NormalizedOrder) : Except ResolveError Instrument :=
  cat.lookup upper broker bo.brokerSymbol none

/-- The reported orders that resolve, with their instrument. -/
def orderReports (cat : Catalog) (l : List NormalizedOrder) : List (UUID × NormalizedOrder) :=
  resolved (orderLookup upper broker cat) l

/-- The row makes the sync raise `MultipleResultsFound`. -/
def AmbiguousOrder (cat : Catalog) (bo : NormalizedOrder) : Prop :=
  orderLookup upper broker cat bo = .error .multipleResultsFound

instance (cat : Catalog) (bo : NormalizedOrder) :
    Decidable (AmbiguousOrder upper broker cat bo) := by
  unfold AmbiguousOrder; infer_instance

/-- The warnings for the rows that do not resolve. -/
def unmappedOrderWarnings (cat : Catalog) (l : List NormalizedOrder) : List String :=
  (unmapped (orderLookup upper broker cat) l).map fun r => unmappedOrderWarning r.1 r.2

end Model

/-! ## The table in closed form -/

section ClosedForm

variable (conn : UUID) (byId : List (String × String))

/-- What the loop has made of a stored row after the reports `rs`. -/
def stampOrder (rs : List (UUID × NormalizedOrder)) (o : Order) : Order :=
  (rs.filter fun r => lastFor byId r.2.brokerOrderId = some o.idempotencyKey).foldl
    (fun o r => applyOrder r.2 o) o

/-- The reports that are not in the dictionary. -/
def newOrderReports (rs : List (UUID × NormalizedOrder)) : List (UUID × NormalizedOrder) :=
  rs.filter fun r => lastFor byId r.2.brokerOrderId = none

/-- The rows the loop adds. -/
def newOrders (rs : List (UUID × NormalizedOrder)) : List Order :=
  (newOrderReports byId rs).map fun r => orderOf conn r.1 r.2

end ClosedForm

variable {upper : String → String} {conn : UUID} {broker : Broker} {byId : List (String × String)}
  {rs : List (UUID × NormalizedOrder)} {db : Database} {cat' : Catalog} {l : List NormalizedOrder}
  {bo : NormalizedOrder}

@[simp] theorem applyOrder_idempotencyKey (o : Order) :
    (applyOrder bo o).idempotencyKey = o.idempotencyKey := rfl

@[simp] theorem applyOrder_brokerConnectionId (o : Order) :
    (applyOrder bo o).brokerConnectionId = o.brokerConnectionId := rfl

@[simp] theorem applyOrder_brokerOrderId (o : Order) :
    (applyOrder bo o).brokerOrderId = o.brokerOrderId := rfl

/-- Updates keep every field they do not write. -/
theorem stampOrder_keeps {α : Type} (f : Order → α) (hf : ∀ bo o, f (applyOrder bo o) = f o)
    (o : Order) : f (stampOrder byId rs o) = f o := by
  unfold stampOrder
  generalize rs.filter _ = rows
  induction rows generalizing o with
  | nil => rfl
  | cons r rows ih => rw [List.foldl_cons, ih, hf]

@[simp] theorem stampOrder_idempotencyKey (o : Order) :
    (stampOrder byId rs o).idempotencyKey = o.idempotencyKey :=
  stampOrder_keeps _ (fun _ _ => rfl) o

@[simp] theorem stampOrder_brokerConnectionId (o : Order) :
    (stampOrder byId rs o).brokerConnectionId = o.brokerConnectionId :=
  stampOrder_keeps _ (fun _ _ => rfl) o

@[simp] theorem stampOrder_brokerOrderId (o : Order) :
    (stampOrder byId rs o).brokerOrderId = o.brokerOrderId :=
  stampOrder_keeps _ (fun _ _ => rfl) o

theorem stampOrder_append (r : UUID × NormalizedOrder) (o : Order) :
    stampOrder byId (rs ++ [r]) o =
      if lastFor byId r.2.brokerOrderId = some o.idempotencyKey then
        applyOrder r.2 (stampOrder byId rs o)
      else stampOrder byId rs o := by
  unfold stampOrder
  rw [List.filter_append]
  by_cases h : lastFor byId r.2.brokerOrderId = some o.idempotencyKey <;> simp [h]

/-! ## The dictionary -/

/-- A row of the dictionary is a stored row of the connection with that id. -/
theorem of_lastFor_byBrokerId {s : Session} {id key : String}
    (h : lastFor (byBrokerId conn s) id = some key) :
    ∃ o ∈ s.orders, o.brokerConnectionId = conn ∧ o.brokerOrderId = id ∧ id ≠ "" ∧
      o.idempotencyKey = key := by
  obtain ⟨o, ho, heq⟩ := List.mem_map.mp (mem_of_lastFor h)
  obtain ⟨hmem, hc⟩ := List.mem_filter.mp ho
  obtain ⟨rfl, rfl⟩ := Prod.mk.inj heq
  rw [decide_eq_true_eq] at hc
  exact ⟨o, hmem, hc.1, rfl, hc.2, rfl⟩

/-- An id is not in the dictionary when it is empty or no stored row has it. -/
theorem lastFor_byBrokerId_eq_none {s : Session} {id : String} :
    lastFor (byBrokerId conn s) id = none ↔
      id = "" ∨ ∀ o ∈ s.orders, o.brokerConnectionId = conn → o.brokerOrderId ≠ id := by
  rw [lastFor_eq_none, byBrokerId, List.map_map]
  constructor
  · intro h
    by_cases hid : id = ""
    · exact .inl hid
    · refine .inr fun o ho hc hoid => h ?_
      refine List.mem_map.mpr ⟨o, List.mem_filter.mpr ⟨ho, ?_⟩, hoid⟩
      rw [decide_eq_true_eq, hoid]
      exact ⟨hc, hid⟩
  · rintro h hmem
    obtain ⟨o, ho, rfl⟩ := List.mem_map.mp hmem
    obtain ⟨hmem, hc⟩ := List.mem_filter.mp ho
    rw [decide_eq_true_eq] at hc
    rcases h with h | h
    · exact hc.2 h
    · exact h o hmem hc.1 rfl

/-- The row of the dictionary is never one the loop has added. -/
theorem newOrders_key_ne {s : Session} {id key : String}
    (h : lastFor (byBrokerId conn s) id = some key) :
    ∀ o ∈ newOrders conn (byBrokerId conn s) rs, o.idempotencyKey ≠ key := by
  intro o ho hkey
  obtain ⟨r, hr, rfl⟩ := List.mem_map.mp ho
  obtain ⟨o', ho', hc, hid, hne, hkey'⟩ := of_lastFor_byBrokerId h
  have hnone : lastFor (byBrokerId conn s) r.2.brokerOrderId = none := by
    simpa using (List.mem_filter.mp hr).2
  have hkeys : colonKey conn r.1 r.2.brokerOrderId =
      colonKey o'.brokerConnectionId o'.instrumentId o'.brokerOrderId := by
    rw [← o'.key_eq, hkey', ← hkey]; rfl
  obtain ⟨-, -, hids⟩ := colonKey_injective hkeys
  rcases lastFor_byBrokerId_eq_none.mp hnone with he | hall
  · exact hne (by rw [← hid, ← hids, he])
  · exact hall o' ho' hc hids.symm

/-! ## The loop -/

section Loop

variable (upper : String → String) (conn : UUID) (broker : Broker)

/-- The state of the loop after the rows `l`, with the mappings `cat'`. -/
def ordersAfter (db : Database) (cat' : Catalog) (l : List NormalizedOrder) : OrderLoop where
  session := { db.toSession with
    catalog := cat'
    orders :=
      db.orders.map (stampOrder (byBrokerId conn db.toSession)
        (orderReports upper broker db.catalog l)) ++
      newOrders conn (byBrokerId conn db.toSession) (orderReports upper broker db.catalog l) }
  upserted := (orderReports upper broker db.catalog l).length
  warnings := unmappedOrderWarnings upper broker db.catalog l

/-- The connection's new orders, as the response has them. -/
def newOrderRows (db : Database) (l : List NormalizedOrder) : List (UUID × NormalizedOrder) :=
  newOrderReports (byBrokerId conn db.toSession) (orderReports upper broker db.catalog l)

/-- The idempotency keys of the new rows. -/
def newOrderKeys (db : Database) (l : List NormalizedOrder) : List String :=
  (newOrderRows upper conn broker db l).map fun r => colonKey conn r.1 r.2.brokerOrderId

/-- The new rows violate no unique constraint. -/
def FreshOrderKeys (db : Database) (l : List NormalizedOrder) : Prop :=
  (db.orders.map Order.idempotencyKey ++ newOrderKeys upper conn broker db l).Nodup

instance (db : Database) (l : List NormalizedOrder) :
    Decidable (FreshOrderKeys upper conn broker db l) := by
  unfold FreshOrderKeys; infer_instance

end Loop

/-- One more report, on the table of the loop. -/
theorem upsertOrder_closed (s s₀ : Session) (rows : List Order) (inst : UUID)
    (hs : s.orders = rows.map (stampOrder (byBrokerId conn s₀) rs) ++
      newOrders conn (byBrokerId conn s₀) rs) :
    upsertOrder conn (byBrokerId conn s₀) inst bo s =
      { s with orders := rows.map (stampOrder (byBrokerId conn s₀) (rs ++ [(inst, bo)])) ++
          newOrders conn (byBrokerId conn s₀) (rs ++ [(inst, bo)]) } := by
  unfold upsertOrder
  cases hl : lastFor (byBrokerId conn s₀) bo.brokerOrderId with
  | some key =>
    have hold : newOrders conn (byBrokerId conn s₀) (rs ++ [(inst, bo)]) =
        newOrders conn (byBrokerId conn s₀) rs := by
      simp [newOrders, newOrderReports, hl]
    simp only [hs, hold, modify_append, modify_of_forall_ne (newOrders_key_ne hl), modify_map]
    congr 2
    apply List.map_congr_left
    intro o _
    rw [stampOrder_append, stampOrder_idempotencyKey, hl]
    by_cases hk : o.idempotencyKey = key
    · rw [if_pos hk, if_pos (congrArg some hk.symm)]
    · rw [if_neg hk, if_neg fun h => hk (Option.some.inj h).symm]
  | none =>
    have hstamp : rows.map (stampOrder (byBrokerId conn s₀) (rs ++ [(inst, bo)])) =
        rows.map (stampOrder (byBrokerId conn s₀) rs) := by
      apply List.map_congr_left
      intro o _
      rw [stampOrder_append, hl]
      exact if_neg (by simp)
    rw [hstamp]
    simp [hs, newOrders, newOrderReports, hl]

theorem ordersAfter_keys :
    (ordersAfter upper conn broker db cat' l).session.orders.map Order.idempotencyKey =
      db.orders.map Order.idempotencyKey ++ newOrderKeys upper conn broker db l := by
  simp [ordersAfter, newOrderKeys, newOrderRows, newOrders, orderOf, Function.comp_def]

variable (upper conn broker cat' l) in
/-- The loop does not touch the positions. -/
theorem ordersAfter_positions (db : Database) :
    ((ordersAfter upper conn broker db cat' l).session.positions.map Position.key).Nodup :=
  db.uq_positions

theorem FreshOrderKeys.of_append (h : FreshOrderKeys upper conn broker db (l ++ [bo])) :
    FreshOrderKeys upper conn broker db l := by
  unfold FreshOrderKeys newOrderKeys newOrderRows newOrderReports orderReports at h ⊢
  rw [resolved_append, List.filter_append, List.map_append, ← List.append_assoc] at h
  exact (List.nodup_append.mp h).1

/-- A flush of the loop's session fails only for a new row with a key that exists. -/
theorem flush_ordersAfter {e : SyncError}
    (h : (ordersAfter upper conn broker db cat' l).session.flush = .error e) :
    ¬ FreshOrderKeys upper conn broker db l ∧ e = .integrityError .ordersIdempotencyKey := by
  by_cases hnd : FreshOrderKeys upper conn broker db l
  · have ho : ((ordersAfter upper conn broker db cat' l).session.orders.map
        Order.idempotencyKey).Nodup := by rw [ordersAfter_keys]; exact hnd
    rw [Session.flush_eq_ok (ordersAfter_positions _ _ _ _ _ db) ho] at h
    cases h
  · have ho : ¬ ((ordersAfter upper conn broker db cat' l).session.orders.map
        Order.idempotencyKey).Nodup := by rw [ordersAfter_keys]; exact hnd
    rw [Session.flush_of_orders_dup (ordersAfter_positions _ _ _ _ _ db) ho] at h
    cases h
    exact ⟨hnd, rfl⟩

/-! One round, by how the symbol resolves. -/

theorem orderStep_of_unmapped {st : OrderLoop} {message : String}
    (h : orderLookup upper broker st.session.catalog bo = .error (.symbolNotMapped message)) :
    orderStep upper conn broker byId st bo =
      .ok { st with warnings := st.warnings ++ [unmappedOrderWarning bo message] } := by
  simp only [orderStep, normalizeSymbol_of_error h, ResolveError.toSync]

theorem orderStep_of_ambiguous {st : OrderLoop}
    (h : AmbiguousOrder upper broker st.session.catalog bo) :
    orderStep upper conn broker byId st bo = .error .multipleResultsFound := by
  simp only [orderStep, normalizeSymbol_of_error h, ResolveError.toSync]

variable (conn byId) in
theorem orderStep_of_mapped {st : OrderLoop} {i : Instrument}
    (h : orderLookup upper broker st.session.catalog bo = .ok i) :
    (∃ cat', Catalog.SameLookups upper st.session.catalog cat' ∧
      orderStep upper conn broker byId st bo =
        .ok { st with
          session := upsertOrder conn byId i.id bo { st.session with catalog := cat' }
          upserted := st.upserted + 1 }) ∨
    (∃ e, st.session.flush = .error e ∧ orderStep upper conn broker byId st bo = .error e) := by
  rcases normalizeSymbol_of_ok h with ⟨cat', hsame, hstep⟩ | ⟨e, hflush, hstep⟩
  · exact .inl ⟨cat', hsame, by simp only [orderStep, hstep]⟩
  · have hnot : ∀ message, e ≠ .symbolNotMapped message := by
      rintro message rfl
      unfold Session.flush at hflush
      split_ifs at hflush <;> cases hflush
    refine .inr ⟨e, hflush, ?_⟩
    cases e with
    | symbolNotMapped message => exact absurd rfl (hnot message)
    | _ => simp only [orderStep, hstep]

variable (conn l) in
/-- A round of the loop keeps the closed form, or raises because of the rows before. -/
theorem orderStep_ordersAfter (hsame : Catalog.SameLookups upper db.catalog cat')
    (hamb : ¬ AmbiguousOrder upper broker db.catalog bo) :
    (∃ cat'', Catalog.SameLookups upper db.catalog cat'' ∧
      orderStep upper conn broker (byBrokerId conn db.toSession)
          (ordersAfter upper conn broker db cat' l) bo =
        .ok (ordersAfter upper conn broker db cat'' (l ++ [bo]))) ∨
    (¬ FreshOrderKeys upper conn broker db l ∧
      orderStep upper conn broker (byBrokerId conn db.toSession)
          (ordersAfter upper conn broker db cat' l) bo =
        .error (.integrityError .ordersIdempotencyKey)) := by
  have hlook : orderLookup upper broker (ordersAfter upper conn broker db cat' l).session.catalog bo =
      orderLookup upper broker db.catalog bo := hsame.find _
  rcases hr : orderLookup upper broker db.catalog bo with (message | _) | i
  · left
    refine ⟨cat', hsame, ?_⟩
    rw [orderStep_of_unmapped (hlook.trans hr)]
    simp [ordersAfter, orderReports, unmappedOrderWarnings, resolved_append, unmapped_append, hr]
  · exact absurd hr hamb
  · rcases orderStep_of_mapped conn (byBrokerId conn db.toSession) (hlook.trans hr) with
      ⟨cat'', hsame', hstep⟩ | ⟨e, hflush, hstep⟩
    · left
      refine ⟨cat'', hsame.trans hsame', ?_⟩
      rw [hstep, upsertOrder_closed _ db.toSession db.orders i.id
        (show _ = _ ++ newOrders conn _ (orderReports upper broker db.catalog l) from rfl)]
      simp [ordersAfter, orderReports, unmappedOrderWarnings, resolved_append, unmapped_append, hr]
    · right
      obtain ⟨hdup, rfl⟩ := flush_ordersAfter hflush
      exact ⟨hdup, hstep⟩

variable (upper conn broker) in
theorem ordersAfter_nil (db : Database) :
    ordersAfter upper conn broker db db.catalog [] = ⟨db.toSession, 0, []⟩ := by
  have hstamp : db.orders.map (stampOrder (byBrokerId conn db.toSession) []) = db.orders := by
    conv_rhs => rw [← List.map_id db.orders]
    exact List.map_congr_left fun o _ => rfl
  simp [ordersAfter, orderReports, unmappedOrderWarnings, newOrders, newOrderReports, hstamp]

variable (upper conn broker) in
/-- The loop reaches the closed form, or a mapping flush meets a key that exists, or a
    row is ambiguous. -/
theorem orderLoop_spec (db : Database) (l : List NormalizedOrder) :
    (∃ cat', Catalog.SameLookups upper db.catalog cat' ∧
      (∀ bo ∈ l, ¬ AmbiguousOrder upper broker db.catalog bo) ∧
      l.foldlM (orderStep upper conn broker (byBrokerId conn db.toSession)) ⟨db.toSession, 0, []⟩ =
        .ok (ordersAfter upper conn broker db cat' l)) ∨
    (¬ FreshOrderKeys upper conn broker db l ∧
      l.foldlM (orderStep upper conn broker (byBrokerId conn db.toSession)) ⟨db.toSession, 0, []⟩ =
        .error (.integrityError .ordersIdempotencyKey)) ∨
    ((∃ bo ∈ l, ¬ ¬ AmbiguousOrder upper broker db.catalog bo) ∧
      l.foldlM (orderStep upper conn broker (byBrokerId conn db.toSession)) ⟨db.toSession, 0, []⟩ =
        .error .multipleResultsFound) := by
  rw [← ordersAfter_nil upper conn broker db]
  refine Loop.foldlM_closedForm (.refl db.catalog)
    (fun _ l _ hsame hb => orderStep_ordersAfter conn l hsame hb) ?_
    (fun _ _ hdup hfresh => hdup hfresh.of_append) l
  intro cat' l bo hsame hb
  exact orderStep_of_ambiguous ((hsame.find _).trans (not_not.mp hb))

/-! ## The whole of `_sync_orders` -/

section Spec

variable (upper : String → String) (conn : UUID) (broker : Broker)

/-- The summary of a call that returns. -/
def ordersResult (db : Database) (l : List NormalizedOrder) : OrdersResult where
  upserted := (orderReports upper broker db.catalog l).length
  warnings := unmappedOrderWarnings upper broker db.catalog l

/-- What a call of `_sync_orders` that returns has made of the database: stored rows
    are updated in place, new rows follow, nothing else changes but the mappings,
    and those answer every lookup as before. -/
structure OrdersSynced (db : Database) (l : List NormalizedOrder) (db' : Database) : Prop where
  orders : db'.orders =
    db.orders.map (stampOrder (byBrokerId conn db.toSession)
      (orderReports upper broker db.catalog l)) ++
    newOrders conn (byBrokerId conn db.toSession) (orderReports upper broker db.catalog l)
  positions : db'.positions = db.positions
  auditLog : db'.auditLog = db.auditLog
  lookups : Catalog.SameLookups upper db.catalog db'.catalog

end Spec

variable (upper conn broker) in
/-- How a call of `_sync_orders` ends. -/
theorem syncOrders_cases (db : Database) (l : List NormalizedOrder) :
    ((∀ bo ∈ l, ¬ AmbiguousOrder upper broker db.catalog bo) ∧
      FreshOrderKeys upper conn broker db l ∧
      ∃ db', syncOrders upper conn broker db l = .ok (db', ordersResult upper broker db l) ∧
        OrdersSynced upper conn broker db l db') ∨
    (¬ FreshOrderKeys upper conn broker db l ∧
      syncOrders upper conn broker db l = .error (.integrityError .ordersIdempotencyKey)) ∨
    ((∃ bo ∈ l, AmbiguousOrder upper broker db.catalog bo) ∧
      syncOrders upper conn broker db l = .error .multipleResultsFound) := by
  rcases orderLoop_spec upper conn broker db l with
    ⟨cat', hsame, hamb, hl⟩ | ⟨hdup, hl⟩ | ⟨⟨bo, hbo, hamb⟩, hl⟩
  · by_cases hfresh : FreshOrderKeys upper conn broker db l
    · have hkeys : ((ordersAfter upper conn broker db cat' l).session.orders.map
          Order.idempotencyKey).Nodup := by rw [ordersAfter_keys]; exact hfresh
      refine .inl ⟨hamb, hfresh, ⟨_, ordersAfter_positions _ _ _ _ _ db, hkeys⟩, ?_,
        ⟨rfl, rfl, rfl, hsame⟩⟩
      simp only [syncOrders, hl, bind, Except.bind]
      rw [Session.flush_eq_ok (ordersAfter_positions _ _ _ _ _ db) hkeys]
      rfl
    · have hkeys : ¬ ((ordersAfter upper conn broker db cat' l).session.orders.map
          Order.idempotencyKey).Nodup := by rw [ordersAfter_keys]; exact hfresh
      refine .inr (.inl ⟨hfresh, ?_⟩)
      simp only [syncOrders, hl, bind, Except.bind]
      rw [Session.flush_of_orders_dup (ordersAfter_positions _ _ _ _ _ db) hkeys]
  · exact .inr (.inl ⟨hdup, by simp only [syncOrders, hl, bind, Except.bind]⟩)
  · exact .inr (.inr ⟨⟨bo, hbo, not_not.mp hamb⟩, by simp only [syncOrders, hl, bind, Except.bind]⟩)

/-- `_sync_orders` returns when no row is ambiguous and no new row has a key that
    exists. -/
theorem syncOrders_of_fresh (hamb : ∀ bo ∈ l, ¬ AmbiguousOrder upper broker db.catalog bo)
    (hfresh : FreshOrderKeys upper conn broker db l) :
    ∃ db', syncOrders upper conn broker db l = .ok (db', ordersResult upper broker db l) ∧
      OrdersSynced upper conn broker db l db' := by
  rcases syncOrders_cases upper conn broker db l with ⟨-, -, h⟩ | ⟨hdup, -⟩ | ⟨⟨bo, hbo, hb⟩, -⟩
  · exact h
  · exact absurd hfresh hdup
  · exact absurd hb (hamb bo hbo)

/-- What a call that returns has found and done. -/
theorem syncOrders_eq_ok {db' : Database} {res : OrdersResult}
    (h : syncOrders upper conn broker db l = .ok (db', res)) :
    (∀ bo ∈ l, ¬ AmbiguousOrder upper broker db.catalog bo) ∧
      FreshOrderKeys upper conn broker db l ∧ res = ordersResult upper broker db l ∧
      OrdersSynced upper conn broker db l db' := by
  rcases syncOrders_cases upper conn broker db l with
    ⟨hamb, hfresh, db'', h', hsync⟩ | ⟨-, h'⟩ | ⟨-, h'⟩
  · rw [h'] at h; cases h
    exact ⟨hamb, hfresh, rfl, hsync⟩
  · rw [h'] at h; cases h
  · rw [h'] at h; cases h

/-! ## Ids -/

/-- A new row's id is not stored for the connection. -/
theorem newOrderRows_not_stored {row : UUID × NormalizedOrder}
    (hrow : row ∈ newOrderRows upper conn broker db l) :
    row.2.brokerOrderId = "" ∨
      ∀ o ∈ db.orders, o.brokerConnectionId = conn → o.brokerOrderId ≠ row.2.brokerOrderId := by
  have hnone : lastFor (byBrokerId conn db.toSession) row.2.brokerOrderId = none := by
    simpa using (List.mem_filter.mp hrow).2
  exact lastFor_byBrokerId_eq_none.mp hnone

/-- A key determines the columns it is built from, so new ids give new keys. -/
theorem freshOrderKeys_of_ids
    (hids : ((newOrderRows upper conn broker db l).map fun row => row.2.brokerOrderId).Nodup)
    (hempty : "" ∈ (newOrderRows upper conn broker db l).map (fun row => row.2.brokerOrderId) →
      ∀ o ∈ db.orders, o.brokerConnectionId = conn → o.brokerOrderId ≠ "") :
    FreshOrderKeys upper conn broker db l := by
  unfold FreshOrderKeys
  rw [List.nodup_append]
  refine ⟨db.uq_orders, ?_, ?_⟩
  · have hof : (newOrderKeys upper conn broker db l).Pairwise (· ≠ ·) := by
      unfold newOrderKeys
      rw [List.pairwise_map]
      refine (List.pairwise_map.mp hids).imp ?_
      intro a b hne hkey
      exact hne (colonKey_injective hkey).2.2
    exact hof
  · intro k hk k' hk' heq
    obtain ⟨o, ho, rfl⟩ := List.mem_map.mp hk
    obtain ⟨row, hrow, rfl⟩ := List.mem_map.mp hk'
    rw [o.key_eq] at heq
    obtain ⟨hc, -, hid⟩ := colonKey_injective heq
    rcases newOrderRows_not_stored hrow with he | hall
    · have hmem : "" ∈ (newOrderRows upper conn broker db l).map fun row => row.2.brokerOrderId :=
        List.mem_map.mpr ⟨row, hrow, he⟩
      exact hempty hmem o ho hc (hid.trans he)
    · exact hall o ho hc hid

end Nivara.Portfolio
