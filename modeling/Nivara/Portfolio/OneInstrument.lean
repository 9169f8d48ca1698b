import Nivara.Portfolio.BadRows

/-!
# The instrument of a position and of its orders

A sync looks up a position with the exchange of its row and an order without one: the row of
an order has none. The two keys have a mapping row each. `detect_broker_position_anomaly`
(`services/corporate_actions.py`, lines 175-190) explains a change of a position by the orders
of the connection that are stored under its instrument.

Which positions and orders are the same security is not in the rows; it is a parameter.

Results:

* `Catalog.pointsTo_iff`, `Catalog.keysAgree_iff`: what the tables say about a lookup, and
  about the lookups with and without the exchange.
* `oneInstrument_iff`: when the positions and the orders of one symbol are stored under one
  instrument.
* `order_of_other_listing`: an older mapping without an exchange points to the other listing.
-/

namespace Nivara.Portfolio

open Keyed

/-! ## Model -/

section Model

variable (upper : String → String) (conn : UUID) (broker : Broker)

/-- The key of the row `upsertOrder` writes: that of the dictionary's row, or a new one. -/
def writtenKey (db : Database) (inst : UUID) (bo : NormalizedOrder) : String :=
  (lastFor (byBrokerId conn db.toSession) bo.brokerOrderId).getD (colonKey conn inst bo.brokerOrderId)

/-- The row a sync of `db` has written for a reported position. -/
def PositionStored (db db' : Database) (bp : NormalizedPosition) (p : Position) : Prop :=
  p ∈ db'.positions ∧ ∃ i, positionLookup upper broker db.catalog bp = .ok i ∧ p.key = (conn, i.id)

/-- The row a sync of `db` has written for a reported order. -/
def OrderStored (db db' : Database) (bo : NormalizedOrder) (o : Order) : Prop :=
  o ∈ db'.orders ∧ ∃ i, orderLookup upper broker db.catalog bo = .ok i ∧
    o.idempotencyKey = writtenKey conn db i.id bo

/-- The orders the detector's select reads for a position, whatever their status and time. -/
def joinedOrders (db : Database) (inst : UUID) : List Order :=
  db.orders.filter fun o => o.brokerConnectionId = conn ∧ o.instrumentId = inst

/-- The orders of a position with its symbol are stored under its instrument. -/
def OneInstrument (same : NormalizedPosition → NormalizedOrder → Prop) (db db' : Database)
    (ps : List NormalizedPosition) (os : List NormalizedOrder) : Prop :=
  ∀ bp ∈ ps, ∀ bo ∈ os, bp.brokerSymbol = bo.brokerSymbol → same bp bo →
    ∀ p o, PositionStored upper conn broker db db' bp p → OrderStored upper conn broker db db' bo o →
      o.instrumentId = p.instrumentId

/-! ## What the tables say -/

/-- A mapping row or an instrument matches. -/
def Catalog.Known (cat : Catalog) (k : LookupKey) : Prop :=
  cat.mappingsFor k ≠ [] ∨ cat.candidates upper k ≠ []

/-- The key's mapping row names the instrument or, without one, its candidate is the instrument. -/
def Catalog.PointsTo (cat : Catalog) (k : LookupKey) (id : UUID) : Prop :=
  (∃ m ∈ cat.mappingsFor k, m.instrumentId = id) ∨
    cat.mappingsFor k = [] ∧ ∃ i ∈ cat.candidates upper k, i.id = id

/-- Neither key has a mapping row, or that of one names what the other points to. -/
def Catalog.KeysAgree (cat : Catalog) (k k' : LookupKey) : Prop :=
  cat.mappingsFor k = [] ∧ cat.mappingsFor k' = [] ∨
    (∃ m ∈ cat.mappingsFor k, cat.PointsTo upper k' m.instrumentId) ∨
    ∃ m ∈ cat.mappingsFor k', cat.PointsTo upper k m.instrumentId

/-- The condition on the tables, for a position and an order that both resolve: a new order's key
    agrees with the position's; a stored order has the position's instrument. -/
def InstrumentsAgree (same : NormalizedPosition → NormalizedOrder → Prop) (db : Database)
    (ps : List NormalizedPosition) (os : List NormalizedOrder) : Prop :=
  ∀ bp ∈ ps, ∀ bo ∈ os, bp.brokerSymbol = bo.brokerSymbol → same bp bo →
    db.catalog.Known upper (positionKey upper broker bp) → db.catalog.Known upper (orderKey upper broker bo) →
    match lastFor (byBrokerId conn db.toSession) bo.brokerOrderId with
    | some key => ∀ o ∈ db.orders, o.idempotencyKey = key →
        db.catalog.PointsTo upper (positionKey upper broker bp) o.instrumentId
    | none => db.catalog.KeysAgree upper (positionKey upper broker bp) (orderKey upper broker bo)

end Model

variable {upper : String → String} {userId conn : UUID} {broker : Broker} {now : Instant}
  {db db' : Database} {cat : Catalog} {k k' : LookupKey} {i j : Instrument} {inst : UUID}
  {ps : List NormalizedPosition} {os : List NormalizedOrder}

namespace Catalog

theorem known_of_find (h : cat.find upper k = .ok i) : cat.Known upper k := by
  by_contra hk
  simp only [Known, not_or, not_not] at hk
  rw [Catalog.find, resolve_of_unmapped hk.1, hk.2] at h
  cases h

theorem find_of_known (hk : cat.Known upper k) (h : ¬ cat.SeveralMatch upper k) :
    ∃ i, cat.find upper k = .ok i := by
  unfold SeveralMatch at h
  unfold Catalog.find
  rcases hm : cat.mappingsFor k with _ | ⟨m, _ | ⟨m', l⟩⟩
  · rw [resolve_of_unmapped hm]
    rcases hc : cat.candidates upper k with _ | ⟨i, _ | ⟨i', l⟩⟩
    · simp [Known, hm, hc] at hk
    · exact ⟨i, rfl⟩
    · simp [hm, hc] at h
  · obtain ⟨i, -, -, hr⟩ := resolve_of_mapped upper hm
    exact ⟨i, by rw [hr]; rfl⟩
  · simp [hm] at h

/-- How a lookup that answers has found its instrument. -/
theorem of_find (h : cat.find upper k = .ok i) :
    (∃ m, cat.mappingsFor k = [m] ∧ m.instrumentId = i.id) ∨
      cat.mappingsFor k = [] ∧ cat.candidates upper k = [i] := by
  unfold Catalog.find at h
  rcases hm : cat.mappingsFor k with _ | ⟨m, _ | ⟨m', l⟩⟩
  · rw [resolve_of_unmapped hm] at h
    rcases hc : cat.candidates upper k with _ | ⟨j, _ | ⟨j', l⟩⟩ <;> rw [hc] at h <;> cases h
    exact .inr ⟨rfl, rfl⟩
  · obtain ⟨j, -, hid, hr⟩ := resolve_of_mapped upper hm
    rw [hr] at h
    cases h
    exact .inl ⟨m, rfl, hid.symm⟩
  · rw [resolve_of_several hm] at h
    cases h

/-- A key that is looked up points to the answer and to no other instrument. -/
theorem pointsTo_iff (h : cat.find upper k = .ok i) : cat.PointsTo upper k inst ↔ inst = i.id := by
  unfold PointsTo
  rcases of_find h with ⟨m, hm, hid⟩ | ⟨hm, hc⟩
  · simp [hm, ← hid, eq_comm]
  · simp [hm, hc, eq_comm]

/-- A symbol without an exchange has all the candidates it has with one. -/
theorem candidates_subset (hbs : k'.bs = k.bs) (hbe : k'.be = none) :
    cat.candidates upper k ⊆ cat.candidates upper k' := by
  intro i hi
  unfold candidates at hi ⊢
  rw [List.mem_filter, decide_eq_true_eq] at hi ⊢
  refine ⟨hi.1, hbs ▸ hi.2.1, ?_⟩
  simp [LookupKey.inferredExchange, hbe]

/-- The lookups with and without the exchange give one instrument when the keys agree. -/
theorem keysAgree_iff (hi : cat.find upper k = .ok i) (hj : cat.find upper k' = .ok j)
    (hbs : k'.bs = k.bs) (hbe : k'.be = none) : cat.KeysAgree upper k k' ↔ j.id = i.id := by
  unfold KeysAgree
  simp only [pointsTo_iff hi, pointsTo_iff hj]
  rcases of_find hi with ⟨m, hm, hid⟩ | ⟨hm, hc⟩
  · rcases of_find hj with ⟨m', hm', hid'⟩ | ⟨hm', hc'⟩
    · simp [hm, hm', hid, hid', eq_comm]
    · simp [hm, hm', hid, eq_comm]
  · rcases of_find hj with ⟨m', hm', hid'⟩ | ⟨hm', hc'⟩
    · simp [hm, hm', hid']
    · have hmem : i ∈ cat.candidates upper k' := candidates_subset hbs hbe (hc ▸ List.mem_singleton_self i)
      rw [hc', List.mem_singleton] at hmem
      simp [hm, hm', hmem]

end Catalog

/-! ## What a sync stores -/

section Stored

variable {bp : NormalizedPosition} {bo : NormalizedOrder} {p : Position} {o : Order}

/-- A key determines the instrument it is built from. -/
theorem instrumentId_eq_of_key {o' : Order} (h : o.idempotencyKey = o'.idempotencyKey) :
    o.brokerConnectionId = o'.brokerConnectionId ∧ o.instrumentId = o'.instrumentId := by
  rw [o.key_eq, o'.key_eq] at h
  obtain ⟨hconn, hinst, -⟩ := colonKey_injective h
  exact ⟨hconn, hinst⟩

theorem PositionStored.instrumentId (h : PositionStored upper conn broker db db' bp p)
    (hi : positionLookup upper broker db.catalog bp = .ok i) : p.instrumentId = i.id := by
  obtain ⟨-, i', hi', hkey⟩ := h
  rw [hi] at hi'
  cases hi'
  exact (Prod.mk.inj hkey).2

/-- A new order is stored under the instrument of its lookup, on the connection. -/
theorem OrderStored.of_new (h : OrderStored upper conn broker db db' bo o)
    (hj : orderLookup upper broker db.catalog bo = .ok j)
    (hnew : lastFor (byBrokerId conn db.toSession) bo.brokerOrderId = none) :
    o.brokerConnectionId = conn ∧ o.instrumentId = j.id := by
  obtain ⟨-, j', hj', hkey⟩ := h
  rw [hj] at hj'
  cases hj'
  rw [writtenKey, hnew, Option.getD_none, o.key_eq] at hkey
  obtain ⟨hconn, hinst, -⟩ := colonKey_injective hkey
  exact ⟨hconn, hinst⟩

/-- A stored order keeps its row. -/
theorem OrderStored.of_old {key : String} (h : OrderStored upper conn broker db db' bo o)
    (hold : lastFor (byBrokerId conn db.toSession) bo.brokerOrderId = some key) :
    o.idempotencyKey = key ∧ o.brokerConnectionId = conn := by
  obtain ⟨-, j, -, hkey⟩ := h
  rw [writtenKey, hold, Option.getD_some] at hkey
  obtain ⟨o', -, hconn, -, -, hkey'⟩ := of_lastFor_byBrokerId hold
  exact ⟨hkey, (instrumentId_eq_of_key (hkey.trans hkey'.symm)).1.trans hconn⟩

theorem exists_positionStored (hsync : Synced upper conn broker now db ps os db') (hbp : bp ∈ ps)
    (hi : positionLookup upper broker db.catalog bp = .ok i) :
    ∃ p, PositionStored upper conn broker db db' bp p := by
  have hmem : (i.id, bp) ∈ reports upper broker db.catalog ps := mem_resolved.mpr ⟨hbp, i, hi, rfl⟩
  obtain ⟨bp', hlast⟩ := Option.ne_none_iff_exists'.mp
    (mt lastFor_eq_none.mp (not_not.mpr (List.mem_map_of_mem (f := Prod.fst) hmem)))
  exact ⟨_, hsync.reconciled.mem_of_reported hlast, i, hi, rfl⟩

theorem exists_orderStored (hsync : Synced upper conn broker now db ps os db') (hbo : bo ∈ os)
    (hj : orderLookup upper broker db.catalog bo = .ok j) :
    ∃ o, OrderStored upper conn broker db db' bo o := by
  have hmem : (j.id, bo) ∈ orderReports upper broker db.catalog os := mem_resolved.mpr ⟨hbo, j, hj, rfl⟩
  cases hlast : lastFor (byBrokerId conn db.toSession) bo.brokerOrderId with
  | some key =>
    obtain ⟨o, ho, -, -, -, hkey⟩ := of_lastFor_byBrokerId hlast
    refine ⟨stampOrder (byBrokerId conn db.toSession) (orderReports upper broker db.catalog os) o, ?_, j, hj, ?_⟩
    · rw [hsync.orders_eq]
      exact List.mem_append_left _ (List.mem_map_of_mem ho)
    · rw [stampOrder_idempotencyKey, writtenKey, hlast, hkey]
      rfl
  | none =>
    refine ⟨orderOf conn j.id bo, ?_, j, hj, ?_⟩
    · rw [hsync.orders_eq]
      refine List.mem_append_right _ (List.mem_map.mpr ⟨(j.id, bo), ?_, rfl⟩)
      exact List.mem_filter.mpr ⟨hmem, by simpa using hlast⟩
    · rw [writtenKey, hlast]
      rfl

/-- The detector sees all orders of such a position. -/
theorem OneInstrument.joined {same : NormalizedPosition → NormalizedOrder → Prop}
    (h : OneInstrument upper conn broker same db db' ps os) (hbp : bp ∈ ps) (hbo : bo ∈ os)
    (hsym : bp.brokerSymbol = bo.brokerSymbol) (hsame : same bp bo)
    (hp : PositionStored upper conn broker db db' bp p) (ho : OrderStored upper conn broker db db' bo o) :
    o ∈ joinedOrders conn db' p.instrumentId := by
  have hinst : o.instrumentId = p.instrumentId := h bp hbp bo hbo hsym hsame p o hp ho
  have hconn : o.brokerConnectionId = conn := by
    obtain ⟨-, j, hj, -⟩ := id ho
    cases hlast : lastFor (byBrokerId conn db.toSession) bo.brokerOrderId with
    | some key => exact (ho.of_old hlast).2
    | none => exact (ho.of_new hj hlast).1
  simp [joinedOrders, ho.1, hconn, hinst]

end Stored

/-- In a sync that returns, the orders with a position's symbol and security are stored under the
    position's instrument exactly when the tables agree about the keys of both. -/
theorem oneInstrument_iff (upper : String → String) (userId conn : UUID) (broker : Broker) (now : Instant)
    (same : NormalizedPosition → NormalizedOrder → Prop) (db db' : Database) (fetch : Fetch)
    (sum : SyncSummary) (ps : List NormalizedPosition) (os : List NormalizedOrder)
    (hsync : syncConnection upper userId conn broker now db fetch = .ok (db', sum))
    (hps : rowsOf fetch.getPositions = some ps) (hos : rowsOf fetch.getOrders = some os) :
    OneInstrument upper conn broker same db db' ps os ↔
      InstrumentsAgree upper conn broker same db ps os := by
  obtain ⟨⟨ps', hps', hamb, -⟩, ⟨os', hos', hambo, -⟩⟩ := (syncConnection_ok_iff userId now fetch).mp ⟨_, hsync⟩
  obtain ⟨ps'', os'', hps'', hos'', hsynced, -⟩ := syncConnection_eq_ok hsync
  rw [hps] at hps' hps''
  rw [hos] at hos' hos''
  cases hps'
  cases hps''
  cases hos'
  cases hos''
  unfold OneInstrument InstrumentsAgree
  refine forall₄_congr fun bp hbp bo hbo => forall₂_congr fun hsym _ => ?_
  have hbs : (orderKey upper broker bo).bs = (positionKey upper broker bp).bs := congrArg strip hsym.symm
  constructor
  · intro h hknown hknowno
    obtain ⟨i, hi⟩ := Catalog.find_of_known hknown (mt ambiguousPosition_iff.mpr (hamb bp hbp))
    obtain ⟨j, hj⟩ := Catalog.find_of_known hknowno (mt ambiguousOrder_iff.mpr (hambo bo hbo))
    obtain ⟨p, hp⟩ := exists_positionStored hsynced hbp hi
    obtain ⟨o, ho⟩ := exists_orderStored hsynced hbo hj
    have hinst : o.instrumentId = i.id := (h p o hp ho).trans (hp.instrumentId hi)
    cases hlast : lastFor (byBrokerId conn db.toSession) bo.brokerOrderId with
    | some key =>
      intro o' _ hkey
      rw [Catalog.pointsTo_iff hi, ← hinst]
      exact (instrumentId_eq_of_key (hkey.trans (ho.of_old hlast).1.symm)).2
    | none =>
      rw [Catalog.keysAgree_iff hi hj hbs rfl, ← hinst]
      exact (ho.of_new hj hlast).2.symm
  · intro h p o hp ho
    obtain ⟨-, i, hi, -⟩ := id hp
    obtain ⟨-, j, hj, -⟩ := id ho
    have h := h (Catalog.known_of_find hi) (Catalog.known_of_find hj)
    rw [hp.instrumentId hi]
    cases hlast : lastFor (byBrokerId conn db.toSession) bo.brokerOrderId with
    | some key =>
      rw [hlast] at h
      obtain ⟨o', ho', -, -, -, hkey⟩ := of_lastFor_byBrokerId hlast
      rw [(instrumentId_eq_of_key ((ho.of_old hlast).1.trans hkey.symm)).2]
      exact (Catalog.pointsTo_iff hi).mp (h o' ho' hkey)
    | none =>
      rw [hlast] at h
      rw [(ho.of_new hj hlast).2]
      exact (Catalog.keysAgree_iff hi hj hbs rfl).mp h

/-- `RELIANCE` on two exchanges, and the mapping of a sync from before the listing on `NSE`. -/
def twoListings : Database where
  catalog :=
    { instruments := [⟨1, "RELIANCE", "BSE"⟩, ⟨2, "RELIANCE", "NSE"⟩]
      mappings := [⟨1, .zerodha, "RELIANCE", none⟩]
      ids_nodup := by decide
      uq_symbol_exchange := by decide
      uq_mappings := by decide
      mapping_fk := by decide }
  positions := []
  orders := []
  auditLog := []
  uq_positions := sampleDatabase.uq_positions
  uq_orders := List.nodup_nil

/-- Ten shares on `exchange`, and the order that has bought them. -/
def boughtOn (exchange : String) : Fetch where
  getPositions := .ok [⟨"RELIANCE", 10, 100, .INR, some exchange⟩]
  getOrders := .ok [sampleOrder "A1" "RELIANCE"]

theorem oneInstrument_iff_sample :
    ∃ db' sum, syncConnection id 1 7 .zerodha 60 twoListings (boughtOn "BSE") = .ok (db', sum) ∧
      (OneInstrument id 7 .zerodha (fun _ _ => True) twoListings db'
          [⟨"RELIANCE", 10, 100, .INR, some "BSE"⟩] [sampleOrder "A1" "RELIANCE"] ↔
        InstrumentsAgree id 7 .zerodha (fun _ _ => True) twoListings
          [⟨"RELIANCE", 10, 100, .INR, some "BSE"⟩] [sampleOrder "A1" "RELIANCE"]) := by
  obtain ⟨⟨db', sum⟩, hsync⟩ := Option.isSome_iff_exists.mp (show (syncConnection id 1 7 .zerodha 60
    twoListings (boughtOn "BSE")).toOption.isSome by decide +kernel)
  have hsync := Loop.eq_ok_of_toOption hsync
  exact ⟨db', sum, hsync, oneInstrument_iff id 1 7 .zerodha 60 (fun _ _ => True) twoListings db'
    (boughtOn "BSE") sum _ _ hsync rfl rfl⟩

/-- The position is on `NSE`, its order is stored under the listing on `BSE`. -/
theorem order_of_other_listing :
    ¬ ∀ (same : NormalizedPosition → NormalizedOrder → Prop) (db db' : Database) (fetch : Fetch)
      (sum : SyncSummary) (ps : List NormalizedPosition) (os : List NormalizedOrder),
      syncConnection id 1 7 .zerodha 60 db fetch = .ok (db', sum) →
      rowsOf fetch.getPositions = some ps → rowsOf fetch.getOrders = some os →
      OneInstrument id 7 .zerodha same db db' ps os := by
  intro h
  obtain ⟨⟨db', sum⟩, hsync, hrows⟩ := Option.map_eq_some_iff.mp (show (syncConnection id 1 7 .zerodha 60
    twoListings (boughtOn "NSE")).toOption.map (fun r => (r.1.positions, r.1.orders)) =
      some ([⟨7, 2, 10, 100, "INR", 60⟩], [orderOf 7 1 (sampleOrder "A1" "RELIANCE")]) by decide +kernel)
  obtain ⟨hpositions, horders⟩ := Prod.mk.inj hrows
  have hone := h (fun _ _ => True) twoListings db' (boughtOn "NSE") sum _ _ (Loop.eq_ok_of_toOption hsync) rfl rfl
    _ (List.mem_singleton_self _) _ (List.mem_singleton_self _) rfl trivial
    ⟨7, 2, 10, 100, "INR", 60⟩ (orderOf 7 1 (sampleOrder "A1" "RELIANCE"))
    ⟨hpositions ▸ List.mem_singleton_self _, ⟨2, "RELIANCE", "NSE"⟩, by decide +kernel, rfl⟩
    ⟨horders ▸ List.mem_singleton_self _, ⟨1, "RELIANCE", "BSE"⟩, by decide +kernel, by decide +kernel⟩
  exact absurd hone (by decide)

end Nivara.Portfolio
