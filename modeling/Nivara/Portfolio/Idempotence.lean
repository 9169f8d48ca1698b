import Nivara.Portfolio.SyncConnection

/-!
# A second sync with the same response

The first run changes three tables the second run reads: rows it inserted are found
and updated, and symbols it inferred are answered by a mapping.

Results:

* `PositionsReconciled.erase_asOf`: on the positions the second run only refreshes `as_of`.
* `stampOrder_synced`: on the orders it writes what the first run wrote.
* `syncConnection_twice`: the two runs together.
-/

namespace Nivara.Portfolio

open Keyed

/-- The row without its timestamp. -/
def Position.eraseAsOf (p : Position) : Position := { p with asOf := 0 }

variable {upper : String → String} {userId conn : UUID} {broker : Broker} {now now' : Instant}
  {db db₁ db₂ : Database} {ps : List NormalizedPosition} {os : List NormalizedOrder}
  {rs : List (UUID × NormalizedOrder)}

/-! ## Positions -/

theorem PositionsReconciled.reports_eq (h : PositionsReconciled upper conn broker now db ps db₁) :
    reports upper broker db₁.catalog ps = reports upper broker db.catalog ps :=
  resolved_congr (fun _ => h.lookups.find _) ps

/-- A second run inserts no row: every reported instrument has one. -/
theorem PositionsReconciled.newReports_eq_nil (h : PositionsReconciled upper conn broker now db ps db₁) :
    newReports (existingInstruments conn db₁.toSession) (reports upper broker db₁.catalog ps) = [] := by
  unfold newReports
  rw [List.filter_eq_nil_iff]
  intro r hr
  rw [h.reports_eq] at hr
  obtain ⟨bp, hbp⟩ := lastFor_of_mem_map_fst (List.mem_map_of_mem (f := Prod.fst) hr)
  have hex : r.1 ∈ existingInstruments conn db₁.toSession :=
    mem_existingInstruments.mpr ⟨_, h.mem_of_reported hbp, rfl⟩
  simpa using hex

/-- A second run only refreshes `as_of`. -/
theorem PositionsReconciled.reconcileRow_eraseAsOf
    (h : PositionsReconciled upper conn broker now db ps db₁)
    (hdistinct : ((reports upper broker db.catalog ps).map Prod.fst).Nodup) {q : Position}
    (hq : q ∈ db₁.positions) :
    (reconcileRow conn now' (reports upper broker db.catalog ps) q).eraseAsOf = q.eraseAsOf := by
  by_cases hc : q.brokerConnectionId = conn
  · rcases h.of_mem hq hc with ⟨bp, hbp, hrow⟩ | ⟨p, hp, hpc, hnone, rfl⟩
    · rw [reconcileRow_of_reported hc (lastFor_of_mem hdistinct hbp)]
      conv_rhs => rw [hrow]
      rfl
    · rw [reconcileRow_of_not_reported hc hnone]
      rfl
  · rw [reconcileRow_of_ne hc]

/-- The table after a second run, without the timestamps. -/
theorem PositionsReconciled.erase_asOf (h : PositionsReconciled upper conn broker now db ps db₁)
    (h' : PositionsReconciled upper conn broker now' db₁ ps db₂)
    (hdistinct : ((reports upper broker db.catalog ps).map Prod.fst).Nodup) :
    db₂.positions.map Position.eraseAsOf = db₁.positions.map Position.eraseAsOf := by
  rw [h'.positions, newRows, h.newReports_eq_nil, List.map_nil, List.append_nil, List.map_map,
    h.reports_eq]
  exact List.map_congr_left fun q hq => h.reconcileRow_eraseAsOf hdistinct hq

/-- A second run keeps the rows: their keys are the same, in the same order. -/
theorem PositionsReconciled.keys_eq (h : PositionsReconciled upper conn broker now db ps db₁)
    (h' : PositionsReconciled upper conn broker now' db₁ ps db₂) :
    db₂.positions.map Position.key = db₁.positions.map Position.key := by
  rw [h'.positions, newRows, h.newReports_eq_nil, List.map_nil, List.append_nil, List.map_map]
  exact List.map_congr_left fun q _ => reconcileRow_key q

/-- A second run closes nothing. -/
theorem PositionsReconciled.closedRows_eq_nil (h : PositionsReconciled upper conn broker now db ps db₁) :
    closedRows upper conn broker db₁ ps = [] := by
  unfold closedRows
  rw [List.filter_eq_nil_iff, h.reports_eq]
  intro q hq hopen
  rw [decide_eq_true_eq] at hopen
  obtain ⟨hc, hne, hnot⟩ := hopen
  rcases h.of_mem hq hc with ⟨bp, hbp, -⟩ | ⟨p, -, -, -, rfl⟩
  · exact hnot (List.mem_map_of_mem (f := Prod.fst) hbp)
  · exact hne rfl

/-! ## Orders -/

theorem applyOrder_applyOrder (bo : NormalizedOrder) (o : Order) :
    applyOrder bo (applyOrder bo o) = applyOrder bo o := by
  unfold applyOrder
  by_cases hl : bo.limitPrice.isSome <;> simp [hl]

/-- The row just inserted for an order already is what an update makes of it. -/
theorem applyOrder_orderOf (inst : UUID) (bo : NormalizedOrder) :
    applyOrder bo (orderOf conn inst bo) = orderOf conn inst bo := by
  unfold applyOrder orderOf
  by_cases hl : bo.limitPrice.isSome <;> simp [hl]

/-- With distinct ids one report updates a row. -/
theorem stampOrder_of_mem {s : Session} (hkeys : (s.orders.map Order.idempotencyKey).Nodup)
    (hids : (rs.map fun r => r.2.brokerOrderId).Nodup) {r : UUID × NormalizedOrder} (hr : r ∈ rs)
    {o : Order} (hlast : lastFor (byBrokerId conn s) r.2.brokerOrderId = some o.idempotencyKey) :
    stampOrder (byBrokerId conn s) rs o = applyOrder r.2 o := by
  have hone : rs.filter (fun r' => lastFor (byBrokerId conn s) r'.2.brokerOrderId =
      some o.idempotencyKey) = [r] := by
    rw [← filter_key_eq_singleton hids hr]
    apply List.filter_congr
    intro r' _
    rw [decide_eq_decide]
    constructor
    · intro h'
      obtain ⟨a, ha, -, hid, -, hak⟩ := of_lastFor_byBrokerId h'
      obtain ⟨b, hb, -, hid', -, hbk⟩ := of_lastFor_byBrokerId hlast
      rw [← hid, ← hid', List.inj_on_of_nodup_map hkeys ha hb (hak.trans hbk.symm)]
    · intro h'
      rw [h']; exact hlast
  unfold stampOrder
  rw [hone]
  rfl

/-- Reports that change nothing, one by one, change nothing together. -/
theorem stampOrder_of_fixed {byId : List (String × String)} {o : Order}
    (h : ∀ r ∈ rs, lastFor byId r.2.brokerOrderId = some o.idempotencyKey → applyOrder r.2 o = o) :
    stampOrder byId rs o = o := by
  unfold stampOrder
  have hfix : ∀ r ∈ rs.filter (fun r => lastFor byId r.2.brokerOrderId = some o.idempotencyKey),
      applyOrder r.2 o = o := by
    intro r hr
    obtain ⟨hmem, hl⟩ := List.mem_filter.mp hr
    exact h r hmem (by simpa using hl)
  generalize rs.filter _ = rows at hfix
  induction rows with
  | nil => rfl
  | cons r rows ih =>
    rw [List.foldl_cons, hfix r (by simp)]
    exact ih fun r' hr' => hfix r' (List.mem_cons_of_mem _ hr')

variable (upper broker) in
/-- The ids of the reports are distinct when those of the response are. -/
theorem orderReports_ids_nodup (cat : Catalog) (hids : (os.map NormalizedOrder.brokerOrderId).Nodup) :
    ((orderReports upper broker cat os).map fun r => r.2.brokerOrderId).Nodup := by
  have hsub : ((orderReports upper broker cat os).map fun r => r.2.brokerOrderId).Sublist
      (os.map NormalizedOrder.brokerOrderId) := by
    have := (map_snd_resolved_sublist (orderLookup upper broker cat) os).map
      NormalizedOrder.brokerOrderId
    rwa [List.map_map] at this
  exact hids.sublist hsub

/-- What the rows inserted for the reports add to the dictionary of the next run. -/
def addedIds (conn : UUID) (byId : List (String × String)) (rs : List (UUID × NormalizedOrder)) :
    List (String × String) :=
  ((newOrders conn byId rs).filter fun o => o.brokerConnectionId = conn ∧ o.brokerOrderId ≠ "").map
    fun o => (o.brokerOrderId, o.idempotencyKey)

theorem map_fst_addedIds_sublist (conn : UUID) (byId : List (String × String)) :
    ((addedIds conn byId rs).map Prod.fst).Sublist (rs.map fun r => r.2.brokerOrderId) := by
  have hadded : ((addedIds conn byId rs).map Prod.fst).Sublist
      ((newOrders conn byId rs).map Order.brokerOrderId) := by
    unfold addedIds
    rw [List.map_map]
    exact List.filter_sublist.map _
  have hnew : (newOrders conn byId rs).map Order.brokerOrderId =
      (newOrderReports byId rs).map fun r => r.2.brokerOrderId := by
    unfold newOrders; rw [List.map_map]; rfl
  rw [hnew] at hadded
  exact hadded.trans (List.filter_sublist.map _)

/-- The dictionary of the next run: the one of this run, then the rows it has added. -/
theorem Synced.byBrokerId_eq (h : Synced upper conn broker now db ps os db₁) :
    byBrokerId conn db₁.toSession = byBrokerId conn db.toSession ++
      addedIds conn (byBrokerId conn db.toSession) (orderReports upper broker db.catalog os) := by
  conv_lhs => unfold byBrokerId
  rw [h.orders_eq, List.filter_append, List.map_append, List.filter_map, List.map_map]
  congr 1
  unfold byBrokerId
  simp [Function.comp_def]

/-- In the next run every report finds a row: the one it found in this run, or the one
    this run has inserted for it. -/
theorem Synced.lastFor_byBrokerId (h : Synced upper conn broker now db ps os db₁)
    (hids : (os.map NormalizedOrder.brokerOrderId).Nodup) (hne : ∀ bo ∈ os, bo.brokerOrderId ≠ "")
    {r : UUID × NormalizedOrder} (hr : r ∈ orderReports upper broker db.catalog os) :
    ∃ key, lastFor (byBrokerId conn db₁.toSession) r.2.brokerOrderId = some key ∧
      (lastFor (byBrokerId conn db.toSession) r.2.brokerOrderId = some key ∨
        lastFor (byBrokerId conn db.toSession) r.2.brokerOrderId = none ∧
          key = colonKey conn r.1 r.2.brokerOrderId) := by
  have hrne : r.2.brokerOrderId ≠ "" := hne r.2 (mem_resolved.mp hr).1
  rw [h.byBrokerId_eq, lastFor_append_list]
  cases hl : lastFor (byBrokerId conn db.toSession) r.2.brokerOrderId with
  | some key =>
    have hnone : lastFor (addedIds conn (byBrokerId conn db.toSession)
        (orderReports upper broker db.catalog os)) r.2.brokerOrderId = none := by
      rw [lastFor_eq_none]
      intro hmem
      obtain ⟨e, he, hid⟩ := List.mem_map.mp hmem
      obtain ⟨o, ho, rfl⟩ := List.mem_map.mp he
      obtain ⟨r', hr', rfl⟩ := List.mem_map.mp (List.mem_of_mem_filter ho)
      have hn : lastFor (byBrokerId conn db.toSession) r'.2.brokerOrderId = none := by
        simpa using (List.mem_filter.mp hr').2
      have hid' : r'.2.brokerOrderId = r.2.brokerOrderId := hid
      rw [hid', hl] at hn
      cases hn
    exact ⟨key, by rw [hnone]; rfl, .inl rfl⟩
  | none =>
    have hnd := (orderReports_ids_nodup upper broker db.catalog hids).sublist
      (map_fst_addedIds_sublist conn (byBrokerId conn db.toSession))
    have hmem : (r.2.brokerOrderId, colonKey conn r.1 r.2.brokerOrderId) ∈
        addedIds conn (byBrokerId conn db.toSession) (orderReports upper broker db.catalog os) := by
      refine List.mem_map.mpr ⟨orderOf conn r.1 r.2, List.mem_filter.mpr ⟨?_, ?_⟩, rfl⟩
      · have hrow : r ∈ newOrderReports (byBrokerId conn db.toSession)
            (orderReports upper broker db.catalog os) := List.mem_filter.mpr ⟨hr, by simpa using hl⟩
        exact List.mem_map_of_mem (f := fun r => orderOf conn r.1 r.2) hrow
      · rw [decide_eq_true_eq]; exact ⟨rfl, hrne⟩
    exact ⟨_, by rw [lastFor_of_mem hnd hmem]; rfl, .inr ⟨rfl, rfl⟩⟩

/-- The next run finds a row for every report. -/
theorem Synced.newOrders_eq_nil (h : Synced upper conn broker now db ps os db₁)
    (hids : (os.map NormalizedOrder.brokerOrderId).Nodup) (hne : ∀ bo ∈ os, bo.brokerOrderId ≠ "") :
    newOrders conn (byBrokerId conn db₁.toSession) (orderReports upper broker db.catalog os) = [] := by
  unfold newOrders newOrderReports
  rw [List.map_eq_nil_iff, List.filter_eq_nil_iff]
  intro r hr
  obtain ⟨key, hkey, -⟩ := h.lastFor_byBrokerId hids hne hr
  simp [hkey]

/-- The next run writes to every row what it holds. -/
theorem Synced.stampOrder_eq (h : Synced upper conn broker now db ps os db₁)
    (hids : (os.map NormalizedOrder.brokerOrderId).Nodup) (hne : ∀ bo ∈ os, bo.brokerOrderId ≠ "")
    {o : Order} (ho : o ∈ db₁.orders) :
    stampOrder (byBrokerId conn db₁.toSession) (orderReports upper broker db.catalog os) o = o := by
  apply stampOrder_of_fixed
  intro r hr hl
  have hrs := orderReports_ids_nodup upper broker db.catalog hids
  have hrne : r.2.brokerOrderId ≠ "" := hne r.2 (mem_resolved.mp hr).1
  obtain ⟨key, hkey, hfound⟩ := h.lastFor_byBrokerId hids hne hr
  obtain rfl : key = o.idempotencyKey := Option.some.inj (hkey.symm.trans hl)
  rw [h.orders_eq] at ho
  rcases List.mem_append.mp ho with ho | ho
  · obtain ⟨o₀, ho₀, rfl⟩ := List.mem_map.mp ho
    rw [stampOrder_idempotencyKey] at hfound
    rcases hfound with hold | ⟨hnone, hnew⟩
    · rw [stampOrder_of_mem db.uq_orders hrs hr hold, applyOrder_applyOrder]
    · rw [o₀.key_eq] at hnew
      obtain ⟨hc, -, hid⟩ := colonKey_injective hnew
      rcases lastFor_byBrokerId_eq_none.mp hnone with he | hall
      · exact absurd he hrne
      · exact absurd hid (hall o₀ ho₀ hc)
  · rcases hfound with hold | ⟨-, hnew⟩
    · exact absurd rfl (newOrders_key_ne hold o ho)
    · obtain ⟨r', hr', rfl⟩ := List.mem_map.mp ho
      obtain ⟨-, -, hid⟩ := colonKey_injective hnew
      obtain rfl : r' = r :=
        List.inj_on_of_nodup_map hrs (List.mem_of_mem_filter hr') hr hid
      exact applyOrder_orderOf r'.1 r'.2

/-- The table after a second run. -/
theorem Synced.orders_twice (h : Synced upper conn broker now db ps os db₁)
    (h' : Synced upper conn broker now' db₁ ps os db₂)
    (hids : (os.map NormalizedOrder.brokerOrderId).Nodup) (hne : ∀ bo ∈ os, bo.brokerOrderId ≠ "") :
    db₂.orders = db₁.orders := by
  have hrep : orderReports upper broker db₁.catalog os = orderReports upper broker db.catalog os :=
    resolved_congr (fun _ => h.reconciled.lookups.find _) os
  rw [h'.orders_eq, hrep, h.newOrders_eq_nil hids hne, List.append_nil]
  conv_rhs => rw [← List.map_id db₁.orders]
  exact List.map_congr_left fun o ho => h.stampOrder_eq hids hne ho

/-! ## Both -/

variable (conn db) in
/-- Orders that resolve or are skipped, with distinct, non-empty ids, are accepted. -/
theorem ordersAccepted_of_ids (hamb : ∀ bo ∈ os, ¬ AmbiguousOrder upper broker db.catalog bo)
    (hids : (os.map NormalizedOrder.brokerOrderId).Nodup) (hne : ∀ bo ∈ os, bo.brokerOrderId ≠ "") :
    OrdersAccepted upper conn broker db (.ok os) := by
  refine ⟨os, rfl, hamb, freshOrderKeys_of_ids ?_ ?_⟩
  · exact (orderReports_ids_nodup upper broker db.catalog hids).sublist (List.filter_sublist.map _)
  · intro hempty
    obtain ⟨r, hr, hid⟩ := List.mem_map.mp hempty
    exact absurd hid (hne r.2 (mem_resolved.mp (List.mem_of_mem_filter hr)).1)

/-- The two halves of a response are accepted again after a sync with them. -/
theorem Synced.accepted_again (h : Synced upper conn broker now db ps os db₁)
    (hps : ∀ bp ∈ ps, ¬ AmbiguousPosition upper broker db.catalog bp)
    (hos : ∀ bo ∈ os, ¬ AmbiguousOrder upper broker db.catalog bo)
    (hids : (os.map NormalizedOrder.brokerOrderId).Nodup) (hne : ∀ bo ∈ os, bo.brokerOrderId ≠ "") :
    PositionsAccepted upper conn broker db₁ (.ok ps) ∧
      OrdersAccepted upper conn broker db₁ (.ok os) := by
  constructor
  · refine ⟨ps, rfl, fun bp hbp hb => hps bp hbp ((h.reconciled.lookups.find _).symm.trans hb), ?_⟩
    unfold newInstruments
    rw [h.reconciled.newReports_eq_nil]
    exact List.nodup_nil
  · exact ordersAccepted_of_ids conn db₁
      (fun bo hbo hb => hos bo hbo ((h.reconciled.lookups.find _).symm.trans hb)) hids hne

/-- What a sync has done when both fetches returned. -/
theorem syncConnection_fetched {sum : SyncSummary}
    (h : syncConnection upper userId conn broker now db ⟨.ok ps, .ok os⟩ = .ok (db₁, sum)) :
    Synced upper conn broker now db ps os db₁ ∧
      sum.positionsClosed = (closedRows upper conn broker db ps).length := by
  obtain ⟨ps', os', hps', hos', hsync, hsum⟩ := syncConnection_eq_ok h
  cases hps'
  cases hos'
  exact ⟨hsync, hsum⟩

/-- Running a sync twice with the same response: both runs return; the second leaves
    the positions but for `as_of`, the orders, and the answer of every lookup as they
    were, closes nothing, and neither adds nor deletes a row. -/
theorem syncConnection_twice (upper : String → String) (userId conn : UUID) (broker : Broker)
    (now now' : Instant) (db : Database) (ps : List NormalizedPosition) (os : List NormalizedOrder)
    (hps : ∀ bp ∈ ps, ¬ AmbiguousPosition upper broker db.catalog bp)
    (hos : ∀ bo ∈ os, ¬ AmbiguousOrder upper broker db.catalog bo)
    (hdistinct : ((reports upper broker db.catalog ps).map Prod.fst).Nodup)
    (hids : (os.map NormalizedOrder.brokerOrderId).Nodup) (hne : ∀ bo ∈ os, bo.brokerOrderId ≠ "") :
    ∃ db₁ sum₁ db₂ sum₂,
      syncConnection upper userId conn broker now db ⟨.ok ps, .ok os⟩ = .ok (db₁, sum₁) ∧
      syncConnection upper userId conn broker now' db₁ ⟨.ok ps, .ok os⟩ = .ok (db₂, sum₂) ∧
      db₂.positions.map Position.eraseAsOf = db₁.positions.map Position.eraseAsOf ∧
      db₂.positions.map Position.key = db₁.positions.map Position.key ∧
      db₂.orders = db₁.orders ∧
      sum₂.positionsClosed = 0 ∧
      (∀ symbol exchange, db₁.catalog.lookup upper broker symbol exchange =
        db.catalog.lookup upper broker symbol exchange) ∧
      ∀ symbol exchange, db₂.catalog.lookup upper broker symbol exchange =
        db₁.catalog.lookup upper broker symbol exchange := by
  have hnew : (newInstruments upper conn broker db ps).Nodup :=
    hdistinct.sublist (List.filter_sublist.map _)
  obtain ⟨⟨db₁, sum₁⟩, hrun₁⟩ := (syncConnection_ok_iff userId now ⟨.ok ps, .ok os⟩).mpr
    ⟨⟨ps, rfl, hps, hnew⟩, ordersAccepted_of_ids conn db hos hids hne⟩
  obtain ⟨h₁, -⟩ := syncConnection_fetched hrun₁
  obtain ⟨⟨db₂, sum₂⟩, hrun₂⟩ := (syncConnection_ok_iff userId now' ⟨.ok ps, .ok os⟩).mpr
    (h₁.accepted_again hps hos hids hne)
  obtain ⟨h₂, hsum⟩ := syncConnection_fetched hrun₂
  refine ⟨db₁, sum₁, db₂, sum₂, hrun₁, hrun₂, ?_, ?_, ?_, ?_, ?_, ?_⟩
  · exact h₁.reconciled.erase_asOf h₂.reconciled hdistinct
  · exact h₁.reconciled.keys_eq h₂.reconciled
  · exact h₁.orders_twice h₂ hids hne
  · rw [hsum, h₁.reconciled.closedRows_eq_nil]; rfl
  · exact fun _ _ => h₁.reconciled.lookups.find _
  · exact fun _ _ => h₂.reconciled.lookups.find _

/-- One position and two orders of an instrument with one listing, into an empty
    database: the first run infers a mapping, the second reads it. -/
theorem syncConnection_twice_sample :
    ∃ db₁ sum₁ db₂ sum₂,
      syncConnection String.toUpper 1 7 .alpaca 60 sampleDatabase
        ⟨.ok [sampleRow "AAPL" 10], .ok [sampleOrder "a" "AAPL", sampleOrder "b" "AAPL"]⟩ =
          .ok (db₁, sum₁) ∧
      syncConnection String.toUpper 1 7 .alpaca 120 db₁
        ⟨.ok [sampleRow "AAPL" 10], .ok [sampleOrder "a" "AAPL", sampleOrder "b" "AAPL"]⟩ =
          .ok (db₂, sum₂) ∧
      db₂.positions.map Position.eraseAsOf = db₁.positions.map Position.eraseAsOf ∧
      db₂.positions.map Position.key = db₁.positions.map Position.key ∧
      db₂.orders = db₁.orders ∧
      sum₂.positionsClosed = 0 ∧
      (∀ symbol exchange, db₁.catalog.lookup String.toUpper .alpaca symbol exchange =
        sampleDatabase.catalog.lookup String.toUpper .alpaca symbol exchange) ∧
      ∀ symbol exchange, db₂.catalog.lookup String.toUpper .alpaca symbol exchange =
        db₁.catalog.lookup String.toUpper .alpaca symbol exchange :=
  syncConnection_twice String.toUpper 1 7 .alpaca 60 120 sampleDatabase [sampleRow "AAPL" 10]
    [sampleOrder "a" "AAPL", sampleOrder "b" "AAPL"] (by decide +kernel) (by decide +kernel)
    (by decide +kernel) (by decide +kernel) (by decide +kernel)

end Nivara.Portfolio
