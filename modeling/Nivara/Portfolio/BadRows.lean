import Nivara.Portfolio.SyncConnection

/-!
# Rows that do not resolve

A row of a response is bad when the catalog has no instrument for its symbol or when several
match. Both loops catch `SymbolNotMappedError`, which the first kind raises, and skip the row
with a warning. The second kind raises `MultipleResultsFound`, which no loop catches.

Results:

* `Catalog.ambiguous_iff`: when a lookup is ambiguous.
* `syncPositions_goodPositions`, `syncOrders_goodOrders`: without an ambiguous row each half
  does what it does without the bad rows.
* `skipsBadRows_iff`: when the bad rows of a response are skipped.
* `ambiguous_row_aborts`: a symbol with two listings aborts the sync.
-/

namespace Nivara.Portfolio

open Loop

/-! ## Bad rows -/

section Model

/-- Several rows match the key: several mappings, or, without a mapping, several instruments. -/
def Catalog.SeveralMatch (cat : Catalog) (upper : String → String) (k : LookupKey) : Prop :=
  1 < (cat.mappingsFor k).length ∨ cat.mappingsFor k = [] ∧ 1 < (cat.candidates upper k).length

variable (upper : String → String) (userId conn : UUID) (broker : Broker) (now : Instant)

/-- The key of a reported position. -/
def positionKey (bp : NormalizedPosition) : LookupKey := lookupKey upper broker bp.brokerSymbol bp.exchange

/-- The key of a reported order. -/
def orderKey (bo : NormalizedOrder) : LookupKey := lookupKey upper broker bo.brokerSymbol none

/-- The rows that resolve. -/
def goodPositions (cat : Catalog) (ps : List NormalizedPosition) : List NormalizedPosition :=
  ps.filter fun bp => (positionLookup upper broker cat bp).isOk

/-- The rows that do not. -/
def badPositions (cat : Catalog) (ps : List NormalizedPosition) : List NormalizedPosition :=
  ps.filter fun bp => !(positionLookup upper broker cat bp).isOk

/-- The orders that resolve. -/
def goodOrders (cat : Catalog) (os : List NormalizedOrder) : List NormalizedOrder :=
  os.filter fun bo => (orderLookup upper broker cat bo).isOk

/-- The orders that do not. -/
def badOrders (cat : Catalog) (os : List NormalizedOrder) : List NormalizedOrder :=
  os.filter fun bo => !(orderLookup upper broker cat bo).isOk

/-- A sync that returns without the bad rows returns with them. It leaves the tables and the
    counts it would leave without them, counts the bad positions as skipped, and has one warning
    for each bad row. -/
def SkipsBadRows (db : Database) (ps : List NormalizedPosition) (os : List NormalizedOrder) : Prop :=
  ∀ db₁ sum₁, syncConnection upper userId conn broker now db
      ⟨.ok (goodPositions upper broker db.catalog ps), .ok (goodOrders upper broker db.catalog os)⟩ =
        .ok (db₁, sum₁) →
    ∃ db₂ sum₂, syncConnection upper userId conn broker now db ⟨.ok ps, .ok os⟩ = .ok (db₂, sum₂) ∧
      db₂.catalog = db₁.catalog ∧ db₂.positions = db₁.positions ∧ db₂.orders = db₁.orders ∧
      sum₂ = { sum₁ with
        positionsSkipped := (badPositions upper broker db.catalog ps).length
        warnings := sum₂.warnings } ∧
      List.Forall₂ (fun bad warning => ∃ message, warning = bad message)
        ((badPositions upper broker db.catalog ps).map unmappedWarning ++
          (badOrders upper broker db.catalog os).map unmappedOrderWarning) sum₂.warnings

end Model

variable {upper : String → String} {userId conn : UUID} {broker : Broker} {now : Instant}
  {db db' : Database} {cat : Catalog} {ps : List NormalizedPosition} {os : List NormalizedOrder}

/-- A lookup is ambiguous when several rows match. -/
theorem Catalog.ambiguous_iff {k : LookupKey} : cat.Ambiguous upper k ↔ cat.SeveralMatch upper k := by
  unfold Ambiguous SeveralMatch Catalog.find
  rcases hm : cat.mappingsFor k with _ | ⟨m, _ | ⟨m', l⟩⟩
  · rw [Catalog.resolve_of_unmapped hm]
    rcases cat.candidates upper k with _ | ⟨i, _ | ⟨i', l⟩⟩ <;> simp [Except.map]
  · obtain ⟨i, -, -, hr⟩ := Catalog.resolve_of_mapped upper hm
    simp [hr, Except.map]
  · simp [Catalog.resolve_of_several hm, Except.map]

theorem ambiguousPosition_iff {bp : NormalizedPosition} :
    AmbiguousPosition upper broker cat bp ↔ cat.SeveralMatch upper (positionKey upper broker bp) :=
  Catalog.ambiguous_iff

theorem ambiguousOrder_iff {bo : NormalizedOrder} :
    AmbiguousOrder upper broker cat bo ↔ cat.SeveralMatch upper (orderKey upper broker bo) :=
  Catalog.ambiguous_iff

section Rows

variable {β : Type} {look : β → Except ResolveError Instrument} {l : List β}

/-- A bad row is not among those that resolve. -/
theorem resolved_filter_isOk (l : List β) : resolved look (l.filter fun b => (look b).isOk) = resolved look l := by
  unfold resolved
  rw [List.filterMap_filter]
  apply List.filterMap_congr
  intro b _
  cases look b <;> rfl

/-- Without an ambiguous row the bad rows are those that are not mapped. -/
theorem unmapped_fst (h : ∀ b ∈ l, look b ≠ .error .multipleResultsFound) :
    (unmapped look l).map Prod.fst = l.filter fun b => !(look b).isOk := by
  induction l with
  | nil => rfl
  | cons b l ih =>
    have ih := ih fun a ha => h a (List.mem_cons_of_mem _ ha)
    have hb := h b (by simp)
    unfold unmapped at ih ⊢
    rw [List.filterMap_cons]
    rcases hr : look b with (message | _) | i
    · simpa [List.filter_cons, hr, Except.toBool] using ih
    · exact absurd hr hb
    · simpa [List.filter_cons, hr, Except.toBool] using ih

theorem forall₂_unmapped {warning : β → String → String} (l : List (β × String)) :
    List.Forall₂ (fun bad w => ∃ message, w = bad message) ((l.map Prod.fst).map warning)
      (l.map fun r => warning r.1 r.2) := by
  rw [List.map_map, List.forall₂_map_left_iff, List.forall₂_map_right_iff, List.forall₂_same]
  exact fun r _ => ⟨r.2, rfl⟩

end Rows

/-! ## The positions -/

/-- What a round of the loop reads and what the rest of the sync reads. -/
def PositionLoop.view (st : PositionLoop) : Session × List UUID × ℕ := (st.session, st.seen, st.upserted)

theorem positionStep_view {existing : List UUID} (s t : PositionLoop) (bp : NormalizedPosition)
    (h : s.view = t.view) :
    (positionStep upper conn broker now existing s bp).map PositionLoop.view =
      (positionStep upper conn broker now existing t bp).map PositionLoop.view := by
  obtain ⟨session, seen, upserted, skipped, warnings⟩ := s
  obtain ⟨session', seen', upserted', skipped', warnings'⟩ := t
  cases h
  unfold positionStep
  rcases normalizeSymbol upper session broker bp.brokerSymbol bp.exchange with (_ | _ | _ | _) | _ <;> rfl

theorem positionStep_lookups {existing : List UUID} {s t : PositionLoop} {bp : NormalizedPosition}
    (hsame : Catalog.SameLookups upper cat s.session.catalog)
    (h : positionStep upper conn broker now existing s bp = .ok t) :
    Catalog.SameLookups upper cat t.session.catalog := by
  rcases hr : positionLookup upper broker s.session.catalog bp with (message | _) | i
  · rw [positionStep_of_unmapped hr] at h
    cases h
    exact hsame
  · rw [positionStep_of_ambiguous hr] at h
    cases h
  · rcases positionStep_of_mapped conn now existing hr with ⟨cat', hsame', h'⟩ | ⟨e, -, h'⟩
    · rw [h'] at h
      cases h
      refine hsame.trans ?_
      unfold upsertPosition
      split_ifs <;> exact hsame'
    · rw [h'] at h
      cases h

variable (conn now) in
/-- The position half does what it does without the bad rows. -/
theorem syncPositions_goodPositions (hamb : ∀ bp ∈ ps, ¬ AmbiguousPosition upper broker db.catalog bp) :
    (syncPositions upper conn broker now db ps).map (fun r => (r.1, r.2.upserted, r.2.closed)) =
      (syncPositions upper conn broker now db (goodPositions upper broker db.catalog ps)).map
        fun r => (r.1, r.2.upserted, r.2.closed) := by
  have hloop := foldlM_filter (positionStep upper conn broker now (existingInstruments conn db.toSession))
    PositionLoop.view (fun bp => (positionLookup upper broker db.catalog bp).isOk)
    (fun st => Catalog.SameLookups upper db.catalog st.session.catalog)
    positionStep_view (fun _ _ _ hsame h => positionStep_lookups hsame h) (l := ps) ?_
    (s := ⟨db.toSession, [], 0, 0, []⟩) (.refl db.catalog) rfl
  · unfold syncPositions
    refine map_bind_congr hloop ?_
    intro st st' hview
    obtain ⟨session, seen, upserted, skipped, warnings⟩ := st
    obtain ⟨session', seen', upserted', skipped', warnings'⟩ := st'
    cases hview
    rcases (existingInstruments conn db.toSession).foldl (closeMissing conn now seen)
      (session.positions, 0) with ⟨rows, closed⟩
    simp only [bind, Except.bind]
    cases ({ session with positions := rows } : Session).flush <;> rfl
  · intro st bp hbp hsame hbad
    have hlook : positionLookup upper broker st.session.catalog bp = positionLookup upper broker db.catalog bp :=
      hsame.find _
    rcases hr : positionLookup upper broker db.catalog bp with (message | _) | i
    · exact ⟨_, positionStep_of_unmapped (hlook.trans hr), rfl⟩
    · exact absurd hr (hamb bp hbp)
    · rw [hr] at hbad
      cases hbad

/-! ## The orders -/

/-- What a round of the loop reads and what the rest of the sync reads. -/
def OrderLoop.view (st : OrderLoop) : Session × ℕ := (st.session, st.upserted)

theorem orderStep_view {byId : List (String × String)} (s t : OrderLoop) (bo : NormalizedOrder)
    (h : s.view = t.view) :
    (orderStep upper conn broker byId s bo).map OrderLoop.view =
      (orderStep upper conn broker byId t bo).map OrderLoop.view := by
  obtain ⟨session, upserted, warnings⟩ := s
  obtain ⟨session', upserted', warnings'⟩ := t
  cases h
  unfold orderStep
  rcases normalizeSymbol upper session broker bo.brokerSymbol none with (_ | _ | _ | _) | _ <;> rfl

theorem orderStep_lookups {byId : List (String × String)} {s t : OrderLoop} {bo : NormalizedOrder}
    (hsame : Catalog.SameLookups upper cat s.session.catalog)
    (h : orderStep upper conn broker byId s bo = .ok t) :
    Catalog.SameLookups upper cat t.session.catalog := by
  rcases hr : orderLookup upper broker s.session.catalog bo with (message | _) | i
  · rw [orderStep_of_unmapped hr] at h
    cases h
    exact hsame
  · rw [orderStep_of_ambiguous hr] at h
    cases h
  · rcases orderStep_of_mapped conn byId hr with ⟨cat', hsame', h'⟩ | ⟨e, -, h'⟩
    · rw [h'] at h
      cases h
      refine hsame.trans ?_
      unfold upsertOrder
      split <;> exact hsame'
    · rw [h'] at h
      cases h

variable (conn) in
/-- The order half does what it does without the bad rows. The lookups may be those before the
    position half. -/
theorem syncOrders_goodOrders (hsame : Catalog.SameLookups upper cat db.catalog)
    (hamb : ∀ bo ∈ os, ¬ AmbiguousOrder upper broker cat bo) :
    (syncOrders upper conn broker db os).map (fun r => (r.1, r.2.upserted)) =
      (syncOrders upper conn broker db (goodOrders upper broker cat os)).map
        fun r => (r.1, r.2.upserted) := by
  have hloop := foldlM_filter (orderStep upper conn broker (byBrokerId conn db.toSession))
    OrderLoop.view (fun bo => (orderLookup upper broker cat bo).isOk)
    (fun st => Catalog.SameLookups upper cat st.session.catalog)
    orderStep_view (fun _ _ _ hsame h => orderStep_lookups hsame h) (l := os) ?_
    (s := ⟨db.toSession, 0, []⟩) hsame rfl
  · unfold syncOrders
    refine map_bind_congr hloop ?_
    intro st st' hview
    obtain ⟨session, upserted, warnings⟩ := st
    obtain ⟨session', upserted', warnings'⟩ := st'
    cases hview
    simp only [bind, Except.bind]
    cases session.flush <;> rfl
  · intro st bo hbo hsame hbad
    have hlook : orderLookup upper broker st.session.catalog bo = orderLookup upper broker cat bo :=
      hsame.find _
    rcases hr : orderLookup upper broker cat bo with (message | _) | i
    · exact ⟨_, orderStep_of_unmapped (hlook.trans hr), rfl⟩
    · exact absurd hr (hamb bo hbo)
    · rw [hr] at hbad
      cases hbad

/-! ## The sync -/

variable (userId) in
/-- A sync of two responses, by its halves. -/
theorem syncConnection_of_halves {d e : Database} {p : PositionsResult} {o : OrdersResult}
    (hp : syncPositions upper conn broker now db ps = .ok (d, p))
    (ho : syncOrders upper conn broker d os = .ok (e, o)) :
    ∃ entry, syncConnection upper userId conn broker now db ⟨.ok ps, .ok os⟩ = .ok (e.record entry,
      ⟨conn, now, p.upserted, p.closed, o.upserted, p.skipped, p.warnings ++ o.warnings⟩) := by
  refine ⟨⟨userId, conn, broker, p.upserted, p.closed, p.skipped, o.upserted,
    p.warnings ++ o.warnings, now⟩, ?_⟩
  simp [syncConnection, fetched, bind, Except.bind, hp, ho, pure, Except.pure]

theorem halves_of_syncConnection {sum : SyncSummary}
    (h : syncConnection upper userId conn broker now db ⟨.ok ps, .ok os⟩ = .ok (db', sum)) :
    ∃ d e p o entry, syncPositions upper conn broker now db ps = .ok (d, p) ∧
      syncOrders upper conn broker d os = .ok (e, o) ∧ db' = e.record entry ∧
      sum = ⟨conn, now, p.upserted, p.closed, o.upserted, p.skipped, p.warnings ++ o.warnings⟩ := by
  obtain ⟨ps', os', d, e, p, o, entry, hps, hos, hp, ho, -, -⟩ := of_syncConnection_eq_ok h
  cases hps
  cases hos
  obtain ⟨entry', hok⟩ := syncConnection_of_halves userId hp ho
  rw [hok] at h
  obtain ⟨hdb, hsum⟩ := Prod.mk.inj (Except.ok.inj h)
  exact ⟨d, e, p, o, entry', hp, ho, hdb.symm, hsum.symm⟩

theorem newInstruments_goodPositions :
    newInstruments upper conn broker db (goodPositions upper broker db.catalog ps) =
      newInstruments upper conn broker db ps := by
  unfold newInstruments reports goodPositions
  rw [resolved_filter_isOk]

theorem freshOrderKeys_goodOrders :
    FreshOrderKeys upper conn broker db (goodOrders upper broker db.catalog os) ↔
      FreshOrderKeys upper conn broker db os := by
  unfold FreshOrderKeys newOrderKeys newOrderRows orderReports goodOrders
  rw [resolved_filter_isOk]

/-- Without an ambiguous row the bad rows are skipped. -/
theorem skipsBadRows_of_unambiguous (hamb : ∀ bp ∈ ps, ¬ AmbiguousPosition upper broker db.catalog bp)
    (hambo : ∀ bo ∈ os, ¬ AmbiguousOrder upper broker db.catalog bo) :
    SkipsBadRows upper userId conn broker now db ps os := by
  intro db₁ sum₁ h
  obtain ⟨d, e, p, o, entry, hp, ho, rfl, rfl⟩ := halves_of_syncConnection h
  have hpview := syncPositions_goodPositions conn now hamb
  rw [hp] at hpview
  obtain ⟨⟨d', p'⟩, hp', hpview⟩ := of_map_eq_ok hpview
  simp only [Prod.mk.injEq] at hpview
  obtain ⟨rfl, hpu, hpc⟩ := hpview
  obtain ⟨-, -, rfl, hsync⟩ := syncPositions_eq_ok hp'
  have hoview := syncOrders_goodOrders conn hsync.lookups hambo
  rw [ho] at hoview
  obtain ⟨⟨e', o'⟩, ho', hoview⟩ := of_map_eq_ok hoview
  simp only [Prod.mk.injEq] at hoview
  obtain ⟨rfl, hou⟩ := hoview
  obtain ⟨-, -, rfl, -⟩ := syncOrders_eq_ok ho'
  obtain ⟨entry', hfull⟩ := syncConnection_of_halves userId hp' ho'
  have hbad : badPositions upper broker db.catalog ps =
      (unmapped (positionLookup upper broker db.catalog) ps).map Prod.fst := (unmapped_fst hamb).symm
  have hbado : badOrders upper broker db.catalog os =
      (unmapped (orderLookup upper broker db.catalog) os).map Prod.fst := (unmapped_fst hambo).symm
  refine ⟨e'.record entry', _, hfull, rfl, rfl, rfl, ?_, ?_⟩
  · rw [hbad, ← hpu, ← hpc, ← hou]
    simp [positionsResult, unmappedWarnings]
  · rw [hbad, hbado]
    refine List.rel_append (forall₂_unmapped _) ?_
    rw [show (ordersResult upper broker d' os).warnings =
      (unmapped (orderLookup upper broker db.catalog) os).map (fun r => unmappedOrderWarning r.1 r.2) by
        unfold ordersResult unmappedOrderWarnings
        rw [hsync.orderLookup]]
    exact forall₂_unmapped _

/-- The bad rows of a response are skipped exactly when for none of them several rows match, or
    when the response is refused without them too: it has two rows for an instrument without a
    stored position, or an order whose key exists. -/
theorem skipsBadRows_iff (upper : String → String) (userId conn : UUID) (broker : Broker) (now : Instant)
    (db : Database) (ps : List NormalizedPosition) (os : List NormalizedOrder) :
    SkipsBadRows upper userId conn broker now db ps os ↔
      ((∀ bp ∈ ps, ¬ db.catalog.SeveralMatch upper (positionKey upper broker bp)) ∧
        ∀ bo ∈ os, ¬ db.catalog.SeveralMatch upper (orderKey upper broker bo)) ∨
      ¬ (newInstruments upper conn broker db ps).Nodup ∨ ¬ FreshOrderKeys upper conn broker db os := by
  simp only [← ambiguousPosition_iff, ← ambiguousOrder_iff]
  constructor
  · intro h
    by_contra hcond
    push Not at hcond
    obtain ⟨hamb, hnd, hfresh⟩ := hcond
    have hgood : ∃ r, syncConnection upper userId conn broker now db
        ⟨.ok (goodPositions upper broker db.catalog ps), .ok (goodOrders upper broker db.catalog os)⟩ = .ok r := by
      refine (syncConnection_ok_iff userId now _).mpr ⟨⟨_, rfl, ?_, ?_⟩, ⟨_, rfl, ?_, ?_⟩⟩
      · intro bp hbp hb
        have hok := (List.mem_filter.mp hbp).2
        rw [show positionLookup upper broker db.catalog bp = _ from hb] at hok
        cases hok
      · rw [newInstruments_goodPositions]
        exact hnd
      · intro bo hbo hb
        have hok := (List.mem_filter.mp hbo).2
        rw [show orderLookup upper broker db.catalog bo = _ from hb] at hok
        cases hok
      · exact freshOrderKeys_goodOrders.mpr hfresh
    obtain ⟨⟨db₁, sum₁⟩, hok⟩ := hgood
    obtain ⟨db₂, sum₂, hfull, -⟩ := h db₁ sum₁ hok
    obtain ⟨⟨ps', hps, hambp, -⟩, ⟨os', hos, hambo, -⟩⟩ := (syncConnection_ok_iff userId now _).mp ⟨_, hfull⟩
    cases hps
    cases hos
    obtain ⟨bo, hbo, hb⟩ := hamb hambp
    exact hambo bo hbo hb
  · rintro (⟨hamb, hambo⟩ | hrefused)
    · exact skipsBadRows_of_unambiguous hamb hambo
    · intro db₁ sum₁ hok
      obtain ⟨⟨ps', hps, -, hnd⟩, ⟨os', hos, -, hfresh⟩⟩ := (syncConnection_ok_iff userId now _).mp ⟨_, hok⟩
      cases hps
      cases hos
      rw [newInstruments_goodPositions] at hnd
      rw [freshOrderKeys_goodOrders] at hfresh
      exact absurd hrefused (by simp [hnd, hfresh])

/-- `SHEL` is listed on two exchanges, and the broker names none. -/
theorem ambiguous_row_aborts :
    ¬ ∀ (db : Database) (ps : List NormalizedPosition) (os : List NormalizedOrder),
      SkipsBadRows id 1 7 .alpaca 60 db ps os := by
  intro h
  have hgood : (syncConnection id 1 7 .alpaca 60 sampleDatabase
      ⟨.ok (goodPositions id .alpaca sampleCatalog [sampleRow "AAPL" 1, sampleRow "SHEL" 1]),
        .ok (goodOrders id .alpaca sampleCatalog [])⟩).toOption.isSome := by decide +kernel
  obtain ⟨⟨db₁, sum₁⟩, hsome⟩ := Option.isSome_iff_exists.mp hgood
  obtain ⟨db₂, sum₂, hfull, -⟩ := h sampleDatabase [sampleRow "AAPL" 1, sampleRow "SHEL" 1] [] db₁ sum₁
    (eq_ok_of_toOption hsome)
  have hnone : (syncConnection id 1 7 .alpaca 60 sampleDatabase
      ⟨.ok [sampleRow "AAPL" 1, sampleRow "SHEL" 1], .ok []⟩).toOption.isNone := by decide +kernel
  rw [hfull] at hnone
  cases hnone

end Nivara.Portfolio
