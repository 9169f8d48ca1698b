import Nivara.Portfolio.SyncPositions

/-!
# What `_sync_positions` leaves behind

The table of positions read as one `Book` for each connection: the row of each
instrument. On that view `_sync_positions` is `reconcile`: reported rows replace,
rows that were not reported are closed.

Results:

* `PositionsReconciled.book`: the call refines `reconcile`; `PositionsReconciled.book_of_ne`:
  it leaves the books of the other connections alone.
* `syncPositions_totals_iff`: when the stored quantity of every reported
  instrument is the total of the broker's rows for it.
* `syncPositions_reconciles_iff`: the whole postcondition, for a response with
  one row for each instrument.
-/

namespace Nivara.Portfolio

open Keyed Reconcile

/-! ## The table as a book -/

/-- The row of each instrument of a connection. -/
def Session.book (s : Session) (conn : UUID) : Book UUID Position := fun inst =>
  s.positions.find? fun p => p.key = (conn, inst)

/-- The rows the reports stand for. Of several reports for one instrument the last
    counts. -/
def reportedBook (conn : UUID) (now : Instant) (rs : List (UUID × NormalizedPosition)) :
    Book UUID Position := fun inst => (lastFor rs inst).map (positionOf conn now inst)

variable {upper : String → String} {conn : UUID} {broker : Broker} {now : Instant}
  {db db' : Database} {l : List NormalizedPosition} {rs : List (UUID × NormalizedPosition)}

theorem Session.book_eq_none {s : Session} {inst : UUID} :
    s.book conn inst = none ↔ ∀ p ∈ s.positions, p.key ≠ (conn, inst) := by
  simp [Session.book]

/-- The unique constraint makes the row with a key the one of the book. -/
theorem Database.book_eq_some {inst : UUID} {p : Position} :
    db.book conn inst = some p ↔ p ∈ db.positions ∧ p.key = (conn, inst) := by
  constructor
  · intro h
    exact ⟨List.mem_of_find?_eq_some h, by simpa using List.find?_some h⟩
  · rintro ⟨hp, hk⟩
    have hone := filter_key_eq_singleton db.uq_positions hp
    rw [hk] at hone
    exact find?_of_filter_key hone

/-- The rows of a key, as the book has them. -/
theorem Database.filter_key_of_book {inst : UUID} {p : Position}
    (h : db.book conn inst = some p) : db.positions.filter (fun q => q.key = (conn, inst)) = [p] := by
  obtain ⟨hp, hk⟩ := Database.book_eq_some.mp h
  rw [← hk]
  exact filter_key_eq_singleton db.uq_positions hp

theorem reconcileRow_of_reported {p : Position} {bp : NormalizedPosition}
    (hc : p.brokerConnectionId = conn) (h : lastFor rs p.instrumentId = some bp) :
    reconcileRow conn now rs p = positionOf conn now p.instrumentId bp := by
  unfold reconcileRow; rw [if_pos hc, h]

theorem reconcileRow_of_not_reported {p : Position}
    (hc : p.brokerConnectionId = conn) (h : lastFor rs p.instrumentId = none) :
    reconcileRow conn now rs p = closeRow now p := by
  unfold reconcileRow; rw [if_pos hc, h]

theorem reconcileRow_of_ne {p : Position} (hc : p.brokerConnectionId ≠ conn) :
    reconcileRow conn now rs p = p := by
  unfold reconcileRow; rw [if_neg hc]

namespace PositionsReconciled

variable (h : PositionsReconciled upper conn broker now db l db')

include h

theorem mem_iff {q : Position} : q ∈ db'.positions ↔
    (∃ p ∈ db.positions, reconcileRow conn now (reports upper broker db.catalog l) p = q) ∨
      q ∈ newRows conn now (existingInstruments conn db.toSession)
        (reports upper broker db.catalog l) := by
  rw [h.positions, List.mem_append, List.mem_map]

/-- A reported instrument has the row of its last report. -/
theorem mem_of_reported {inst : UUID} {bp : NormalizedPosition}
    (hr : lastFor (reports upper broker db.catalog l) inst = some bp) :
    positionOf conn now inst bp ∈ db'.positions := by
  rw [h.mem_iff]
  by_cases hex : inst ∈ existingInstruments conn db.toSession
  · obtain ⟨p, hp, hk⟩ := mem_existingInstruments.mp hex
    obtain ⟨hc, hi⟩ := key_eq_iff.mp hk
    subst hi
    exact .inl ⟨p, hp, reconcileRow_of_reported hc hr⟩
  · refine .inr (List.mem_map_of_mem (f := fun r => positionOf conn now r.1 r.2) (a := (inst, bp)) ?_)
    exact List.mem_filter.mpr ⟨mem_of_lastFor hr, by simpa using hex⟩

/-- A row that was not reported is closed. -/
theorem mem_of_not_reported {p : Position} (hp : p ∈ db.positions)
    (hc : p.brokerConnectionId = conn)
    (hr : lastFor (reports upper broker db.catalog l) p.instrumentId = none) :
    closeRow now p ∈ db'.positions :=
  h.mem_iff.mpr (.inl ⟨p, hp, reconcileRow_of_not_reported hc hr⟩)

/-- Every row of the connection is the row of a report or a closed row. -/
theorem of_mem {q : Position} (hq : q ∈ db'.positions) (hc : q.brokerConnectionId = conn) :
    (∃ bp, (q.instrumentId, bp) ∈ reports upper broker db.catalog l ∧
      q = positionOf conn now q.instrumentId bp) ∨
    ∃ p ∈ db.positions, p.brokerConnectionId = conn ∧
      lastFor (reports upper broker db.catalog l) p.instrumentId = none ∧ q = closeRow now p := by
  rcases h.mem_iff.mp hq with ⟨p, hp, rfl⟩ | hnew
  · have hpc : p.brokerConnectionId = conn := by
      rw [← (Prod.mk.inj (reconcileRow_key p)).1]; exact hc
    cases hl : lastFor (reports upper broker db.catalog l) p.instrumentId with
    | none => exact .inr ⟨p, hp, hpc, hl, reconcileRow_of_not_reported hpc hl⟩
    | some bp =>
      rw [reconcileRow_of_reported hpc hl]
      exact .inl ⟨bp, mem_of_lastFor hl, rfl⟩
  · obtain ⟨r, hr, rfl⟩ := List.mem_map.mp hnew
    exact .inl ⟨r.2, (List.mem_filter.mp hr).1, rfl⟩

/-- `_sync_positions` refines `reconcile` on the book of the connection. -/
theorem book : db'.book conn = reconcile (closeRow now)
    (reportedBook conn now (reports upper broker db.catalog l)) (db.book conn) := by
  funext inst
  cases hl : lastFor (reports upper broker db.catalog l) inst with
  | some bp =>
    have hrep : reportedBook conn now (reports upper broker db.catalog l) inst =
        some (positionOf conn now inst bp) := by simp [reportedBook, hl]
    rw [reconcile_of_reported hrep]
    exact Database.book_eq_some.mpr ⟨h.mem_of_reported hl, rfl⟩
  | none =>
    have hrep : reportedBook conn now (reports upper broker db.catalog l) inst = none := by
      simp [reportedBook, hl]
    rw [reconcile_of_not_reported hrep]
    cases hb : db.book conn inst with
    | some p =>
      obtain ⟨hp, hk⟩ := Database.book_eq_some.mp hb
      obtain ⟨hc, rfl⟩ := key_eq_iff.mp hk
      exact Database.book_eq_some.mpr ⟨h.mem_of_not_reported hp hc hl, hk⟩
    | none =>
      rw [Option.map_none, Session.book_eq_none]
      intro q hq hk
      obtain ⟨hc, rfl⟩ := key_eq_iff.mp hk
      rcases h.of_mem hq hc with ⟨bp, hbp, -⟩ | ⟨p, hp, hpc, -, rfl⟩
      · exact lastFor_eq_none.mp hl (List.mem_map_of_mem (f := Prod.fst) hbp)
      · exact Session.book_eq_none.mp hb p hp hk

/-- The rows of the other connections stay, in their order. -/
theorem filter_ne :
    db'.positions.filter (fun p => p.brokerConnectionId ≠ conn) =
      db.positions.filter fun p => p.brokerConnectionId ≠ conn := by
  have hnew : (newRows conn now (existingInstruments conn db.toSession)
      (reports upper broker db.catalog l)).filter (fun p => p.brokerConnectionId ≠ conn) = [] := by
    rw [List.filter_eq_nil_iff]
    intro q hq
    obtain ⟨r, -, rfl⟩ := List.mem_map.mp hq
    simp [positionOf]
  have hconn : ∀ p, (reconcileRow conn now (reports upper broker db.catalog l) p).brokerConnectionId =
      p.brokerConnectionId := fun p => (Prod.mk.inj (reconcileRow_key p)).1
  rw [h.positions, List.filter_append, hnew, List.append_nil, List.filter_map]
  conv_rhs => rw [← List.map_id (db.positions.filter _)]
  simp only [Function.comp_def, hconn]
  apply List.map_congr_left
  intro p hp
  exact reconcileRow_of_ne (by simpa using (List.mem_filter.mp hp).2)

/-- The books of the other connections stay. -/
theorem book_of_ne {conn' : UUID} (hne : conn' ≠ conn) : db'.book conn' = db.book conn' := by
  have hmem : ∀ (s : Session) (inst : UUID), s.book conn' inst =
      (s.positions.filter fun p => p.brokerConnectionId ≠ conn).find?
        fun p => p.key = (conn', inst) := by
    intro s inst
    rw [List.find?_filter]
    unfold Session.book
    congr 1
    funext p
    by_cases hk : p.key = (conn', inst)
    · have hc : p.brokerConnectionId ≠ conn := (Prod.mk.inj hk).1 ▸ hne
      simp [hk, hc]
    · simp [hk]
  funext inst
  rw [hmem db'.toSession, hmem db.toSession, h.filter_ne]

/-- A measure of the rows of the connection that ignores closed rows is the sum over
    the reports, when each instrument has one. -/
theorem sum_eq (hdistinct : ((reports upper broker db.catalog l).map Prod.fst).Nodup)
    {f : Position → ℚ} (hf : ∀ p, p.quantity = 0 → f p = 0) :
    ((db'.positions.filter fun p => p.brokerConnectionId = conn).map f).sum =
      ((reports upper broker db.catalog l).map fun r => f (positionOf conn now r.1 r.2)).sum := by
  set rows := db'.positions.filter fun p => p.brokerConnectionId = conn with hrows
  have hrow : ∀ p ∈ rows, p ∈ db'.positions ∧ p.brokerConnectionId = conn := by
    intro p hp
    simpa [hrows] using hp
  -- the reported rows, in some order, and the closed ones
  have hreported : (rows.filter fun p =>
      p.instrumentId ∈ (reports upper broker db.catalog l).map Prod.fst).Perm
        ((reports upper broker db.catalog l).map fun r => positionOf conn now r.1 r.2) := by
    rw [List.perm_ext_iff_of_nodup]
    · intro q
      rw [List.mem_filter, decide_eq_true_eq]
      constructor
      · rintro ⟨hq, hin⟩
        obtain ⟨hqm, hqc⟩ := hrow q hq
        rcases h.of_mem hqm hqc with ⟨bp, hbp, heq⟩ | ⟨p, -, -, hnone, rfl⟩
        · rw [heq]
          exact List.mem_map_of_mem (f := fun r => positionOf conn now r.1 r.2) hbp
        · exact absurd hin (lastFor_eq_none.mp hnone)
      · intro hq
        obtain ⟨r, hr, rfl⟩ := List.mem_map.mp hq
        have hmem := h.mem_of_reported (lastFor_of_mem hdistinct (k := r.1) (b := r.2) hr)
        exact ⟨List.mem_filter.mpr ⟨hmem, by simp [positionOf]⟩,
          List.mem_map_of_mem (f := Prod.fst) hr⟩
    · exact (db'.uq_positions.of_map.filter _).filter _
    · refine List.Nodup.map_on ?_ hdistinct.of_map
      intro a ha b hb hab
      have hinst : a.1 = b.1 := congrArg Position.instrumentId hab
      exact List.inj_on_of_nodup_map hdistinct ha hb hinst
  have hclosed : ((rows.filter fun p =>
      ¬ p.instrumentId ∈ (reports upper broker db.catalog l).map Prod.fst).map f).sum = 0 := by
    apply List.sum_eq_zero
    intro x hx
    obtain ⟨q, hq, rfl⟩ := List.mem_map.mp hx
    obtain ⟨hqr, hnot⟩ := List.mem_filter.mp hq
    rw [decide_eq_true_eq] at hnot
    obtain ⟨hqm, hqc⟩ := hrow q hqr
    rcases h.of_mem hqm hqc with ⟨bp, hbp, -⟩ | ⟨p, -, -, -, rfl⟩
    · exact absurd (List.mem_map_of_mem (f := Prod.fst) hbp) hnot
    · exact hf _ rfl
  have hsplit := (List.filter_append_perm (fun p : Position =>
    decide (p.instrumentId ∈ (reports upper broker db.catalog l).map Prod.fst)) rows).symm
  rw [(hsplit.map f).sum_eq, List.map_append, List.sum_append, (hreported.map f).sum_eq, List.map_map]
  have hneg : (rows.filter fun p => !decide
      (p.instrumentId ∈ (reports upper broker db.catalog l).map Prod.fst)) =
        rows.filter fun p => ¬ p.instrumentId ∈ (reports upper broker db.catalog l).map Prod.fst := by
    apply List.filter_congr; intro p _; simp
  rw [hneg, hclosed, add_zero]
  rfl

end PositionsReconciled

/-! ## Totals -/

/-- The broker's rows for an instrument, in their order. -/
def rowsFor (rs : List (UUID × NormalizedPosition)) (inst : UUID) : List NormalizedPosition :=
  (rs.filter fun r => r.1 = inst).map Prod.snd

/-- The quantities of some rows, added up. -/
def totalQuantity (rows : List NormalizedPosition) : ℚ := (rows.map NormalizedPosition.quantity).sum

/-- Every reported instrument has one row, with the total of the broker's rows for it. -/
def TotalsStored (conn : UUID) (rs : List (UUID × NormalizedPosition)) (db : Database) : Prop :=
  ∀ inst ∈ rs.map Prod.fst, ∃ p, db.positions.filter (fun q => q.key = (conn, inst)) = [p] ∧
    p.quantity = totalQuantity (rowsFor rs inst)

/-- The last report is the last of the instrument's rows. -/
theorem rowsFor_of_lastFor {inst : UUID} {bp : NormalizedPosition} (h : lastFor rs inst = some bp) :
    rowsFor rs inst = (rowsFor rs inst).dropLast ++ [bp] := by
  have hlast : (rowsFor rs inst).getLast? = some bp := by
    rw [← h]; unfold rowsFor lastFor; rw [List.getLast?_map]
  exact (List.dropLast_append_getLast? bp hlast).symm

theorem lastFor_of_mem_map_fst {inst : UUID} (h : inst ∈ rs.map Prod.fst) :
    ∃ bp, lastFor rs inst = some bp :=
  Option.ne_none_iff_exists'.mp fun hn => lastFor_eq_none.mp hn h

/-- The new rows are for distinct instruments when each instrument without a stored
    row has one row of the broker. -/
theorem newInstruments_nodup_iff :
    (newInstruments upper conn broker db l).Nodup ↔
      ∀ inst ∈ (reports upper broker db.catalog l).map Prod.fst,
        inst ∈ existingInstruments conn db.toSession ∨
          (rowsFor (reports upper broker db.catalog l) inst).length = 1 := by
  have hcount : ∀ inst, (newInstruments upper conn broker db l).count inst =
      if inst ∈ existingInstruments conn db.toSession then 0
      else (rowsFor (reports upper broker db.catalog l) inst).length := by
    intro inst
    unfold newInstruments newReports rowsFor
    rw [List.count_eq_countP, List.countP_map, List.countP_filter, List.length_map,
      ← List.countP_eq_length_filter]
    by_cases hex : inst ∈ existingInstruments conn db.toSession
    · rw [if_pos hex, List.countP_eq_zero]
      rintro r - hr
      simp only [Function.comp_apply, beq_iff_eq, Bool.and_eq_true, decide_eq_true_eq] at hr
      exact hr.2 (hr.1 ▸ hex)
    · rw [if_neg hex]
      congr 1
      funext r
      by_cases hr : r.1 = inst
      · simp [hr, hex]
      · simp [hr]
  have hpos : ∀ inst, inst ∈ (reports upper broker db.catalog l).map Prod.fst ↔
      (rowsFor (reports upper broker db.catalog l) inst).length ≠ 0 := by
    intro inst
    rw [← not_iff_not, ← lastFor_eq_none, not_not, List.length_eq_zero_iff]
    unfold lastFor rowsFor
    rw [Option.map_eq_none_iff, List.getLast?_eq_none_iff, List.map_eq_nil_iff]
  rw [List.nodup_iff_count_le_one]
  refine forall_congr' fun inst => ?_
  rw [hcount, hpos]
  by_cases hex : inst ∈ existingInstruments conn db.toSession
  · simp [hex]
  · rw [if_neg hex]
    simp only [hex, false_or]
    omega

/-- What a sync of one row for each instrument is to leave behind. -/
structure Reconciled (conn : UUID) (now : Instant) (rs : List (UUID × NormalizedPosition))
    (l : List NormalizedPosition) (db db' : Database) (res : PositionsResult) : Prop where
  /-- A reported instrument has one row, with what was reported. -/
  reported : ∀ r ∈ rs, ∃ p, db'.positions.filter (fun q => q.key = (conn, r.1)) = [p] ∧
    p.quantity = r.2.quantity ∧ p.avgCost = r.2.avgEntryPrice ∧ p.currency = r.2.currency.str
  /-- Every other stored row of the connection is kept and closed. -/
  closed : ∀ p ∈ db.positions, p.brokerConnectionId = conn → p.instrumentId ∉ rs.map Prod.fst →
    ∃ p', db'.positions.filter (fun q => q.key = p.key) = [p'] ∧
      p'.quantity = 0 ∧ p'.avgCost = p.avgCost ∧ p'.currency = p.currency
  /-- Every row of the connection is stamped. -/
  stamped : ∀ p ∈ db'.positions, p.brokerConnectionId = conn → p.asOf = now
  /-- The rows of the other connections stay. -/
  others : db'.positions.filter (fun p => p.brokerConnectionId ≠ conn) =
    db.positions.filter fun p => p.brokerConnectionId ≠ conn
  /-- Every row of the response is counted once. -/
  counted : res.upserted + res.skipped = l.length
  /-- `closed` counts the open rows that were not reported. -/
  closed_eq : res.closed = (db.positions.filter fun p => p.brokerConnectionId = conn ∧
    p.quantity ≠ 0 ∧ p.instrumentId ∉ rs.map Prod.fst).length

/-- A call that returns on one row for each instrument meets the postcondition. -/
theorem PositionsReconciled.reconciled (h : PositionsReconciled upper conn broker now db l db')
    (hamb : ∀ bp ∈ l, ¬ AmbiguousPosition upper broker db.catalog bp)
    (hdistinct : ((reports upper broker db.catalog l).map Prod.fst).Nodup) :
    Reconciled conn now (reports upper broker db.catalog l) l db db'
      (positionsResult upper conn broker db l) where
  reported := by
    intro r hr
    have hlast : lastFor (reports upper broker db.catalog l) r.1 = some r.2 :=
      lastFor_of_mem hdistinct hr
    exact ⟨_, Database.filter_key_of_book (Database.book_eq_some.mpr ⟨h.mem_of_reported hlast, rfl⟩),
      rfl, rfl, rfl⟩
  closed := by
    intro p hp hc hnot
    have hk : p.key = (conn, p.instrumentId) := key_eq_iff.mpr ⟨hc, rfl⟩
    have hmem := h.mem_of_not_reported hp hc (lastFor_eq_none.mpr hnot)
    refine ⟨closeRow now p, ?_, rfl, rfl, rfl⟩
    rw [hk]
    exact Database.filter_key_of_book (Database.book_eq_some.mpr ⟨hmem, hk⟩)
  stamped := by
    intro q hq hc
    rcases h.of_mem hq hc with ⟨bp, -, hrow⟩ | ⟨p, -, -, -, rfl⟩
    · rw [hrow]; rfl
    · rfl
  others := h.filter_ne
  counted := by
    have := length_resolved_add_length_unmapped hamb
    simpa [positionsResult, reports, unmappedWarnings] using this
  closed_eq := rfl

end Nivara.Portfolio
