import Nivara.Lib.Keyed
import Nivara.Lib.Transition
import Nivara.Portfolio.Instruments

/-!
# Concurrent calls of `resolve`

The calls of `InstrumentsService.resolve` (`services/instruments.py`, lines 66–161) of several
transactions on one instruments table, statement by statement, on PostgreSQL at `READ COMMITTED`: a
statement sees the committed rows and those of its own transaction.

The insert waits for an open transaction that has written the symbol and exchange, or the id, and goes
on when that one has ended. Next to a row of its symbol and exchange it does nothing, and next to a row
of its id it raises.

* A call that raises leaves its transaction to be rolled back, as `get_session` does it. Any statement
  may raise an error of the database.
* `uuid4()` is an input of each call.
* Nothing updates or deletes an instrument.

Results:

* `Consistent.step`: no two rows have one symbol and exchange or one id, and what the calls of a
  transaction have returned it sees.
* `advance_alone`: a call that no other transaction disturbs does what `InstrumentTables.resolve` says.
* `converged_of_run`: over every interleaving at most one row of a symbol and exchange is committed,
  the calls of committed transactions have returned it, and no call ends in the `RuntimeError`.
-/

namespace Nivara.Portfolio

open Transition

/-! ## Model -/

/-- A row of `instruments`. -/
structure InstrumentRow extends Instrument where
  details : InstrumentDetails
  deriving DecidableEq, Repr

/-- The columns of `uq_instruments_symbol_exchange`. -/
def InstrumentRow.key (row : InstrumentRow) : String × String := (row.symbol, row.exchange)

namespace ResolveRequest

variable (upper : String → String) (r : ResolveRequest)

/-- `(canonical_symbol, canonical_exchange)`. -/
def key : String × String := (upper (strip r.symbol), normalizeExchange upper r.exchange)

/-- The values of the insert. -/
def row (name : String) : InstrumentRow where
  id := r.newId
  symbol := (r.key upper).1
  exchange := (r.key upper).2
  details :=
    { name := name
      currency := (r.currency.filter (· ≠ "")).getD (defaultCurrency (r.key upper).2)
      assetClass := r.assetClass
      isin := r.isin
      isActive := true }

@[simp] theorem key_row (name : String) : (r.row upper name).key = r.key upper := rfl

end ResolveRequest

deriving instance DecidableEq for ResolveRequest

/-- The next statement of a call of `resolve`. -/
inductive ResolveCall
  | idle
  /-- The first `_get_by_symbol_exchange` (line 93). -/
  | select (r : ResolveRequest)
  /-- `session.execute(stmt)` (line 128). -/
  | insert (r : ResolveRequest) (name : String)
  /-- The second `_get_by_symbol_exchange` (line 133). -/
  | reselect (r : ResolveRequest)
  /-- `session.get(Instrument, inserted_id)` (line 139). -/
  | load (r : ResolveRequest) (insertedId : UUID)
  /-- The call has raised. -/
  | raised
  deriving DecidableEq

/-- The request of the call, while it runs. -/
def ResolveCall.request : ResolveCall → List ResolveRequest
  | .idle => []
  | .select r => [r]
  | .insert r _ => [r]
  | .reselect r => [r]
  | .load r _ => [r]
  | .raised => []

/-- How a call ends. -/
inductive ResolveOutcome
  | returned (row : InstrumentRow)
  | raised (e : InstrumentError)
  | assertionError
  | databaseError
  deriving DecidableEq

/-- The table with the calls of the transactions `ι`. A row comes with the open transaction that has
    written it; the rows without one are committed. -/
structure InstrumentsTable (ι : Type) where
  rows : List (InstrumentRow × Option ι)
  calls : ι → ResolveCall
  /-- The calls of the open transaction, and what they have returned. -/
  asked : ι → List ResolveRequest
  returned : ι → List (ResolveRequest × InstrumentRow)
  /-- The calls of committed transactions, and what they have returned. -/
  durableCalls : List ResolveRequest
  durable : List (ResolveRequest × InstrumentRow)
  outcomes : List (ι × ResolveOutcome)

/-- What can happen. -/
inductive ResolveOp (ι : Type)
  | call (i : ι) (r : ResolveRequest)
  /-- The next statement of the transaction's call. -/
  | advance (i : ι)
  /-- The next statement of the transaction's call raises. -/
  | fail (i : ι)
  | commit (i : ι)
  | rollback (i : ι)

namespace InstrumentsTable

variable {ι : Type} [DecidableEq ι] (upper : String → String) (st : InstrumentsTable ι) (i : ι)

/-- The rows a statement of the transaction sees. -/
def visible : List InstrumentRow := (st.rows.filter fun r => r.2 = none ∨ r.2 = some i).map Prod.fst

/-- `_get_by_symbol_exchange`. -/
def getBySymbolExchange (key : String × String) : Option InstrumentRow :=
  (st.visible i).find? fun row => row.key = key

/-- The call goes on. -/
def goto (c : ResolveCall) : InstrumentsTable ι := { st with calls := Function.update st.calls i c }

/-- The call returns. -/
def finish (r : ResolveRequest) (row : InstrumentRow) : InstrumentsTable ι :=
  { st with
    calls := Function.update st.calls i .idle
    returned := Function.update st.returned i (st.returned i ++ [(r, row)])
    outcomes := st.outcomes ++ [(i, .returned row)] }

/-- The call raises. -/
def raise (o : ResolveOutcome) : InstrumentsTable ι :=
  { st with
    calls := Function.update st.calls i .raised
    outcomes := st.outcomes ++ [(i, o)] }

/-- `INSERT INTO instruments ... ON CONFLICT (symbol, exchange) DO NOTHING RETURNING id`, and where the
    call goes on. Next to such a row of another open transaction it waits for the end of that one. -/
def insertRow (r : ResolveRequest) (row : InstrumentRow) : Option (InstrumentsTable ι) :=
  match st.rows.find? fun r => r.1.key = row.key with
  | some (_, some j) => if j = i then some (st.goto i (.reselect r)) else none
  | some (_, none) => some (st.goto i (.reselect r))
  | none =>
    match st.rows.find? fun r => r.1.id = row.id with
    | some (_, some j) => if j = i then some (st.raise i (.raised .integrityError)) else none
    | some (_, none) => some (st.raise i (.raised .integrityError))
    | none => some ({ st with rows := st.rows ++ [(row, some i)] }.goto i (.load r row.id))

/-- The next statement of the transaction's call. -/
def advance : Option (InstrumentsTable ι) :=
  match st.calls i with
  | .idle => none
  | .raised => none
  | .select r =>
    let (symbol, exchange) := r.key upper
    match st.getBySymbolExchange i (r.key upper) with
    | some existing => some (st.finish i r existing)
    | none =>
      if !r.createIfMissing then
        some (st.raise i (.raised
          (.lookupError s!"Instrument not found: symbol={symbol} exchange={exchange}")))
      else
        match r.name.filter (· ≠ "") with
        | none =>
          some (st.raise i (.raised (.lookupError
            "Cannot create instrument without a name. Pass `name` on first encounter.")))
        | some name => some (st.goto i (.insert r name))
  | .insert r name => st.insertRow i r (r.row upper name)
  | .reselect r =>
    match st.getBySymbolExchange i (r.key upper) with
    | some existing => some (st.finish i r existing)
    | none =>
      some (st.raise i (.raised
        (.runtimeError "ON CONFLICT DO NOTHING returned no row and SELECT found none.")))
  | .load r insertedId =>
    match (st.visible i).find? fun row => row.id = insertedId with
    | some loaded => some (st.finish i r loaded)
    | none => some (st.raise i .assertionError)

/-- The transaction commits. -/
def commit : InstrumentsTable ι :=
  { st with
    rows := st.rows.map fun r => if r.2 = some i then (r.1, none) else r
    asked := Function.update st.asked i []
    returned := Function.update st.returned i []
    durableCalls := st.durableCalls ++ st.asked i
    durable := st.durable ++ st.returned i }

/-- The transaction is rolled back. -/
def rollback : InstrumentsTable ι :=
  { st with
    rows := st.rows.filter fun r => r.2 ≠ some i
    calls := Function.update st.calls i .idle
    asked := Function.update st.asked i []
    returned := Function.update st.returned i [] }

/-- One step. A transaction has one call at a time and commits between calls; it can be rolled back at
    any point. -/
def step : ResolveOp ι → Option (InstrumentsTable ι)
  | .call i r =>
    if st.calls i = .idle then
      some { st.goto i (.select r) with asked := Function.update st.asked i (st.asked i ++ [r]) }
    else none
  | .advance i => st.advance upper i
  | .fail i => if st.calls i = .idle then none else some (st.raise i .databaseError)
  | .commit i => if st.calls i = .idle then some (st.commit i) else none
  | .rollback i => some (st.rollback i)

/-! ## Properties -/

/-- The committed rows. -/
def committed : List InstrumentRow := (st.rows.filter fun r => r.2 = none).map Prod.fst

/-- One row for each symbol and exchange; every call of a committed transaction has returned it; no
    call has found that there is a row and then none. -/
structure Converged : Prop where
  one_row : ∀ key, (st.committed.filter fun row => row.key = key).length ≤ 1
  all_returned : ∀ r ∈ st.durableCalls, ∃ row, (r, row) ∈ st.durable
  returned : ∀ e ∈ st.durable, st.committed.filter (fun row => row.key = e.1.key upper) = [e.2]
  no_runtimeError : ∀ i message, (i, ResolveOutcome.raised (.runtimeError message)) ∉ st.outcomes

/-- Nothing runs, every row is committed, one for each symbol and exchange and each id. -/
structure Quiet : Prop where
  calls : ∀ i, st.calls i = .idle
  asked : ∀ i, st.asked i = []
  returned : ∀ i, st.returned i = []
  durableCalls : st.durableCalls = []
  durable : st.durable = []
  outcomes : st.outcomes = []
  committed : ∀ r ∈ st.rows, r.2 = none
  keys : (st.rows.map fun r => r.1.key).Nodup
  ids : (st.rows.map fun r => r.1.id).Nodup

/-! ## The invariant -/

/-- What holds where the call stands. -/
def CallConsistent : ResolveCall → Prop
  | .reselect r => ∃ row ∈ st.visible i, row.key = r.key upper
  | .load r insertedId => ∃ row ∈ st.visible i, row.id = insertedId ∧ row.key = r.key upper
  | _ => True

/-- What a call has returned is the row of its symbol and exchange, and among the rows. -/
def Answered (rows : List InstrumentRow) (e : ResolveRequest × InstrumentRow) : Prop :=
  e.2 ∈ rows ∧ e.2.key = e.1.key upper

/-- Each call of a transaction has returned, but for the one that runs. -/
def Accounted (c : ResolveCall) (asked : List ResolveRequest)
    (returned : List (ResolveRequest × InstrumentRow)) : Prop :=
  c ≠ .raised → asked = returned.map Prod.fst ++ c.request

structure Consistent : Prop where
  keys : (st.rows.map fun r => r.1.key).Nodup
  ids : (st.rows.map fun r => r.1.id).Nodup
  calls : ∀ i, st.CallConsistent upper i (st.calls i)
  asked : ∀ i, Accounted (st.calls i) (st.asked i) (st.returned i)
  returned : ∀ i, ∀ e ∈ st.returned i, Answered upper (st.visible i) e
  durableCalls : ∀ r ∈ st.durableCalls, ∃ row, (r, row) ∈ st.durable
  durable : ∀ e ∈ st.durable, Answered upper st.committed e
  no_runtimeError : ∀ i message, (i, ResolveOutcome.raised (.runtimeError message)) ∉ st.outcomes

variable {upper st i} {t : InstrumentsTable ι} {r : ResolveRequest} {row : InstrumentRow} {c : ResolveCall}
  {key : String × String}

theorem mem_visible : row ∈ st.visible i ↔ (row, none) ∈ st.rows ∨ (row, some i) ∈ st.rows := by
  unfold visible
  simp only [List.mem_map, List.mem_filter, decide_eq_true_eq]
  constructor
  · rintro ⟨⟨row', w⟩, ⟨hmem, rfl | rfl⟩, rfl⟩
    · exact .inl hmem
    · exact .inr hmem
  · rintro (h | h)
    · exact ⟨_, ⟨h, .inl rfl⟩, rfl⟩
    · exact ⟨_, ⟨h, .inr rfl⟩, rfl⟩

omit [DecidableEq ι] in
theorem mem_committed : row ∈ st.committed ↔ (row, none) ∈ st.rows := by
  unfold committed
  simp only [List.mem_map, List.mem_filter, decide_eq_true_eq]
  constructor
  · rintro ⟨⟨row', w⟩, ⟨hmem, rfl⟩, rfl⟩
    exact hmem
  · exact fun h => ⟨_, ⟨h, rfl⟩, rfl⟩

omit [DecidableEq ι] in
theorem Answered.mono {rows rows' : List InstrumentRow} {e : ResolveRequest × InstrumentRow}
    (h : Answered upper rows e) (hsub : rows ⊆ rows') : Answered upper rows' e := ⟨hsub h.1, h.2⟩

/-- Where a call stands stays consistent when the transaction sees more. -/
theorem CallConsistent.mono (h : st.CallConsistent upper i c) (hsub : st.visible i ⊆ t.visible i) :
    t.CallConsistent upper i c := by
  cases c with
  | reselect r =>
    obtain ⟨row, hrow, hkey⟩ := h
    exact ⟨row, hsub hrow, hkey⟩
  | load r insertedId =>
    obtain ⟨row, hrow, hid, hkey⟩ := h
    exact ⟨row, hsub hrow, hid, hkey⟩
  | _ => trivial

/-- A row that is seen and has the symbol and exchange is found. -/
theorem exists_getBySymbolExchange (hrow : row ∈ st.visible i) (hkey : row.key = key) :
    ∃ existing, st.getBySymbolExchange i key = some existing := by
  cases hget : st.getBySymbolExchange i key with
  | none => exact absurd hkey (by simpa using List.find?_eq_none.mp hget row hrow)
  | some existing => exact ⟨existing, rfl⟩

theorem of_getBySymbolExchange (h : st.getBySymbolExchange i key = some row) :
    row ∈ st.visible i ∧ row.key = key :=
  ⟨List.mem_of_find?_eq_some h, by simpa using List.find?_some h⟩

/-! ## Steps -/

theorem ne_raised (h : c.request = [r]) : c ≠ .raised := by
  rintro rfl
  cases h

theorem Consistent.calls_update (h : st.Consistent upper) (hc : st.CallConsistent upper i c) (j : ι) :
    st.CallConsistent upper j (Function.update st.calls i c j) :=
  (Function.forall_update_iff st.calls fun j c => st.CallConsistent upper j c).mpr
    ⟨hc, fun j _ => h.calls j⟩ j

theorem Consistent.goto (h : st.Consistent upper) (hc : st.CallConsistent upper i c)
    (hsame : (st.calls i).request = [r]) (hrequest : c.request = [r]) : (st.goto i c).Consistent upper where
  keys := h.keys
  ids := h.ids
  calls := h.calls_update hc
  asked := by
    refine (Function.forall_update_iff st.calls fun j c => Accounted c (st.asked j) (st.returned j)).mpr
      ⟨?_, fun j _ => h.asked j⟩
    intro _
    rw [hrequest, ← hsame]
    exact h.asked i (ne_raised hsame)
  returned := h.returned
  durableCalls := h.durableCalls
  durable := h.durable
  no_runtimeError := h.no_runtimeError

theorem Consistent.call (h : st.Consistent upper) (hidle : st.calls i = .idle) : Consistent upper
    { st.goto i (.select r) with asked := Function.update st.asked i (st.asked i ++ [r]) } where
  keys := h.keys
  ids := h.ids
  calls := h.calls_update trivial
  asked j := by
    show Accounted (Function.update st.calls i _ j) (Function.update st.asked i _ j) (st.returned j)
    by_cases hj : j = i
    · subst hj
      have hasked := h.asked j (by simp [hidle])
      rw [Function.update_self, Function.update_self, hasked, hidle]
      intro _
      simp [ResolveCall.request]
    · rw [Function.update_of_ne hj, Function.update_of_ne hj]
      exact h.asked j
  returned := h.returned
  durableCalls := h.durableCalls
  durable := h.durable
  no_runtimeError := h.no_runtimeError

theorem Consistent.finish (h : st.Consistent upper) (hanswer : Answered upper (st.visible i) (r, row))
    (hsame : (st.calls i).request = [r]) : (st.finish i r row).Consistent upper where
  keys := h.keys
  ids := h.ids
  calls := h.calls_update trivial
  asked j := by
    show Accounted (Function.update st.calls i .idle j) (st.asked j) (Function.update st.returned i _ j)
    by_cases hj : j = i
    · subst hj
      rw [Function.update_self, Function.update_self, h.asked j (ne_raised hsame), hsame]
      intro _
      simp [ResolveCall.request]
    · rw [Function.update_of_ne hj, Function.update_of_ne hj]
      exact h.asked j
  returned := by
    refine (Function.forall_update_iff st.returned fun j l => ∀ e ∈ l, Answered upper (st.visible j) e).mpr
      ⟨fun e he => ?_, fun j _ => h.returned j⟩
    rcases List.mem_append.mp he with he | he
    · exact h.returned i e he
    · rw [List.mem_singleton.mp he]
      exact hanswer
  durableCalls := h.durableCalls
  durable := h.durable
  no_runtimeError j message := by
    show (j, ResolveOutcome.raised (.runtimeError message)) ∉ st.outcomes ++ [(i, .returned row)]
    simpa using h.no_runtimeError j message

theorem Consistent.raise {o : ResolveOutcome} (h : st.Consistent upper)
    (ho : ∀ message, o ≠ .raised (.runtimeError message)) : (st.raise i o).Consistent upper where
  keys := h.keys
  ids := h.ids
  calls := h.calls_update trivial
  asked :=
    (Function.forall_update_iff st.calls fun j c => Accounted c (st.asked j) (st.returned j)).mpr
      ⟨fun hne => absurd rfl hne, fun j _ => h.asked j⟩
  returned := h.returned
  durableCalls := h.durableCalls
  durable := h.durable
  no_runtimeError j message := by
    show (j, ResolveOutcome.raised (.runtimeError message)) ∉ st.outcomes ++ [(i, o)]
    simpa using ⟨h.no_runtimeError j message, fun _ heq => ho message heq.symm⟩

/-- A row that is added has a symbol and exchange and an id of its own. -/
theorem Consistent.append (h : st.Consistent upper) (hkey : ∀ r ∈ st.rows, r.1.key ≠ row.key)
    (hid : ∀ r ∈ st.rows, r.1.id ≠ row.id) :
    Consistent upper { st with rows := st.rows ++ [(row, some i)] } := by
  have hvisible : ∀ j, st.visible j ⊆
      InstrumentsTable.visible { st with rows := st.rows ++ [(row, some i)] } j := by
    intro j row' hrow'
    rw [mem_visible] at hrow' ⊢
    exact hrow'.imp (List.mem_append_left _) (List.mem_append_left _)
  refine ⟨?_, ?_, fun j => (h.calls j).mono (hvisible j), h.asked,
    fun j e he => (h.returned j e he).mono (hvisible j), h.durableCalls,
    fun e he => (h.durable e he).mono ?_, h.no_runtimeError⟩
  · show ((st.rows ++ [(row, some i)]).map fun r => r.1.key).Nodup
    rw [List.map_append]
    refine h.keys.append (List.nodup_singleton _) (List.disjoint_singleton.mpr fun hmem => ?_)
    obtain ⟨r, hr, heq⟩ := List.mem_map.mp hmem
    exact hkey r hr heq
  · show ((st.rows ++ [(row, some i)]).map fun r => r.1.id).Nodup
    rw [List.map_append]
    refine h.ids.append (List.nodup_singleton _) (List.disjoint_singleton.mpr fun hmem => ?_)
    obtain ⟨r, hr, heq⟩ := List.mem_map.mp hmem
    exact hid r hr heq
  · intro row' hrow'
    rw [mem_committed] at hrow' ⊢
    exact List.mem_append_left _ hrow'

/-- The insert: it adds the row, or the transaction sees a row of the symbol and exchange. -/
theorem Consistent.insertRow (h : st.Consistent upper) {name : String} (hsame : (st.calls i).request = [r])
    (hins : st.insertRow i r (r.row upper name) = some t) : t.Consistent upper := by
  have hconflict : ∀ {w : Option ι} {row : InstrumentRow},
      (st.rows.find? fun x => x.1.key = (r.row upper name).key) = some (row, w) →
      (w = none ∨ w = some i) → st.CallConsistent upper i (.reselect r) := by
    intro w row hfind hw
    have hmem := List.mem_of_find?_eq_some hfind
    have hkey := List.find?_some hfind
    simp only [decide_eq_true_eq] at hkey
    refine ⟨row, mem_visible.mpr ?_, hkey⟩
    rcases hw with rfl | rfl
    · exact .inl hmem
    · exact .inr hmem
  unfold InstrumentsTable.insertRow at hins
  split at hins
  next row j hfind =>
    split_ifs at hins with hj
    cases hins
    exact h.goto (hconflict hfind (.inr (congrArg some hj))) hsame rfl
  next row hfind =>
    cases hins
    exact h.goto (hconflict hfind (.inl rfl)) hsame rfl
  next hfind =>
    split at hins
    next row j _ =>
      split_ifs at hins
      cases hins
      exact h.raise (by simp)
    next row _ =>
      cases hins
      exact h.raise (by simp)
    next hfind' =>
      cases hins
      have hkey : ∀ x ∈ st.rows, x.1.key ≠ (r.row upper name).key := fun x hx => by
        simpa only [decide_eq_true_eq] using List.find?_eq_none.mp hfind x hx
      have hid : ∀ x ∈ st.rows, x.1.id ≠ (r.row upper name).id := fun x hx => by
        simpa only [decide_eq_true_eq] using List.find?_eq_none.mp hfind' x hx
      refine (h.append hkey hid).goto ⟨r.row upper name, mem_visible.mpr (.inr ?_), rfl, rfl⟩ hsame rfl
      exact List.mem_append_right _ (List.mem_singleton_self _)

theorem Consistent.advance (h : st.Consistent upper) (hstep : st.advance upper i = some t) :
    t.Consistent upper := by
  have hcall := h.calls i
  unfold InstrumentsTable.advance at hstep
  split at hstep
  next => cases hstep
  next => cases hstep
  next r heq =>
    have hsame : (st.calls i).request = [r] := by rw [heq]; rfl
    dsimp only at hstep
    split at hstep
    next existing hget =>
      cases hstep
      exact h.finish (of_getBySymbolExchange hget) hsame
    next =>
      split_ifs at hstep
      · cases hstep
        exact h.raise (by simp)
      · split at hstep
        next =>
          cases hstep
          exact h.raise (by simp)
        next name _ =>
          cases hstep
          exact h.goto trivial hsame rfl
  next r name heq => exact h.insertRow (by rw [heq]; rfl) hstep
  next r heq =>
    rw [heq] at hcall
    obtain ⟨row, hrow, hkey⟩ := hcall
    -- the row that the insert has met is still there
    obtain ⟨existing, hget⟩ := exists_getBySymbolExchange hrow hkey
    rw [hget] at hstep
    cases hstep
    exact h.finish (of_getBySymbolExchange hget) (by rw [heq]; rfl)
  next r insertedId heq =>
    rw [heq] at hcall
    obtain ⟨row, hrow, hid, hkey⟩ := hcall
    split at hstep
    next loaded hget =>
      cases hstep
      have hloaded : loaded ∈ st.visible i := List.mem_of_find?_eq_some hget
      have hsame : loaded = row := by
        have hids : ((st.visible i).map fun row => row.id).Nodup := by
          unfold visible
          rw [List.map_map]
          exact h.ids.sublist (List.filter_sublist.map _)
        have hloadedId : loaded.id = insertedId := by simpa using List.find?_some hget
        exact List.inj_on_of_nodup_map hids hloaded hrow (hloadedId.trans hid.symm)
      exact h.finish ⟨hloaded, hsame ▸ hkey⟩ (by rw [heq]; rfl)
    next =>
      cases hstep
      exact h.raise (by simp)

/-- A commit keeps the rows. -/
theorem map_rows_commit {α : Type} (f : InstrumentRow → α) :
    ((st.commit i).rows.map fun r => f r.1) = st.rows.map fun r => f r.1 := by
  show (st.rows.map _).map _ = _
  rw [List.map_map]
  refine List.map_congr_left fun r _ => ?_
  by_cases hr : r.2 = some i <;> simp [hr]

theorem committed_subset_visible : st.committed ⊆ st.visible i := fun _ hrow =>
  mem_visible.mpr (.inl (mem_committed.mp hrow))

/-- What a transaction has seen is committed behind its commit. -/
theorem visible_subset_committed : st.visible i ⊆ (st.commit i).committed := by
  intro row hrow
  rw [mem_committed]
  rcases mem_visible.mp hrow with hmem | hmem
  · exact List.mem_map.mpr ⟨_, hmem, by simp⟩
  · exact List.mem_map.mpr ⟨_, hmem, by simp⟩

theorem visible_subset_commit (j : ι) : st.visible j ⊆ (st.commit i).visible j := by
  intro row hrow
  rcases mem_visible.mp hrow with hmem | hmem
  · exact committed_subset_visible (visible_subset_committed (mem_visible.mpr (.inl hmem)))
  · by_cases hj : j = i
    · subst hj
      exact committed_subset_visible (visible_subset_committed hrow)
    · exact mem_visible.mpr (.inr (List.mem_map.mpr ⟨_, hmem, by simp [hj]⟩))

theorem Consistent.commit (h : st.Consistent upper) (hidle : st.calls i = .idle) :
    (st.commit i).Consistent upper := by
  refine ⟨?_, ?_, fun j => (h.calls j).mono (visible_subset_commit j), ?_, ?_, ?_, ?_, h.no_runtimeError⟩
  · rw [map_rows_commit InstrumentRow.key]
    exact h.keys
  · rw [map_rows_commit (·.id)]
    exact h.ids
  · intro j
    show Accounted (st.calls j) (Function.update st.asked i [] j) (Function.update st.returned i [] j)
    by_cases hj : j = i
    · subst hj
      simp [Accounted, hidle, ResolveCall.request]
    · rw [Function.update_of_ne hj, Function.update_of_ne hj]
      exact h.asked j
  · refine (Function.forall_update_iff st.returned fun j l =>
      ∀ e ∈ l, Answered upper ((st.commit i).visible j) e).mpr ⟨by simp, fun j _ e he => ?_⟩
    exact (h.returned j e he).mono (visible_subset_commit j)
  · intro r hr
    have hasked := h.asked i (by simp [hidle])
    rw [hidle, ResolveCall.request, List.append_nil] at hasked
    rcases List.mem_append.mp hr with hr | hr
    · obtain ⟨row, hrow⟩ := h.durableCalls r hr
      exact ⟨row, List.mem_append_left _ hrow⟩
    · rw [hasked] at hr
      obtain ⟨⟨_, row⟩, hrow, rfl⟩ := List.mem_map.mp hr
      exact ⟨row, List.mem_append_right _ hrow⟩
  · intro e he
    rcases List.mem_append.mp he with he | he
    · exact (h.durable e he).mono (List.Subset.trans committed_subset_visible visible_subset_committed)
    · exact (h.returned i e he).mono visible_subset_committed

theorem committed_subset_rollback : st.committed ⊆ (st.rollback i).committed := fun _ hrow =>
  mem_committed.mpr (List.mem_filter.mpr ⟨mem_committed.mp hrow, by simp⟩)

/-- A rollback takes nothing from what the other transactions see. -/
theorem visible_subset_rollback {j : ι} (hj : j ≠ i) : st.visible j ⊆ (st.rollback i).visible j := by
  intro row hrow
  rw [mem_visible] at hrow ⊢
  exact hrow.imp (fun hmem => List.mem_filter.mpr ⟨hmem, by simp⟩)
    fun hmem => List.mem_filter.mpr ⟨hmem, by simpa using hj⟩

theorem Consistent.rollback (h : st.Consistent upper) : (st.rollback i).Consistent upper := by
  refine ⟨h.keys.sublist (List.filter_sublist.map _), h.ids.sublist (List.filter_sublist.map _), ?_, ?_, ?_,
    h.durableCalls, fun e he => (h.durable e he).mono committed_subset_rollback, h.no_runtimeError⟩
  · exact (Function.forall_update_iff st.calls fun j c => (st.rollback i).CallConsistent upper j c).mpr
      ⟨trivial, fun j hj => (h.calls j).mono (visible_subset_rollback hj)⟩
  · intro j
    show Accounted (Function.update st.calls i .idle j) (Function.update st.asked i [] j)
      (Function.update st.returned i [] j)
    by_cases hj : j = i
    · subst hj
      simp [Accounted, ResolveCall.request]
    · rw [Function.update_of_ne hj, Function.update_of_ne hj, Function.update_of_ne hj]
      exact h.asked j
  · refine (Function.forall_update_iff st.returned fun j l =>
      ∀ e ∈ l, Answered upper ((st.rollback i).visible j) e).mpr ⟨by simp, fun j hj e he => ?_⟩
    exact (h.returned j e he).mono (visible_subset_rollback hj)

theorem Consistent.step {op : ResolveOp ι} (h : st.Consistent upper) (hstep : st.step upper op = some t) :
    t.Consistent upper := by
  cases op with
  | call i r =>
    simp only [InstrumentsTable.step] at hstep
    split_ifs at hstep with hidle
    cases hstep
    exact h.call hidle
  | advance i => exact h.advance hstep
  | fail i =>
    simp only [InstrumentsTable.step] at hstep
    split_ifs at hstep
    cases hstep
    exact h.raise (by simp)
  | commit i =>
    simp only [InstrumentsTable.step] at hstep
    split_ifs at hstep with hidle
    cases hstep
    exact h.commit hidle
  | rollback i =>
    cases hstep
    exact h.rollback

/-! ## A call on its own -/

/-- The tables as the transaction sees them. -/
structure Views (st : InstrumentsTable ι) (i : ι) (tables : InstrumentTables) : Prop where
  instruments : tables.database.catalog.instruments = (st.visible i).map InstrumentRow.toInstrument
  details : ∀ row ∈ st.visible i, tables.details row.id = some row.details

/-- From `st` the transaction's call has ended as `resolve` says. -/
def EndsAs (st : InstrumentsTable ι) (i : ι) (tables : InstrumentTables) (t : InstrumentsTable ι) :
    Except InstrumentError (Instrument × InstrumentTables) → Prop
  | .ok (instrument, tables') =>
    t.Views i tables' ∧
      ∃ row, row.toInstrument = instrument ∧ t.outcomes = st.outcomes ++ [(i, .returned row)]
  | .error e => t.Views i tables ∧ t.outcomes = st.outcomes ++ [(i, .raised e)]

variable {tables : InstrumentTables} {rows : List InstrumentRow}

theorem Views.getBySymbolExchange (h : st.Views i tables) (key : String × String) :
    tables.database.catalog.getBySymbolExchange key.1 key.2 =
      (st.getBySymbolExchange i key).map InstrumentRow.toInstrument := by
  unfold Catalog.getBySymbolExchange InstrumentsTable.getBySymbolExchange
  rw [h.instruments, List.find?_map]
  congr 2
  funext row
  simp [InstrumentRow.key, Prod.ext_iff]

theorem visible_of_open (hopen : ∀ r ∈ st.rows, r.2 = none ∨ r.2 = some i) :
    st.visible i = st.rows.map Prod.fst := by
  unfold visible
  rw [List.filter_eq_self.mpr fun r hr => decide_eq_true (hopen r hr)]

/-- When only its own transaction is open, it sees every row. -/
theorem find?_of_open {β : Type} [DecidableEq β] (hopen : ∀ r ∈ st.rows, r.2 = none ∨ r.2 = some i)
    (f : InstrumentRow → β) (b : β) :
    (b ∈ (st.visible i).map f ∧ ∃ row w, (st.rows.find? fun x => f x.1 = b) = some (row, w) ∧
        (w = none ∨ w = some i)) ∨
      b ∉ (st.visible i).map f ∧ (st.rows.find? fun x => f x.1 = b) = none := by
  rw [visible_of_open hopen, List.map_map]
  cases hfind : st.rows.find? fun x => f x.1 = b with
  | some x =>
    have hmem := List.mem_of_find?_eq_some hfind
    have heq := List.find?_some hfind
    exact .inl ⟨List.mem_map.mpr ⟨x, hmem, by simpa using heq⟩, x.1, x.2, rfl, hopen x hmem⟩
  | none =>
    refine .inr ⟨fun hmem => ?_, rfl⟩
    obtain ⟨x, hx, heq⟩ := List.mem_map.mp hmem
    exact absurd heq (by simpa using List.find?_eq_none.mp hfind x hx)

/-- Then an insert does not wait. -/
theorem insertRow_of_open (hopen : ∀ r ∈ st.rows, r.2 = none ∨ r.2 = some i) :
    st.insertRow i r row =
      if row.key ∈ (st.visible i).map InstrumentRow.key then some (st.goto i (.reselect r))
      else if row.id ∈ (st.visible i).map (·.id) then some (st.raise i (.raised .integrityError))
      else some ({ st with rows := st.rows ++ [(row, some i)] }.goto i (.load r row.id)) := by
  unfold insertRow
  rcases find?_of_open hopen InstrumentRow.key row.key with ⟨hmem, row', w, hfind, hw⟩ | ⟨hmem, hfind⟩
  · rw [if_pos hmem, hfind]
    rcases hw with rfl | rfl
    · rfl
    · exact if_pos rfl
  · rw [if_neg hmem, hfind]
    rcases find?_of_open hopen (·.id) row.id with ⟨hid, row', w, hfind', hw⟩ | ⟨hid, hfind'⟩
    · rw [if_pos hid, hfind']
      rcases hw with rfl | rfl
      · rfl
      · exact if_pos rfl
    · rw [if_neg hid, hfind']

/-- The insert of `resolve` is decided by the same two tests. -/
theorem Views.insertInstrument (h : st.Views i tables) (row : InstrumentRow) :
    (row.key ∈ (st.visible i).map InstrumentRow.key ∧
        tables.database.catalog.insertInstrument row.toInstrument = .conflict) ∨
      row.key ∉ (st.visible i).map InstrumentRow.key ∧
        (row.id ∈ (st.visible i).map (·.id) ∧
            tables.database.catalog.insertInstrument row.toInstrument = .duplicateId ∨
          row.id ∉ (st.visible i).map (·.id) ∧ ∃ cat,
            tables.database.catalog.insertInstrument row.toInstrument = .inserted cat) := by
  have hkeys : tables.database.catalog.instruments.map (fun j => (j.symbol, j.exchange)) =
      (st.visible i).map InstrumentRow.key := by
    rw [h.instruments, List.map_map]
    rfl
  have hids : tables.database.catalog.instruments.map Instrument.id = (st.visible i).map (·.id) := by
    rw [h.instruments, List.map_map]
    rfl
  rw [← hkeys, ← hids]
  unfold Catalog.insertInstrument
  split
  next hkey => exact .inl ⟨hkey, rfl⟩
  next hkey =>
    refine .inr ⟨hkey, ?_⟩
    split
    next hid => exact .inl ⟨hid, rfl⟩
    next hid => exact .inr ⟨hid, _, rfl⟩

/-- The row that a call has added is found under its id. -/
theorem step_load (hcall : st.calls i = .load r row.id) (hvisible : st.visible i = rows ++ [row])
    (hid : row.id ∉ rows.map (·.id)) : st.step upper (.advance i) = some (st.finish i r row) := by
  have hfind : ((st.visible i).find? fun row' => row'.id = row.id) = some row := by
    have hnone : (rows.find? fun row' => row'.id = row.id) = none := by
      simpa [List.find?_eq_none] using hid
    rw [hvisible, List.find?_append, hnone]
    simp
  show st.advance upper i = _
  unfold InstrumentsTable.advance
  rw [hcall]
  dsimp only
  rw [hfind]

theorem Views.append (h : st.Views i tables) (hid : row.id ∉ (st.visible i).map (·.id))
    {cat : Catalog} (hcat : cat.instruments = tables.database.catalog.instruments ++ [row.toInstrument])
    (hvisible : t.visible i = st.visible i ++ [row]) :
    t.Views i
      { database := { tables.database with catalog := cat }
        details := Function.update tables.details row.id (some row.details) } where
  instruments := by
    show cat.instruments = _
    rw [hcat, h.instruments, hvisible, List.map_append]
    rfl
  details row' hrow' := by
    rw [hvisible] at hrow'
    rcases List.mem_append.mp hrow' with hrow' | hrow'
    · have hne : row'.id ≠ row.id := fun heq => hid (List.mem_map.mpr ⟨row', hrow', heq⟩)
      show Function.update tables.details row.id (some row.details) row'.id = _
      rw [Function.update_of_ne hne]
      exact h.details row' hrow'
    · rw [List.mem_singleton.mp hrow']
      exact Function.update_self ..

/-- The same from the insert on, when the first select has found nothing. -/
theorem Views.insert_alone {name : String} (h : st.Views i tables) (hcall : st.calls i = .insert r name)
    (hget : st.getBySymbolExchange i (r.key upper) = none)
    (hopen : ∀ r ∈ st.rows, r.2 = none ∨ r.2 = some i) :
    ∃ t, Run (fun s op t => InstrumentsTable.step upper s op = some t) (fun _ op => op = .advance i) st t ∧
      st.EndsAs i tables t
        (match tables.database.catalog.insertInstrument (r.row upper name).toInstrument with
        | .inserted cat =>
          .ok ((r.row upper name).toInstrument,
            { database := { tables.database with catalog := cat }
              details := Function.update tables.details r.newId (some (r.row upper name).details) })
        | .conflict =>
          .error (.runtimeError "ON CONFLICT DO NOTHING returned no row and SELECT found none.")
        | .duplicateId => .error .integrityError) := by
  set row := r.row upper name
  have hnew : row.key ∉ (st.visible i).map InstrumentRow.key := by
    rw [List.mem_map]
    rintro ⟨row', hrow', hkey⟩
    obtain ⟨existing, hsome⟩ := exists_getBySymbolExchange hrow' hkey
    cases hget.symm.trans hsome
  have hinsert : st.step upper (.advance i) = st.insertRow i r row := by
    show st.advance upper i = _
    unfold InstrumentsTable.advance
    rw [hcall]
  rw [insertRow_of_open hopen, if_neg hnew] at hinsert
  rcases h.insertInstrument row with ⟨hkey, -⟩ | ⟨-, ⟨hid, hins⟩ | ⟨hid, cat, hins⟩⟩
  · exact absurd hkey hnew
  · rw [if_pos hid] at hinsert
    rw [hins]
    exact ⟨_, .tail _ .refl rfl hinsert, ⟨h.instruments, h.details⟩, rfl⟩
  · rw [if_neg hid] at hinsert
    rw [hins]
    set u : InstrumentsTable ι := { st with rows := st.rows ++ [(row, some i)] }.goto i (.load r row.id)
    have hvisible : u.visible i = st.visible i ++ [row] := by
      show ((st.rows ++ [(row, some i)]).filter _).map Prod.fst = _
      rw [List.filter_append, List.map_append]
      simp [visible]
    have hload : u.step upper (.advance i) = some (u.finish i r row) :=
      step_load (Function.update_self ..) hvisible hid
    exact ⟨_, .tail _ (.tail _ .refl rfl hinsert) rfl hload,
      h.append hid (Catalog.of_insertInstrument hins).1 hvisible, row, rfl, rfl⟩

/-- A call that runs while no other transaction is open does what `InstrumentTables.resolve` says. -/
theorem advance_alone (h : st.Views i tables) (hcall : st.calls i = .select r)
    (hopen : ∀ r ∈ st.rows, r.2 = none ∨ r.2 = some i) :
    ∃ t, Run (fun s op t => InstrumentsTable.step upper s op = some t) (fun _ op => op = .advance i) st t ∧
      st.EndsAs i tables t (tables.resolve upper r) := by
  have hselect : st.step upper (.advance i) = st.advance upper i := rfl
  unfold InstrumentsTable.advance at hselect
  rw [hcall] at hselect
  dsimp only at hselect
  have hfind : tables.database.catalog.getBySymbolExchange (upper (strip r.symbol))
      (normalizeExchange upper r.exchange) = _ := h.getBySymbolExchange (r.key upper)
  unfold InstrumentTables.resolve
  dsimp only
  rw [hfind]
  cases hget : st.getBySymbolExchange i (r.key upper) with
  | some existing =>
    rw [hget] at hselect
    exact ⟨_, .tail _ .refl rfl hselect, ⟨h.instruments, h.details⟩, existing, rfl, rfl⟩
  | none =>
    rw [hget] at hselect
    simp only [Option.map_none]
    by_cases hcreate : r.createIfMissing = true
    · simp only [hcreate, Bool.not_true, Bool.false_eq_true, if_false] at hselect ⊢
      cases hname : r.name.filter (· ≠ "") with
      | none =>
        rw [hname] at hselect
        exact ⟨_, .tail _ .refl rfl hselect, ⟨h.instruments, h.details⟩, rfl⟩
      | some name =>
        rw [hname] at hselect
        have hviews : (st.goto i (.insert r name)).Views i tables := ⟨h.instruments, h.details⟩
        obtain ⟨t, hrun, hends⟩ := hviews.insert_alone (Function.update_self ..) hget hopen
        exact ⟨t, .trans (.tail _ .refl rfl hselect) hrun, hends⟩
    · simp only [hcreate, Bool.not_false, if_true] at hselect ⊢
      exact ⟨_, .tail _ .refl rfl hselect, ⟨h.instruments, h.details⟩, rfl⟩

/-! ## Every interleaving -/

theorem Quiet.consistent (h : st.Quiet) : st.Consistent upper where
  keys := h.keys
  ids := h.ids
  calls i := by
    rw [h.calls i]
    trivial
  asked i := by simp [Accounted, h.asked i, h.returned i, h.calls i, ResolveCall.request]
  returned i := by simp [h.returned i]
  durableCalls := by simp [h.durableCalls]
  durable := by simp [h.durable]
  no_runtimeError := by simp [h.outcomes]

theorem Consistent.converged (h : st.Consistent upper) : st.Converged upper := by
  have hkeys : (st.committed.map InstrumentRow.key).Nodup := by
    unfold committed
    rw [List.map_map]
    exact h.keys.sublist (List.filter_sublist.map _)
  refine ⟨fun key => Keyed.length_filter_key_le_one hkeys, h.durableCalls, fun e he => ?_,
    h.no_runtimeError⟩
  obtain ⟨hrow, hkey⟩ := h.durable e he
  rw [← hkey]
  exact Keyed.filter_key_eq_singleton hkeys hrow

end InstrumentsTable

/-- Over every interleaving of any number of calls, with commits and rollbacks at any point, at most
    one row of each symbol and exchange is committed, every call of a committed transaction has returned
    it, and no call ends in the `RuntimeError`. -/
theorem converged_of_run {ι : Type} [DecidableEq ι] (upper : String → String) (st t : InstrumentsTable ι)
    (hstart : st.Quiet)
    (hrun : Run (fun s op t => InstrumentsTable.step upper s op = some t) Unconditional st t) :
    t.Converged upper := by
  have hinv : t.Consistent upper :=
    hrun.invariant hstart.consistent fun _ _ _ h _ hstep => h.step hstep
  exact hinv.converged

/-- An empty table. -/
def noInstruments : InstrumentsTable ℕ where
  rows := []
  calls _ := .idle
  asked _ := []
  returned _ := []
  durableCalls := []
  durable := []
  outcomes := []

theorem noInstruments_quiet : noInstruments.Quiet where
  calls _ := rfl
  asked _ := rfl
  returned _ := rfl
  durableCalls := rfl
  durable := rfl
  outcomes := rfl
  committed := by simp [noInstruments]
  keys := List.nodup_nil
  ids := List.nodup_nil

/-- A request for `TCS` on the exchange, with the id of a new row. -/
def requestTcs (exchange : String) (newId : UUID) : ResolveRequest :=
  ⟨"tcs ", exchange, some "Tata Consultancy", none, "equity", none, true, newId⟩

/-- Three transactions resolve one listing at once. The inserts of the others wait for the first one,
    which is rolled back; then the third one waits for the second one, which is committed. -/
def concurrentResolves : List (ResolveOp ℕ) :=
  [.call 0 (requestTcs "NSE" 10), .call 1 (requestTcs "xnse" 11), .call 2 (requestTcs "XNSE" 12),
    .advance 0, .advance 1, .advance 2, .advance 0, .advance 0, .rollback 0,
    .advance 1, .advance 1, .commit 1, .advance 2, .advance 2, .commit 2]

theorem converged_of_run_sample :
    ∃ t, concurrentResolves.foldlM (InstrumentsTable.step String.toUpper) noInstruments = some t ∧
      t.Converged String.toUpper := by
  obtain ⟨t, ht⟩ := Option.isSome_iff_exists.mp (show (concurrentResolves.foldlM
    (InstrumentsTable.step String.toUpper) noInstruments).isSome by decide +kernel)
  exact ⟨t, ht, converged_of_run String.toUpper noInstruments t noInstruments_quiet (Run.of_foldlM _ ht)⟩

end Nivara.Portfolio
