import Nivara.Lib.Keyed
import Nivara.Lib.Transition
import Nivara.Portfolio.Session

/-!
# Concurrent calls of `normalize_symbol`

The calls of several transactions on one mappings table, statement by statement, at
`READ COMMITTED`: a statement sees the committed rows and those of its own transaction.

The insert is protected by `uq_symbol_mappings_broker_triplet` alone. A row with an
exchange waits for the open transaction that has written the same key. A row without an
exchange conflicts with no row, so two transactions that both found nothing both insert.

* Instruments are only added, so the foreign key of an inserted row holds.

Results:

* `advance_alone`: a call that no other transaction disturbs does what `resolve` and
  `insertMapping` of `Catalog` say.
* `KeysNodup.step`: one row for each key, if no row without an exchange is inserted next to
  another one of its key.
* `mappings_unambiguous`: the same over every interleaving; then no call finds several rows.
* `order_syncs_race`: two order syncs that resolve one symbol leave two rows, and the next
  lookup raises.
-/

namespace Nivara.Portfolio

open Transition

/-! ## Model -/

/-- The columns of `uq_symbol_mappings_broker_triplet`. -/
def SymbolMapping.key (m : SymbolMapping) : LookupKey := ⟨m.broker, m.brokerSymbol, m.brokerExchange⟩

/-- The next statement of a call of `normalize_symbol`. -/
inductive MappingCall
  | idle
  /-- `session.execute(mapping_stmt)` (line 87). -/
  | selectMapping (k : LookupKey)
  /-- `session.get(Instrument, mapping.instrument_id)` (line 89). -/
  | getInstrument (k : LookupKey) (id : UUID)
  /-- `session.execute(candidate_stmt)` (line 99). -/
  | selectInstrument (k : LookupKey)
  /-- `_create_mapping` (lines 107-112). -/
  | createMapping (k : LookupKey) (candidate : Instrument)
  deriving DecidableEq

/-- How a call ends. -/
inductive MappingOutcome
  | returned (i : Instrument)
  | symbolNotMapped (message : String)
  /-- `MultipleResultsFound` of the select on the mappings. -/
  | severalMappings
  /-- `MultipleResultsFound` of the select on the instruments. -/
  | severalInstruments
  deriving DecidableEq

/-- What the caller gets. -/
def MappingOutcome.result : MappingOutcome → Except ResolveError Instrument
  | .returned i => .ok i
  | .symbolNotMapped message => .error (.symbolNotMapped message)
  | .severalMappings => .error .multipleResultsFound
  | .severalInstruments => .error .multipleResultsFound

/-- The two tables with the calls of the transactions `ι`. A row comes with the open
    transaction that has written it; the rows without one are committed. -/
structure MappingTable (ι : Type) where
  instruments : List Instrument
  rows : List (SymbolMapping × Option ι)
  calls : ι → MappingCall
  outcomes : List (ι × MappingOutcome)

/-- What can happen. -/
inductive MappingOp (ι : Type)
  | call (i : ι) (broker : Broker) (brokerSymbol : String) (brokerExchange : Option String)
  /-- The next statement of the transaction's call. -/
  | advance (i : ι)
  | commit (i : ι)
  | rollback (i : ι)
  | addInstrument (inst : Instrument)

namespace MappingTable

variable {ι : Type} [DecidableEq ι] (upper : String → String) (st : MappingTable ι) (i : ι)

/-- The mapping rows a statement of the transaction sees. -/
def visible : List SymbolMapping :=
  (st.rows.filter fun r => r.2 = none ∨ r.2 = some i).map Prod.fst

/-- The rows `mapping_stmt` selects. -/
def mappingsFor (k : LookupKey) : List SymbolMapping := (st.visible i).filter fun m => m.key = k

/-- The rows `candidate_stmt` selects. -/
def candidates (k : LookupKey) : List Instrument :=
  st.instruments.filter fun inst =>
    inst.symbol = upper k.bs ∧ ∀ e ∈ k.inferredExchange upper, inst.exchange = e

/-- The call goes on. -/
def goto (c : MappingCall) : MappingTable ι := { st with calls := Function.update st.calls i c }

/-- The call ends. -/
def finish (o : MappingOutcome) : MappingTable ι :=
  { st with calls := Function.update st.calls i .idle, outcomes := st.outcomes ++ [(i, o)] }

/-- `INSERT INTO symbol_mappings ... ON CONFLICT DO NOTHING`. Next to a conflicting row of
    another open transaction it waits for the end of that transaction. -/
def insertMapping (m : SymbolMapping) : Option (MappingTable ι) :=
  match st.rows.find? fun r => r.1.Conflicts m with
  | none => some { st with rows := st.rows ++ [(m, some i)] }
  | some (_, none) => some st
  | some (_, some j) => if j = i then some st else none

/-- The next statement of the transaction's call. -/
def advance : Option (MappingTable ι) :=
  match st.calls i with
  | .idle => none
  | .selectMapping k =>
    match scalarOneOrNone (st.mappingsFor i k) with
    | .error _ => some (st.finish i .severalMappings)
    | .ok none => some (st.goto i (.selectInstrument k))
    | .ok (some m) => some (st.goto i (.getInstrument k m.instrumentId))
  | .getInstrument k id =>
    match st.instruments.find? fun inst => inst.id = id with
    | some inst => some (st.finish i (.returned inst))
    | none => some (st.goto i (.selectInstrument k))
  | .selectInstrument k =>
    match scalarOneOrNone (st.candidates upper k) with
    | .error _ => some (st.finish i .severalInstruments)
    | .ok none => some (st.finish i (.symbolNotMapped k.notMapped))
    | .ok (some candidate) => some (st.goto i (.createMapping k candidate))
  | .createMapping k candidate =>
    (st.insertMapping i (k.mapping candidate.id)).map fun st => st.finish i (.returned candidate)

/-- One step. A transaction has one call at a time and commits between calls; it can be
    rolled back at any point. -/
def step : MappingOp ι → Option (MappingTable ι)
  | .call i broker brokerSymbol brokerExchange =>
    if st.calls i = .idle then
      some (st.goto i (.selectMapping (lookupKey upper broker brokerSymbol brokerExchange)))
    else none
  | .advance i => st.advance upper i
  | .commit i =>
    if st.calls i = .idle then
      some { st with rows := st.rows.map fun r => if r.2 = some i then (r.1, none) else r }
    else none
  | .rollback i =>
    some { st.goto i .idle with rows := st.rows.filter fun r => r.2 ≠ some i }
  | .addInstrument inst => some { st with instruments := st.instruments ++ [inst] }

/-! ## Properties -/

/-- The committed rows of a key. -/
def committed (k : LookupKey) : List SymbolMapping :=
  (st.rows.filter fun r => r.2 = none ∧ r.1.key = k).map Prod.fst

/-- At most one row for each key, and no call has failed because several match. -/
def Unambiguous : Prop :=
  (∀ k, (st.committed k).length ≤ 1) ∧ ∀ i, (i, MappingOutcome.severalMappings) ∉ st.outcomes

/-- Nothing runs, every row is committed, one for each key. -/
structure Start : Prop where
  calls : ∀ i, st.calls i = .idle
  outcomes : st.outcomes = []
  committed : ∀ r ∈ st.rows, r.2 = none
  keys : (st.rows.map fun r => r.1.key).Nodup

/-- A row without an exchange is inserted only where the table has none of its key,
    committed or not. -/
def NullRowsFresh : MappingOp ι → Prop
  | .advance i =>
    match st.calls i with
    | .createMapping k _ => k.be = none → ∀ r ∈ st.rows, r.1.key ≠ k
    | _ => True
  | _ => True

instance (op : MappingOp ι) : Decidable (st.NullRowsFresh op) := by
  unfold NullRowsFresh
  split
  · split <;> infer_instance
  · infer_instance

end MappingTable

/-! ## A call on its own -/

namespace MappingTable

variable {ι : Type} [DecidableEq ι] {upper : String → String} {st t : MappingTable ι} {i : ι}
  {cat : Catalog} {k : LookupKey} {m : SymbolMapping} {o : MappingOutcome} {op : MappingOp ι}

@[simp] theorem goto_rows (c : MappingCall) : (st.goto i c).rows = st.rows := rfl

@[simp] theorem goto_outcomes (c : MappingCall) : (st.goto i c).outcomes = st.outcomes := rfl

@[simp] theorem finish_rows : (st.finish i o).rows = st.rows := rfl

@[simp] theorem finish_outcomes : (st.finish i o).outcomes = st.outcomes ++ [(i, o)] := rfl

@[simp] theorem goto_calls_self (c : MappingCall) : (st.goto i c).calls i = c := Function.update_self ..

/-- The tables as the transaction sees them. -/
structure Views (st : MappingTable ι) (i : ι) (cat : Catalog) : Prop where
  instruments : cat.instruments = st.instruments
  mappings : cat.mappings = st.visible i

theorem Views.mappingsFor (h : st.Views i cat) : st.mappingsFor i k = cat.mappingsFor k := by
  unfold MappingTable.mappingsFor Catalog.mappingsFor
  rw [h.mappings]
  apply List.filter_congr
  intro m _
  cases k
  simp [SymbolMapping.key]

theorem Views.candidates (h : st.Views i cat) : st.candidates upper k = cat.candidates upper k := by
  unfold MappingTable.candidates Catalog.candidates
  rw [h.instruments]

theorem advance_selectMapping (hcall : st.calls i = .selectMapping k) :
    st.advance upper i =
      match scalarOneOrNone (st.mappingsFor i k) with
      | .error _ => some (st.finish i .severalMappings)
      | .ok none => some (st.goto i (.selectInstrument k))
      | .ok (some m) => some (st.goto i (.getInstrument k m.instrumentId)) := by
  unfold advance
  rw [hcall]

theorem advance_getInstrument {id : UUID} (hcall : st.calls i = .getInstrument k id) :
    st.advance upper i =
      match st.instruments.find? fun inst => inst.id = id with
      | some inst => some (st.finish i (.returned inst))
      | none => some (st.goto i (.selectInstrument k)) := by
  unfold advance
  rw [hcall]

theorem advance_selectInstrument (hcall : st.calls i = .selectInstrument k) :
    st.advance upper i =
      match scalarOneOrNone (st.candidates upper k) with
      | .error _ => some (st.finish i .severalInstruments)
      | .ok none => some (st.finish i (.symbolNotMapped k.notMapped))
      | .ok (some candidate) => some (st.goto i (.createMapping k candidate)) := by
  unfold advance
  rw [hcall]

theorem advance_createMapping {candidate : Instrument} (hcall : st.calls i = .createMapping k candidate) :
    st.advance upper i =
      (st.insertMapping i (k.mapping candidate.id)).map fun st => st.finish i (.returned candidate) := by
  unfold advance
  rw [hcall]

/-- The rows an insert finds in its way, when only its own transaction is open. -/
theorem Views.insertMapping {cat' : Catalog} (h : st.Views i cat)
    (hopen : ∀ r ∈ st.rows, r.2 = none ∨ r.2 = some i) (hins : cat.insertMapping m = .ok cat') :
    ∃ t, st.insertMapping i m = some t ∧ t.Views i cat' ∧ t.outcomes = st.outcomes := by
  have hvisible : st.visible i = st.rows.map Prod.fst := by
    unfold visible
    rw [List.filter_eq_self.mpr fun r hr => decide_eq_true (hopen r hr)]
  unfold Catalog.insertMapping at hins
  unfold MappingTable.insertMapping
  split_ifs at hins with hfk hconflict
  · cases hins
    obtain ⟨m', hm', hmm'⟩ := hconflict
    rw [h.mappings, hvisible, List.mem_map] at hm'
    obtain ⟨r, hr, rfl⟩ := hm'
    cases hfind : st.rows.find? fun r => r.1.Conflicts m with
    | none => exact absurd hmm' (by simpa using List.find?_eq_none.mp hfind r hr)
    | some r' =>
      obtain ⟨m', writer⟩ := r'
      rcases hopen _ (List.mem_of_find?_eq_some hfind) with hw | hw <;> simp only at hw <;> subst hw
      · exact ⟨st, rfl, h, rfl⟩
      · exact ⟨st, if_pos rfl, h, rfl⟩
  · cases hins
    have hfind : (st.rows.find? fun r => r.1.Conflicts m) = none := by
      rw [List.find?_eq_none]
      intro r hr hrm
      refine hconflict ⟨r.1, ?_, by simpa using hrm⟩
      rw [h.mappings, hvisible]
      exact List.mem_map_of_mem hr
    rw [hfind]
    refine ⟨_, rfl, ⟨h.instruments, ?_⟩, rfl⟩
    show cat.mappings ++ [m] = _
    rw [h.mappings]
    simp [visible]

/-- A call that runs while no other transaction is open does what `normalize_symbol` does on
    its own: it ends with the answer of the lookup, and stores the instrument it has inferred. -/
theorem advance_alone (h : st.Views i cat) (hcall : st.calls i = .selectMapping k)
    (hopen : ∀ r ∈ st.rows, r.2 = none ∨ r.2 = some i) :
    ∃ t o cat', Run (fun s op t => MappingTable.step upper s op = some t) (fun _ op => op = .advance i) st t ∧
      t.outcomes = st.outcomes ++ [(i, o)] ∧ o.result = cat.find upper k ∧ t.Views i cat' ∧
      ((∃ inst, cat.resolve upper k = .ok (.inferred inst) ∧
          cat.insertMapping (k.mapping inst.id) = .ok cat') ∨
        (∀ inst, cat.resolve upper k ≠ .ok (.inferred inst)) ∧ cat' = cat) := by
  have hselect : st.advance upper i = _ := advance_selectMapping hcall
  rw [h.mappingsFor] at hselect
  rcases hm : cat.mappingsFor k with _ | ⟨m, _ | ⟨m', l⟩⟩ <;> rw [hm] at hselect
  · -- no mapping: the candidates decide
    have hresolve : cat.resolve upper k = _ := Catalog.resolve_of_unmapped hm
    have hcandidate : (st.goto i (.selectInstrument k)).advance upper i = _ :=
      advance_selectInstrument (goto_calls_self _)
    rw [show (st.goto i (.selectInstrument k)).candidates upper k = cat.candidates upper k from
      h.candidates] at hcandidate
    rcases hc : cat.candidates upper k with _ | ⟨inst, _ | ⟨inst', l⟩⟩ <;> rw [hc] at hcandidate hresolve
    · refine ⟨_, .symbolNotMapped k.notMapped, cat, .tail _ (.tail _ .refl rfl hselect) rfl hcandidate,
        rfl, ?_, ⟨h.instruments, h.mappings⟩, .inr ⟨?_, rfl⟩⟩
      · rw [Catalog.find, hresolve]; rfl
      · rw [hresolve]; simp
    · obtain ⟨cat', hins, -⟩ := Catalog.find_insertMapping hresolve
      have hviews : ((st.goto i (.selectInstrument k)).goto i (.createMapping k inst)).Views i cat :=
        ⟨h.instruments, h.mappings⟩
      obtain ⟨t, ht, htviews, htout⟩ := hviews.insertMapping hopen hins
      have hcreate : ((st.goto i (.selectInstrument k)).goto i (.createMapping k inst)).advance upper i = _ :=
        advance_createMapping (goto_calls_self _)
      rw [ht] at hcreate
      refine ⟨t.finish i (.returned inst), .returned inst, cat',
        .tail _ (.tail _ (.tail _ .refl rfl hselect) rfl hcandidate) rfl hcreate, ?_, ?_,
        ⟨htviews.instruments, htviews.mappings⟩, .inl ⟨inst, hresolve, hins⟩⟩
      · rw [finish_outcomes, htout]; rfl
      · rw [Catalog.find, hresolve]; rfl
    · refine ⟨_, .severalInstruments, cat, .tail _ (.tail _ .refl rfl hselect) rfl hcandidate,
        rfl, ?_, ⟨h.instruments, h.mappings⟩, .inr ⟨?_, rfl⟩⟩
      · rw [Catalog.find, hresolve]; rfl
      · rw [hresolve]; simp
  · -- one mapping: its instrument is there
    obtain ⟨inst, hinst, hid, hresolve⟩ := Catalog.resolve_of_mapped upper hm
    have hget : (st.goto i (.getInstrument k m.instrumentId)).advance upper i = _ :=
      advance_getInstrument (goto_calls_self _)
    have hfind : (st.goto i (.getInstrument k m.instrumentId)).instruments.find?
        (fun inst => inst.id = m.instrumentId) = some inst := by
      have := Catalog.getInstrument_of_mem hinst
      rw [hid] at this
      rw [show (st.goto i _).instruments = cat.instruments from h.instruments.symm]
      exact this
    rw [hfind] at hget
    refine ⟨_, .returned inst, cat, .tail _ (.tail _ .refl rfl hselect) rfl hget,
      rfl, ?_, ⟨h.instruments, h.mappings⟩, .inr ⟨?_, rfl⟩⟩
    · rw [Catalog.find, hresolve]; rfl
    · rw [hresolve]; simp
  · refine ⟨_, .severalMappings, cat, .tail _ .refl rfl hselect,
      rfl, ?_, ⟨h.instruments, h.mappings⟩, .inr ⟨?_, rfl⟩⟩
    · rw [Catalog.find, Catalog.resolve_of_several hm]; rfl
    · rw [Catalog.resolve_of_several hm]; simp

/-! ## One row for each key -/

/-- Whoever has written them, no two rows have one key. -/
def KeysNodup (st : MappingTable ι) : Prop := (st.rows.map fun r => r.1.key).Nodup

/-- What a transaction sees of a key is at most one row. -/
theorem KeysNodup.mappingsFor_length (h : st.KeysNodup) : (st.mappingsFor i k).length ≤ 1 := by
  have hnd : ((st.visible i).map SymbolMapping.key).Nodup := by
    unfold visible
    rw [List.map_map]
    exact h.sublist (List.filter_sublist.map _)
  exact Keyed.length_filter_key_le_one hnd

omit [DecidableEq ι] in
theorem KeysNodup.committed_length (h : st.KeysNodup) : (st.committed k).length ≤ 1 := by
  have hnd : (((st.rows.filter fun r => r.2 = none).map Prod.fst).map SymbolMapping.key).Nodup := by
    rw [List.map_map]
    exact h.sublist (List.filter_sublist.map _)
  have hsub : st.committed k = ((st.rows.filter fun r => r.2 = none).map Prod.fst).filter fun m => m.key = k := by
    unfold committed
    rw [List.filter_map, List.filter_filter]
    congr 1
    apply List.filter_congr
    intro r _
    simp [Bool.and_comm]
  rw [hsub]
  exact Keyed.length_filter_key_le_one hnd

/-- An insert next to a row of its key needs a key without an exchange. -/
theorem KeysNodup.insertMapping (h : st.KeysNodup) (hins : st.insertMapping i m = some t)
    (hfresh : m.brokerExchange = none → ∀ r ∈ st.rows, r.1.key ≠ m.key) : t.KeysNodup := by
  unfold MappingTable.insertMapping at hins
  split at hins
  · rename_i hfind
    cases hins
    unfold KeysNodup
    rw [List.map_append]
    refine h.append (List.nodup_singleton _) ?_
    intro key hkey hmkey
    obtain ⟨r, hr, rfl⟩ := List.mem_map.mp hkey
    have hrm : r.1.key = m.key := by simpa using hmkey
    cases hm : m.brokerExchange with
    | none => exact hfresh hm r hr hrm
    | some e =>
      have hconflict : r.1.Conflicts m := by
        simp only [SymbolMapping.key, LookupKey.mk.injEq] at hrm
        exact ⟨hrm.1, hrm.2.1, by rw [hrm.2.2, hm]; rfl, hrm.2.2⟩
      exact absurd hconflict (by simpa using List.find?_eq_none.mp hfind r hr)
  · cases hins
    exact h
  · split_ifs at hins
    cases hins
    exact h

/-- What a step does to the rows and the outcomes. -/
inductive StepEffect (st : MappingTable ι) (t : MappingTable ι) : MappingOp ι → Prop
  /-- Nothing is written; a call may end. -/
  | read {op : MappingOp ι} (hrows : t.rows = st.rows)
    (hout : t.outcomes = st.outcomes ∨ ∃ i o, t.outcomes = st.outcomes ++ [(i, o)] ∧
      (o = .severalMappings → ∃ k, 1 < (st.mappingsFor i k).length)) : StepEffect st t op
  | insert {i : ι} {k : LookupKey} {candidate : Instrument} {u : MappingTable ι}
    (hcall : st.calls i = .createMapping k candidate)
    (hins : st.insertMapping i (k.mapping candidate.id) = some u)
    (ht : t = u.finish i (.returned candidate)) : StepEffect st t (.advance i)
  | commit {i : ι} (hrows : t.rows = st.rows.map fun r => if r.2 = some i then (r.1, none) else r)
    (hout : t.outcomes = st.outcomes) : StepEffect st t (.commit i)
  | rollback {i : ι} (hrows : t.rows = st.rows.filter fun r => r.2 ≠ some i)
    (hout : t.outcomes = st.outcomes) : StepEffect st t (.rollback i)

theorem StepEffect.ended (hrows : t.rows = st.rows) (hout : t.outcomes = st.outcomes ++ [(i, o)])
    (ho : o ≠ .severalMappings) : StepEffect st t op :=
  .read hrows (.inr ⟨i, o, hout, fun h => absurd h ho⟩)

theorem effect_of_advance (hstep : st.advance upper i = some t) : StepEffect st t (.advance i) := by
  cases hcall : st.calls i with
  | idle =>
    unfold MappingTable.advance at hstep
    rw [hcall] at hstep
    cases hstep
  | selectMapping k =>
    rw [advance_selectMapping hcall] at hstep
    rcases hm : st.mappingsFor i k with _ | ⟨m, _ | ⟨m', l⟩⟩ <;> rw [hm] at hstep <;> cases hstep
    · exact .read rfl (.inl rfl)
    · exact .read rfl (.inl rfl)
    · exact .read rfl (.inr ⟨i, _, rfl, fun _ => ⟨k, by simp [hm]⟩⟩)
  | getInstrument k id =>
    rw [advance_getInstrument hcall] at hstep
    split at hstep <;> cases hstep
    · exact .ended rfl rfl (by simp)
    · exact .read rfl (.inl rfl)
  | selectInstrument k =>
    rw [advance_selectInstrument hcall] at hstep
    split at hstep <;> cases hstep
    · exact .ended rfl rfl (by simp)
    · exact .ended rfl rfl (by simp)
    · exact .read rfl (.inl rfl)
  | createMapping k candidate =>
    rw [advance_createMapping hcall] at hstep
    obtain ⟨u, hins, rfl⟩ := Option.map_eq_some_iff.mp hstep
    exact .insert hcall hins rfl

theorem effect_of_step (hstep : st.step upper op = some t) : StepEffect st t op := by
  cases op with
  | call i broker brokerSymbol brokerExchange =>
    simp only [MappingTable.step] at hstep
    split_ifs at hstep
    cases hstep
    exact .read rfl (.inl rfl)
  | advance i => exact effect_of_advance hstep
  | commit i =>
    simp only [MappingTable.step] at hstep
    split_ifs at hstep
    cases hstep
    exact .commit rfl rfl
  | rollback i =>
    cases hstep
    exact .rollback rfl rfl
  | addInstrument inst =>
    cases hstep
    exact .read rfl (.inl rfl)

theorem insertMapping_outcomes (hins : st.insertMapping i m = some t) : t.outcomes = st.outcomes := by
  unfold MappingTable.insertMapping at hins
  split at hins
  · cases hins
    rfl
  · cases hins
    rfl
  · split_ifs at hins
    cases hins
    rfl

/-- One step keeps one row for each key. -/
theorem KeysNodup.step (h : st.KeysNodup) (hfresh : st.NullRowsFresh op) (hstep : st.step upper op = some t) :
    t.KeysNodup := by
  cases effect_of_step hstep with
  | read hrows _ =>
    unfold KeysNodup
    rw [hrows]
    exact h
  | insert hcall hins ht =>
    simp only [NullRowsFresh, hcall] at hfresh
    have hu : KeysNodup _ := h.insertMapping hins hfresh
    rw [ht]
    exact hu
  | @commit i hrows _ =>
    have hkeys : t.rows.map (fun r => r.1.key) = st.rows.map fun r => r.1.key := by
      rw [hrows, List.map_map]
      apply List.map_congr_left
      intro r _
      by_cases hr : r.2 = some i <;> simp [hr]
    unfold KeysNodup
    rw [hkeys]
    exact h
  | rollback hrows _ =>
    unfold KeysNodup
    rw [hrows]
    exact List.Nodup.sublist (List.filter_sublist.map _) h

/-- With one row for each key no call ends because several match. -/
theorem KeysNodup.outcomes (h : st.KeysNodup) (hstep : st.step upper op = some t)
    (hold : ∀ j, (j, MappingOutcome.severalMappings) ∉ st.outcomes) :
    ∀ j, (j, MappingOutcome.severalMappings) ∉ t.outcomes := by
  intro j
  cases effect_of_step hstep with
  | read _ hout =>
    rcases hout with hout | ⟨i, o, hout, hseveral⟩
    · rw [hout]
      exact hold j
    · rw [hout, List.mem_append, List.mem_singleton]
      rintro (hj | hj)
      · exact hold j hj
      · cases hj
        obtain ⟨k, hk⟩ := hseveral rfl
        have := h.mappingsFor_length (i := j) (k := k)
        omega
  | insert _ hins ht =>
    rw [ht, finish_outcomes, insertMapping_outcomes hins]
    simpa using hold j
  | commit _ hout =>
    rw [hout]
    exact hold j
  | rollback _ hout =>
    rw [hout]
    exact hold j

/-- The condition is needed: a row without an exchange that is inserted next to another one of
    its key stays next to it. -/
theorem not_keysNodup_of_insert {c : Instrument} (hcall : st.calls i = .createMapping k c) (hk : k.be = none)
    (hold : ∃ r ∈ st.rows, r.1.key = k) (hstep : st.step upper (.advance i) = some t) : ¬ t.KeysNodup := by
  have hnone : (st.rows.find? fun r => r.1.Conflicts (k.mapping c.id)) = none := by
    rw [List.find?_eq_none]
    intro r _ hr
    have hr : r.1.Conflicts (k.mapping c.id) := of_decide_eq_true hr
    have hsome := hr.2.2.1
    rw [hr.2.2.2, show (k.mapping c.id).brokerExchange = none from hk] at hsome
    cases hsome
  have hstep : st.advance upper i = some t := hstep
  rw [advance_createMapping hcall, MappingTable.insertMapping, hnone] at hstep
  cases hstep
  obtain ⟨r, hr, hkey⟩ := hold
  intro h
  unfold KeysNodup at h
  rw [finish_rows, List.map_append] at h
  refine List.disjoint_of_nodup_append h (List.mem_map_of_mem hr) ?_
  rw [hkey]
  exact List.mem_singleton_self _

end MappingTable

/-! ## Every interleaving -/

/-- Over every interleaving in which a row without an exchange is only inserted where the table
    has none of its key, the committed table has at most one row for each key, and no call fails
    because several rows match. -/
theorem mappings_unambiguous {ι : Type} [DecidableEq ι] (upper : String → String)
    (st t : MappingTable ι) (hstart : st.Start)
    (hrun : Run (fun s op t => MappingTable.step upper s op = some t) MappingTable.NullRowsFresh st t) :
    t.Unambiguous := by
  have hinv : t.KeysNodup ∧ ∀ j, (j, MappingOutcome.severalMappings) ∉ t.outcomes :=
    hrun.invariant (I := fun s => s.KeysNodup ∧ ∀ j, (j, MappingOutcome.severalMappings) ∉ s.outcomes)
      ⟨hstart.keys, by simp [hstart.outcomes]⟩
      fun _ _ _ h hfresh hstep => ⟨h.1.step hfresh hstep, h.1.outcomes hstep h.2⟩
  exact ⟨fun k => hinv.1.committed_length, hinv.2⟩

/-- The sample instruments, no mapping, no call. -/
def noMappings : MappingTable ℕ where
  instruments := sampleCatalog.instruments
  rows := []
  calls := fun _ => .idle
  outcomes := []

theorem noMappings_start : noMappings.Start where
  calls _ := rfl
  outcomes := rfl
  committed := by simp [noMappings]
  keys := List.nodup_nil

/-- Two transactions resolve `AAPL` on `NASDAQ` at once; the second one's insert waits for the
    first one's commit. A third call resolves it without an exchange. -/
def concurrentResolutions : List (MappingOp ℕ) :=
  [.call 0 .alpaca "AAPL" (some "NASDAQ"), .call 1 .alpaca "AAPL" (some "NASDAQ"),
    .advance 0, .advance 1, .advance 0, .advance 1, .advance 0, .commit 0, .advance 1, .commit 1,
    .call 0 .alpaca "AAPL" none, .advance 0, .advance 0, .advance 0, .commit 0]

theorem mappings_unambiguous_sample :
    ∃ t, concurrentResolutions.foldlM (fun (s : MappingTable ℕ) op =>
        if s.NullRowsFresh op then s.step id op else none) noMappings = some t ∧ t.Unambiguous := by
  obtain ⟨t, ht⟩ := Option.isSome_iff_exists.mp (show (concurrentResolutions.foldlM
    (fun (s : MappingTable ℕ) op => if s.NullRowsFresh op then s.step id op else none) noMappings).isSome by
      decide +kernel)
  exact ⟨t, ht, mappings_unambiguous id noMappings t noMappings_start (Run.of_foldlM_guarded _ ht)⟩

/-- Two order syncs resolve one symbol without an exchange, each before the other has
    committed. -/
def orderSyncs : List (MappingOp ℕ) :=
  [.call 0 .alpaca "AAPL" none, .call 1 .alpaca "AAPL" none,
    .advance 0, .advance 1, .advance 0, .advance 1, .advance 0, .advance 1, .commit 0, .commit 1,
    .call 0 .alpaca "AAPL" none, .advance 0]

/-- Both rows stay, and the next call raises. -/
theorem order_syncs_race :
    ¬ ∀ (st t : MappingTable ℕ), st.Start →
      Run (fun s op t => MappingTable.step id s op = some t) Unconditional st t → t.Unambiguous := by
  intro h
  obtain ⟨t, ht, hout⟩ := Option.map_eq_some_iff.mp (show (orderSyncs.foldlM (MappingTable.step id)
    noMappings).map (fun t => decide ((0, MappingOutcome.severalMappings) ∈ t.outcomes)) = some true by
      decide +kernel)
  exact (h noMappings t noMappings_start (Run.of_foldlM _ ht)).2 0 (of_decide_eq_true hout)

end Nivara.Portfolio
