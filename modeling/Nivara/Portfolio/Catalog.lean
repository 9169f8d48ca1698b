import Nivara.Common.Text

/-!
# Instruments, symbol mappings and their lookup

The two catalog tables (`models/instruments.py`, `models/symbol_mappings.py`)
and the lookup half of `SymbolMappingService.normalize_symbol`
(`services/symbol_mapping.py`).

A `Catalog` carries the constraints the database enforces on the two tables, so
a catalog that violates them cannot be built. In SQL two `NULL`s are distinct:
the unique constraint on `(broker, broker_symbol, broker_exchange)` says nothing
about rows without an exchange.

Results:

* `Catalog.resolve_of_mapped`, `Catalog.resolve_of_unmapped`: a mapping row
  decides a lookup; without one the candidate instruments do.
* `Catalog.find_insertMapping`: persisting an inferred mapping succeeds and
  changes the answer of no lookup.
-/

namespace Nivara.Portfolio

/-! ## Tables -/

/-- `BrokerEnum` (`models/symbol_mappings.py`). -/
inductive Broker
  | alpaca
  | zerodha
  deriving DecidableEq, Repr

/-- The enum's value, as f-strings print it. -/
def Broker.str : Broker → String
  | .alpaca => "alpaca"
  | .zerodha => "zerodha"

/-- `Instrument` (`models/instruments.py`). The descriptive columns (`name`,
    `currency`, `asset_class`, `isin`, `is_active`, `created_at`) are read by no
    modelled function. -/
structure Instrument where
  id : UUID
  symbol : String
  exchange : String
  deriving DecidableEq, Repr

/-- `SymbolMapping` (`models/symbol_mappings.py`). -/
structure SymbolMapping where
  instrumentId : UUID
  broker : Broker
  brokerSymbol : String
  brokerExchange : Option String
  deriving DecidableEq, Repr

/-- Two rows violate `uq_symbol_mappings_broker_triplet`. -/
def SymbolMapping.Conflicts (a b : SymbolMapping) : Prop :=
  a.broker = b.broker ∧ a.brokerSymbol = b.brokerSymbol ∧ a.brokerExchange.isSome ∧
    a.brokerExchange = b.brokerExchange

instance (a b : SymbolMapping) : Decidable (a.Conflicts b) := by
  unfold SymbolMapping.Conflicts; infer_instance

/-- The catalog tables with the constraints of the schema: primary key and
    `uq_instruments_symbol_exchange` on the instruments, the unique triplet and
    the foreign key (`ondelete="CASCADE"`) on the mappings. -/
structure Catalog where
  instruments : List Instrument
  mappings : List SymbolMapping
  ids_nodup : (instruments.map Instrument.id).Nodup
  uq_symbol_exchange : (instruments.map fun i => (i.symbol, i.exchange)).Nodup
  uq_mappings : mappings.Pairwise fun a b => ¬ a.Conflicts b
  mapping_fk : ∀ m ∈ mappings, ∃ i ∈ instruments, i.id = m.instrumentId

namespace Catalog

/-- `session.get(Instrument, id)`. -/
def getInstrument (cat : Catalog) (id : UUID) : Option Instrument :=
  cat.instruments.find? fun i => i.id = id

theorem getInstrument_of_mem {cat : Catalog} {i : Instrument} (hi : i ∈ cat.instruments) :
    cat.getInstrument i.id = some i := by
  unfold getInstrument
  cases hf : cat.instruments.find? fun j => j.id = i.id with
  | none => exact absurd (List.find?_eq_none.mp hf i hi) (by simp)
  | some j =>
    have hid : j.id = i.id := by simpa using List.find?_some hf
    exact congrArg some (List.inj_on_of_nodup_map cat.ids_nodup (List.mem_of_find?_eq_some hf) hi hid)

end Catalog

/-! ## Lookup -/

/-- What `normalize_symbol` can raise before it writes. -/
inductive ResolveError
  /-- `SymbolNotMappedError(message)`. -/
  | symbolNotMapped (message : String)
  /-- `sqlalchemy.exc.MultipleResultsFound`, from `scalar_one_or_none()`. -/
  | multipleResultsFound
  deriving DecidableEq, Repr

/-- `Result.scalar_one_or_none()` on the rows of a `SELECT`. -/
def scalarOneOrNone {α : Type} : List α → Except ResolveError (Option α)
  | [] => .ok none
  | [row] => .ok (some row)
  | _ => .error .multipleResultsFound

/-- `_broker_exchange_to_canonical` (lines 171-184). -/
def brokerExchangeToCanonical (upper : String → String) (brokerExchange : String) : String :=
  let code := upper brokerExchange
  if code = "XNSE" then "NSE"
  else if code = "XBOM" then "BSE"
  else if code = "XNAS" then "NASDAQ"
  else if code = "XNYS" then "NYSE"
  else code

/-- The normalised arguments `(broker, bs, be)` of a lookup (lines 83-84). -/
structure LookupKey where
  broker : Broker
  bs : String
  be : Option String
  deriving DecidableEq, Repr

/-- `bs = broker_symbol.strip()` and
    `be = broker_exchange.strip().upper() if broker_exchange else None`; the
    empty string is falsy. -/
def lookupKey (upper : String → String) (broker : Broker) (brokerSymbol : String)
    (brokerExchange : Option String) : LookupKey where
  broker := broker
  bs := strip brokerSymbol
  be := (brokerExchange.filter (· ≠ "")).map fun e => upper (strip e)

/-- The mapping row `_create_mapping` writes for a key. -/
def LookupKey.mapping (k : LookupKey) (instrumentId : UUID) : SymbolMapping :=
  ⟨instrumentId, k.broker, k.bs, k.be⟩

/-- `inferred_exchange`: `None` when `be` is `None` or empty. -/
def LookupKey.inferredExchange (upper : String → String) (k : LookupKey) : Option String :=
  (k.be.filter (· ≠ "")).map (brokerExchangeToCanonical upper)

/-- `None` in an f-string. -/
def noneText : String := "None"

/-- The text of `SymbolNotMappedError` (lines 102-104). -/
def LookupKey.notMapped (k : LookupKey) : String :=
  s!"No mapping or inferred instrument for broker={k.broker.str} symbol={k.bs}" ++
    s!" exchange={k.be.getD noneText}"

namespace Catalog

variable (upper : String → String) (cat : Catalog)

/-- The rows `mapping_stmt` selects (lines 86-90). -/
def mappingsFor (k : LookupKey) : List SymbolMapping :=
  cat.mappings.filter fun m => m.broker = k.broker ∧ m.brokerSymbol = k.bs ∧ m.brokerExchange = k.be

/-- The rows `candidate_stmt` selects (lines 98-101). -/
def candidates (k : LookupKey) : List Instrument :=
  cat.instruments.filter fun i =>
    i.symbol = upper k.bs ∧ ∀ e ∈ k.inferredExchange upper, i.exchange = e

/-- How a lookup ended: with a mapping row, or with an inferred instrument that
    still has to be persisted. -/
inductive Resolution
  | mapped (i : Instrument)
  | inferred (i : Instrument)
  deriving DecidableEq, Repr

/-- The instrument of a resolution. -/
def Resolution.instrument : Resolution → Instrument
  | mapped i => i
  | inferred i => i

/-- `normalize_symbol` up to line 105: the mapping row first, then inference from
    the canonical symbol. An orphaned mapping row falls through to inference. -/
def resolve (k : LookupKey) : Except ResolveError Resolution := do
  let mapping ← scalarOneOrNone (cat.mappingsFor k)
  match mapping.bind fun m => cat.getInstrument m.instrumentId with
  | some inst => return .mapped inst
  | none =>
    match ← scalarOneOrNone (cat.candidates upper k) with
    | none => throw (.symbolNotMapped k.notMapped)
    | some candidate => return .inferred candidate

/-- The instrument a lookup ends with. -/
def find (k : LookupKey) : Except ResolveError Instrument :=
  (cat.resolve upper k).map Resolution.instrument

/-- The lookup fails because several rows match. -/
def Ambiguous (k : LookupKey) : Prop := cat.find upper k = .error .multipleResultsFound

instance (k : LookupKey) : Decidable (cat.Ambiguous upper k) := by
  unfold Ambiguous; infer_instance

/-! ## Persisting an inferred mapping -/

/-- The constraints an insert or a flush can violate. -/
inductive Constraint
  /-- Foreign key of `symbol_mappings.instrument_id`. -/
  | symbolMappingsInstrumentId
  /-- `uq_positions_conn_instrument`. -/
  | positionsConnInstrument
  /-- Unique `orders.idempotency_key`. -/
  | ordersIdempotencyKey
  deriving DecidableEq, Repr

end Catalog

open Catalog (Constraint)

/-- `INSERT INTO symbol_mappings ... ON CONFLICT DO NOTHING`, the PostgreSQL branch
    of `_create_mapping` (lines 141-156). -/
def Catalog.insertMapping (cat : Catalog) (m : SymbolMapping) : Except Constraint Catalog :=
  if hfk : ∃ i ∈ cat.instruments, i.id = m.instrumentId then
    if hc : ∃ m' ∈ cat.mappings, m'.Conflicts m then .ok cat
    else .ok
      { cat with
        mappings := cat.mappings ++ [m]
        uq_mappings := by
          push Not at hc
          exact List.pairwise_append.mpr ⟨cat.uq_mappings, List.pairwise_singleton _ _,
            fun a ha b hb => by rw [List.mem_singleton.mp hb]; exact hc a ha⟩
        mapping_fk := by
          intro m' hm'
          rcases List.mem_append.mp hm' with h | h
          · exact cat.mapping_fk m' h
          · rw [List.mem_singleton.mp h]; exact hfk }
  else .error .symbolMappingsInstrumentId

namespace Catalog

variable {upper : String → String} {cat : Catalog} {k : LookupKey}

variable (upper) in
/-- A mapping row never is an orphan, so one matching row decides the lookup. -/
theorem resolve_of_mapped {m : SymbolMapping} (h : cat.mappingsFor k = [m]) :
    ∃ i ∈ cat.instruments, i.id = m.instrumentId ∧ cat.resolve upper k = .ok (.mapped i) := by
  have hm : m ∈ cat.mappings := List.mem_of_mem_filter (h ▸ List.mem_singleton_self m)
  obtain ⟨i, hi, hid⟩ := cat.mapping_fk m hm
  refine ⟨i, hi, hid, ?_⟩
  have hget : cat.getInstrument m.instrumentId = some i := hid ▸ getInstrument_of_mem hi
  unfold resolve
  rw [h]
  simp [scalarOneOrNone, hget, bind, Except.bind, pure, Except.pure]

/-- With no mapping row the candidates decide the lookup. -/
theorem resolve_of_unmapped (h : cat.mappingsFor k = []) :
    cat.resolve upper k =
      match cat.candidates upper k with
      | [] => .error (.symbolNotMapped k.notMapped)
      | [i] => .ok (.inferred i)
      | _ => .error .multipleResultsFound := by
  unfold resolve
  rw [h]
  rcases cat.candidates upper k with _ | ⟨i, _ | ⟨j, l⟩⟩ <;>
    simp [scalarOneOrNone, bind, Except.bind, pure, Except.pure, throw, throwThe,
      MonadExceptOf.throw]

theorem resolve_of_several {m m' : SymbolMapping} {l : List SymbolMapping}
    (h : cat.mappingsFor k = m :: m' :: l) :
    cat.resolve upper k = .error .multipleResultsFound := by
  unfold resolve
  rw [h]
  simp [scalarOneOrNone, bind, Except.bind]

/-- A lookup that infers an instrument found no mapping row and one candidate. -/
theorem of_resolve_inferred {i : Instrument} (h : cat.resolve upper k = .ok (.inferred i)) :
    cat.mappingsFor k = [] ∧ cat.candidates upper k = [i] := by
  rcases hm : cat.mappingsFor k with _ | ⟨m, _ | ⟨m', l⟩⟩
  · rw [resolve_of_unmapped hm] at h
    rcases hc : cat.candidates upper k with _ | ⟨j, _ | ⟨j', l⟩⟩ <;> rw [hc] at h <;> cases h
    exact ⟨rfl, rfl⟩
  · obtain ⟨j, -, -, hj⟩ := resolve_of_mapped upper hm
    rw [hj] at h; cases h
  · rw [resolve_of_several hm] at h; cases h

theorem mem_of_resolve {r : Resolution} (h : cat.resolve upper k = .ok r) :
    r.instrument ∈ cat.instruments := by
  rcases hm : cat.mappingsFor k with _ | ⟨m, _ | ⟨m', l⟩⟩
  · rw [resolve_of_unmapped hm] at h
    rcases hc : cat.candidates upper k with _ | ⟨i, _ | ⟨i', l⟩⟩ <;> rw [hc] at h <;> cases h
    exact List.mem_of_mem_filter (hc ▸ List.mem_singleton_self i)
  · obtain ⟨i, hi, -, hr⟩ := resolve_of_mapped upper hm
    rw [hr] at h; cases h; exact hi
  · rw [resolve_of_several hm] at h; cases h

theorem mem_of_find {i : Instrument} (h : cat.find upper k = .ok i) : i ∈ cat.instruments := by
  unfold find at h
  cases hr : cat.resolve upper k with
  | error e => rw [hr] at h; cases h
  | ok r => rw [hr] at h; cases h; exact mem_of_resolve hr

variable (upper) in
/-- `cat'` has the instruments of `cat` and answers every lookup like it. -/
structure SameLookups (cat cat' : Catalog) : Prop where
  instruments : cat'.instruments = cat.instruments
  find : ∀ k, cat'.find upper k = cat.find upper k

theorem SameLookups.refl (cat : Catalog) : SameLookups upper cat cat := ⟨rfl, fun _ => rfl⟩

theorem SameLookups.trans {a b c : Catalog} (h₁ : SameLookups upper a b)
    (h₂ : SameLookups upper b c) : SameLookups upper a c :=
  ⟨h₂.instruments.trans h₁.instruments, fun k => (h₂.find k).trans (h₁.find k)⟩

/-- A key selects the mapping row written for it, and no other key does. -/
theorem mappingsFor_append {cat' : Catalog} {id : UUID}
    (h : cat'.mappings = cat.mappings ++ [k.mapping id]) (k' : LookupKey) :
    cat'.mappingsFor k' = cat.mappingsFor k' ++ if k' = k then [k.mapping id] else [] := by
  unfold mappingsFor
  rw [h, List.filter_append]
  congr 1
  by_cases hk : k' = k
  · subst hk; simp [LookupKey.mapping]
  · have hne : ¬ (k.broker = k'.broker ∧ k.bs = k'.bs ∧ k.be = k'.be) := by
      rintro ⟨h1, h2, h3⟩
      exact hk (by cases k; cases k'; simp_all)
    simp [LookupKey.mapping, hne, hk]

/-- Persisting an inferred mapping appends one row: no row of the same key exists. -/
theorem insertMapping_of_inferred {i : Instrument} (h : cat.resolve upper k = .ok (.inferred i)) :
    ∃ cat', cat.insertMapping (k.mapping i.id) = .ok cat' ∧
      cat'.instruments = cat.instruments ∧ cat'.mappings = cat.mappings ++ [k.mapping i.id] := by
  have hfk : ∃ j ∈ cat.instruments, j.id = (k.mapping i.id).instrumentId :=
    ⟨i, mem_of_resolve h, rfl⟩
  have hc : ¬ ∃ m' ∈ cat.mappings, m'.Conflicts (k.mapping i.id) := by
    rintro ⟨m', hm', h1, h2, -, h4⟩
    have hmem : m' ∈ cat.mappingsFor k := List.mem_filter.mpr ⟨hm', by simpa using ⟨h1, h2, h4⟩⟩
    rw [(of_resolve_inferred h).1] at hmem
    exact absurd hmem List.not_mem_nil
  unfold insertMapping
  rw [dif_pos hfk, dif_neg hc]
  exact ⟨_, rfl, rfl, rfl⟩

/-- Persisting an inferred mapping changes no answer. For the key itself the new
    row points to the instrument that was inferred; for every other key the
    selected rows are the same. -/
theorem find_insertMapping {i : Instrument} (h : cat.resolve upper k = .ok (.inferred i)) :
    ∃ cat', cat.insertMapping (k.mapping i.id) = .ok cat' ∧ SameLookups upper cat cat' := by
  obtain ⟨cat', hins, hinst, hmap⟩ := insertMapping_of_inferred h
  refine ⟨cat', hins, hinst, fun k' => ?_⟩
  have hrows := mappingsFor_append hmap k'
  unfold find
  by_cases hk : k' = k
  · subst hk
    rw [(of_resolve_inferred h).1, if_pos rfl, List.nil_append] at hrows
    obtain ⟨j, hj, hid, hr⟩ := resolve_of_mapped upper hrows
    rw [hr, h]
    rw [hinst] at hj
    exact congrArg Except.ok (List.inj_on_of_nodup_map cat.ids_nodup hj (mem_of_resolve h) hid)
  · rw [if_neg hk, List.append_nil] at hrows
    unfold resolve candidates getInstrument
    rw [hrows, hinst]

end Catalog

end Nivara.Portfolio
