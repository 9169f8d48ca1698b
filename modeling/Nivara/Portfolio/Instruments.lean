import Nivara.Lib.Loop
import Nivara.Portfolio.Session

/-!
# `InstrumentsService.resolve`

Finding or creating an instrument by its symbol and exchange (`services/instruments.py`,
lines 29-161), and what `normalize_symbol` makes of the same texts. Both services bring an
exchange to its stored form, each with a table of its own.

* `uuid4()` is an input: the id of the row that `resolve` adds.
* Another transaction that inserts the row between the `SELECT` and the `INSERT` is not
  modelled; the branch for it is.

Results:

* `of_resolve`: what `resolve` returns is stored under the canonical symbol and exchange.
* `normalizeExchange_eq_canonical`: the two tables agree on every code but `ARCX`.
* `normalizeSymbol_of_resolve_iff`: when `normalize_symbol` returns the same instrument.
-/

namespace Nivara.Portfolio

/-! ## Exchanges -/

/-- `_MIC_TO_EXCHANGE.get(code, code)`. -/
def micToExchange (code : String) : String :=
  if code = "XNAS" then "NASDAQ"
  else if code = "XNYS" then "NYSE"
  else if code = "XNSE" then "NSE"
  else if code = "XBOM" then "BSE"
  else if code = "ARCX" then "NYSEARCA"
  else if code = "BATS" then "BATS"
  else code

/-- `normalize_exchange`. -/
def normalizeExchange (upper : String → String) (exchange : String) : String :=
  micToExchange (upper (strip exchange))

/-- `_DEFAULT_CURRENCY_BY_EXCHANGE.get(exchange, "USD")`. -/
def defaultCurrency (exchange : String) : String :=
  if exchange = "NASDAQ" then "USD"
  else if exchange = "NYSE" then "USD"
  else if exchange = "NYSEARCA" then "USD"
  else if exchange = "BATS" then "USD"
  else if exchange = "NSE" then "INR"
  else if exchange = "BSE" then "INR"
  else "USD"

/-! ## The table -/

/-- The other columns of an instrument that `resolve` writes. -/
structure InstrumentDetails where
  name : String
  currency : String
  assetClass : String
  isin : Option String
  isActive : Bool
  deriving DecidableEq, Repr

structure InstrumentTables where
  database : Database
  details : UUID → Option InstrumentDetails

/-- How an `INSERT INTO instruments ... ON CONFLICT DO NOTHING` ends. -/
inductive InstrumentInsert
  | inserted (cat : Catalog)
  /-- A row of the symbol and exchange exists. -/
  | conflict
  /-- The primary key exists. -/
  | duplicateId

namespace Catalog

/-- `_get_by_symbol_exchange`. The rows are unique, so `scalar_one_or_none()` does not raise. -/
def getBySymbolExchange (cat : Catalog) (symbol exchange : String) : Option Instrument :=
  cat.instruments.find? fun i => i.symbol = symbol ∧ i.exchange = exchange

/-- `INSERT INTO instruments ... ON CONFLICT DO NOTHING` on the symbol and exchange. -/
def insertInstrument (cat : Catalog) (i : Instrument) : InstrumentInsert :=
  if hc : (i.symbol, i.exchange) ∈ cat.instruments.map (fun j => (j.symbol, j.exchange)) then .conflict
  else if hid : i.id ∈ cat.instruments.map Instrument.id then .duplicateId
  else .inserted
    { cat with
      instruments := cat.instruments ++ [i]
      ids_nodup := by
        rw [List.map_append]
        exact cat.ids_nodup.append (List.nodup_singleton _) (List.disjoint_singleton.mpr hid)
      uq_symbol_exchange := by
        rw [List.map_append]
        exact cat.uq_symbol_exchange.append (List.nodup_singleton _) (List.disjoint_singleton.mpr hc)
      mapping_fk := fun m hm => by
        obtain ⟨j, hj, hjm⟩ := cat.mapping_fk m hm
        exact ⟨j, List.mem_append_left _ hj, hjm⟩ }

variable {cat cat' : Catalog} {i j : Instrument} {symbol exchange : String}

/-- A symbol is listed once on an exchange. -/
theorem eq_of_listing (hi : i ∈ cat.instruments) (hj : j ∈ cat.instruments) (hsymbol : i.symbol = j.symbol)
    (hexchange : i.exchange = j.exchange) : i = j :=
  List.inj_on_of_nodup_map cat.uq_symbol_exchange hi hj (Prod.ext hsymbol hexchange)

theorem of_getBySymbolExchange (h : cat.getBySymbolExchange symbol exchange = some i) :
    i ∈ cat.instruments ∧ i.symbol = symbol ∧ i.exchange = exchange :=
  ⟨List.mem_of_find?_eq_some h, by simpa using List.find?_some h⟩

/-- An insert adds the row and keeps the mappings. -/
theorem of_insertInstrument (h : cat.insertInstrument i = .inserted cat') :
    cat'.instruments = cat.instruments ++ [i] ∧ cat'.mappings = cat.mappings := by
  unfold insertInstrument at h
  split at h
  · cases h
  · split at h
    · cases h
    · cases h
      exact ⟨rfl, rfl⟩

end Catalog

/-! ## `resolve` -/

/-- What `resolve` can raise. -/
inductive InstrumentError
  | lookupError (message : String)
  | runtimeError (message : String)
  /-- `IntegrityError` of the primary key. -/
  | integrityError
  deriving DecidableEq

/-- The arguments of `resolve`, and the id of a new row. -/
structure ResolveRequest where
  symbol : String
  exchange : String
  name : Option String
  currency : Option String
  assetClass : String
  isin : Option String
  createIfMissing : Bool
  newId : UUID

/-- `InstrumentsService.resolve` on PostgreSQL. -/
def InstrumentTables.resolve (upper : String → String) (st : InstrumentTables) (r : ResolveRequest) :
    Except InstrumentError (Instrument × InstrumentTables) :=
  let symbol := upper (strip r.symbol)
  let exchange := normalizeExchange upper r.exchange
  match st.database.catalog.getBySymbolExchange symbol exchange with
  | some existing => .ok (existing, st)
  | none =>
    if !r.createIfMissing then
      .error (.lookupError s!"Instrument not found: symbol={symbol} exchange={exchange}")
    else
      match r.name.filter (· ≠ "") with
      | none =>
        .error (.lookupError
          "Cannot create instrument without a name. Pass `name` on first encounter.")
      | some name =>
        let currency := (r.currency.filter (· ≠ "")).getD (defaultCurrency exchange)
        let i : Instrument := ⟨r.newId, symbol, exchange⟩
        match st.database.catalog.insertInstrument i with
        | .inserted cat =>
          .ok (i,
            { database := { st.database with catalog := cat }
              details := Function.update st.details r.newId
                (some ⟨name, currency, r.assetClass, r.isin, true⟩) })
        | .conflict =>
          match st.database.catalog.getBySymbolExchange symbol exchange with
          | some existing => .ok (existing, st)
          | none => .error (.runtimeError "ON CONFLICT DO NOTHING returned no row and SELECT found none.")
        | .duplicateId => .error .integrityError

variable {upper : String → String} {st st' : InstrumentTables} {r : ResolveRequest} {i : Instrument}
  {broker : Broker}

/-- The instrument is stored, under the canonical symbol and exchange. -/
theorem of_resolve (h : st.resolve upper r = .ok (i, st')) :
    i ∈ st'.database.catalog.instruments ∧ i.symbol = upper (strip r.symbol) ∧
      i.exchange = normalizeExchange upper r.exchange := by
  unfold InstrumentTables.resolve at h
  simp only at h
  split at h
  · rename_i existing hget
    cases h
    exact Catalog.of_getBySymbolExchange hget
  · split at h
    · cases h
    · split at h
      · cases h
      · split at h
        · rename_i cat hins
          cases h
          refine ⟨?_, rfl, rfl⟩
          rw [(Catalog.of_insertInstrument hins).1]
          exact List.mem_append_right _ (List.mem_singleton_self _)
        · split at h
          · -- the row that the first `SELECT` has not found
            rename_i existing hget
            cases hget
          · cases h
        · cases h

/-! ## The same instrument for `normalize_symbol` -/

/-- The two tables agree on every code but `ARCX`. -/
theorem brokerExchangeToCanonical_eq_micToExchange (hupper : ∀ s, upper (upper s) = upper s) (s : String)
    (harcx : upper s ≠ "ARCX") : brokerExchangeToCanonical upper (upper s) = micToExchange (upper s) := by
  unfold brokerExchangeToCanonical micToExchange
  simp only [hupper]
  by_cases hxnse : upper s = "XNSE"
  · simp [hxnse]
  by_cases hxbom : upper s = "XBOM"
  · simp [hxbom]
  by_cases hxnas : upper s = "XNAS"
  · simp [hxnas]
  by_cases hxnys : upper s = "XNYS"
  · simp [hxnys]
  by_cases hbats : upper s = "BATS"
  · simp [hbats]
  simp only [if_neg hxnse, if_neg hxbom, if_neg hxnas, if_neg hxnys, if_neg hbats, if_neg harcx]

/-- `normalize_symbol` looks at every exchange: the text is falsy, or it is after the
    normalisation. -/
def NoExchange (upper : String → String) (exchange : String) : Prop :=
  exchange = "" ∨ upper (strip exchange) = ""

instance (upper : String → String) (exchange : String) : Decidable (NoExchange upper exchange) :=
  inferInstanceAs (Decidable (_ ∨ _))

theorem inferredExchange_of_noExchange {exchange : String} (h : NoExchange upper exchange) (symbol : String) :
    (lookupKey upper broker symbol (some exchange)).inferredExchange upper = none := by
  unfold LookupKey.inferredExchange lookupKey
  by_cases hempty : exchange = ""
  · simp [hempty]
  · simp [hempty, h.resolve_left hempty]

theorem inferredExchange_of_exchange {exchange : String} (h : ¬ NoExchange upper exchange) (symbol : String) :
    (lookupKey upper broker symbol (some exchange)).inferredExchange upper =
      some (brokerExchangeToCanonical upper (upper (strip exchange))) := by
  unfold NoExchange at h
  push Not at h
  simp [LookupKey.inferredExchange, lookupKey, h.1, h.2]

/-- A lookup without a mapping row answers with the only candidate. -/
theorem find_of_unmapped_iff {cat : Catalog} {k : LookupKey} (hunmapped : cat.mappingsFor k = []) :
    cat.find upper k = .ok i ↔ cat.candidates upper k = [i] := by
  unfold Catalog.find
  rw [Catalog.resolve_of_unmapped hunmapped]
  rcases cat.candidates upper k with _ | ⟨j, _ | ⟨j', l⟩⟩
  · simp [Except.map]
  · simp [Except.map, Catalog.Resolution.instrument]
  · simp [Except.map]

theorem candidates_eq_singleton_iff {cat : Catalog} {k : LookupKey} (hi : i ∈ cat.instruments) :
    cat.candidates upper k = [i] ↔
      (i.symbol = upper k.bs ∧ ∀ e ∈ k.inferredExchange upper, i.exchange = e) ∧
        ∀ j ∈ cat.instruments, j.symbol = upper k.bs → (∀ e ∈ k.inferredExchange upper, j.exchange = e) →
          j = i := by
  have hnodup : (cat.candidates upper k).Nodup := (List.Nodup.of_map _ cat.ids_nodup).filter _
  have hmem : ∀ j, j ∈ cat.candidates upper k ↔ j ∈ cat.instruments ∧ j.symbol = upper k.bs ∧
      ∀ e ∈ k.inferredExchange upper, j.exchange = e := by
    intro j
    unfold Catalog.candidates
    rw [List.mem_filter, decide_eq_true_eq]
  constructor
  · intro h
    refine ⟨((hmem i).mp (h ▸ List.mem_singleton_self i)).2, fun j hj hsymbol hexchange => ?_⟩
    exact List.mem_singleton.mp (h ▸ (hmem j).mpr ⟨hj, hsymbol, hexchange⟩)
  · rintro ⟨hself, honly⟩
    refine List.perm_singleton.mp ((List.perm_ext_iff_of_nodup hnodup (List.nodup_singleton i)).mpr fun j => ?_)
    rw [hmem, List.mem_singleton]
    constructor
    · rintro ⟨hj, hsymbol, hexchange⟩
      exact honly j hj hsymbol hexchange
    · rintro rfl
      exact ⟨hi, hself⟩

/-- `normalize_symbol` returns the instrument that `resolve` has found or created for the same
    texts, exactly when the exchange is not `ARCX`, or the symbol has no other listing if
    there is no exchange in the text. -/
theorem normalizeSymbol_of_resolve_iff (upper : String → String) (hupper : ∀ s, upper (upper s) = upper s)
    (st st' : InstrumentTables) (r : ResolveRequest) (i : Instrument) (broker : Broker)
    (hresolve : st.resolve upper r = .ok (i, st'))
    (hunmapped : st'.database.catalog.mappingsFor (lookupKey upper broker r.symbol (some r.exchange)) = []) :
    (∃ s, normalizeSymbol upper st'.database.toSession broker r.symbol (some r.exchange) = .ok (i, s)) ↔
      (NoExchange upper r.exchange → ∀ j ∈ st'.database.catalog.instruments, j.symbol = i.symbol → j = i) ∧
        (¬ NoExchange upper r.exchange → upper (strip r.exchange) ≠ "ARCX") := by
  obtain ⟨hi, hsymbol, hexchange⟩ := of_resolve hresolve
  have hbs : (lookupKey upper broker r.symbol (some r.exchange)).bs = strip r.symbol := rfl
  rw [normalizeSymbol_ok_iff, Catalog.lookup, find_of_unmapped_iff hunmapped, candidates_eq_singleton_iff hi,
    hbs, ← hsymbol]
  by_cases hno : NoExchange upper r.exchange
  · rw [inferredExchange_of_noExchange hno]
    simp [hno]
  · rw [inferredExchange_of_exchange hno]
    simp only [hno, Option.mem_some_iff, forall_eq', not_false_eq_true, forall_const, true_and,
      IsEmpty.forall_iff]
    constructor
    · rintro ⟨hcanonical, -⟩ harcx
      -- one table stores `NYSEARCA`, the other one looks for `ARCX`
      have hself : upper "ARCX" = "ARCX" := by rw [← harcx, hupper]
      rw [hexchange, normalizeExchange, harcx] at hcanonical
      simp [brokerExchangeToCanonical, micToExchange, hself] at hcanonical
    · intro harcx
      rw [brokerExchangeToCanonical_eq_micToExchange hupper _ harcx]
      refine ⟨hexchange, fun j hj hjsymbol hjexchange => ?_⟩
      exact Catalog.eq_of_listing hj hi hjsymbol (hjexchange.trans hexchange.symm)

/-! ## Two requests -/

/-- The listings of `sampleCatalog`. -/
def sampleTables : InstrumentTables := ⟨sampleDatabase, fun _ => none⟩

/-- A listing of the table, by its MIC code. -/
def sampleRequest : ResolveRequest := ⟨" aapl", "xnas ", none, none, "equity", none, false, 4⟩

theorem toUpper_toUpper (s : String) : s.toUpper.toUpper = s.toUpper := by
  apply String.toList_injective
  unfold String.toUpper
  simp [String.toList_map]

theorem normalizeSymbol_of_resolve_sample :
    ∃ st', sampleTables.resolve String.toUpper sampleRequest = .ok (⟨1, "AAPL", "NASDAQ"⟩, st') ∧
      ∃ s, normalizeSymbol String.toUpper st'.database.toSession .alpaca " aapl" (some "xnas ") =
        .ok (⟨1, "AAPL", "NASDAQ"⟩, s) := by
  obtain ⟨⟨i, st'⟩, hok, htables⟩ := Option.map_eq_some_iff.mp (show
    (sampleTables.resolve String.toUpper sampleRequest).toOption.map
      (fun x => (x.1, x.2.database.catalog.mappings)) = some (⟨1, "AAPL", "NASDAQ"⟩, []) by decide +kernel)
  obtain ⟨rfl, hmappings⟩ := Prod.mk.inj htables
  have hresolve := Loop.eq_ok_of_toOption hok
  refine ⟨st', hresolve, (normalizeSymbol_of_resolve_iff String.toUpper toUpper_toUpper sampleTables st'
    sampleRequest _ .alpaca hresolve (by unfold Catalog.mappingsFor; rw [hmappings]; rfl)).mpr
      ⟨fun hno => absurd hno (by decide +kernel), fun _ => by decide +kernel⟩⟩

/-- An exchange-traded fund on NYSE Arca. -/
def arcaRequest : ResolveRequest := ⟨"SPY", "ARCX", some "SPDR S&P 500", none, "etf", none, true, 4⟩

/-- It is created and not found again. -/
theorem arcx_not_found :
    ¬ ∀ (st st' : InstrumentTables) (r : ResolveRequest) (i : Instrument) (broker : Broker),
      st.resolve String.toUpper r = .ok (i, st') →
      st'.database.catalog.mappingsFor (lookupKey String.toUpper broker r.symbol (some r.exchange)) = [] →
      (∀ j ∈ st'.database.catalog.instruments, j.symbol = i.symbol → j.exchange = i.exchange → j = i) →
      ∃ s, normalizeSymbol String.toUpper st'.database.toSession broker r.symbol (some r.exchange) =
        .ok (i, s) := by
  intro h
  obtain ⟨⟨i, st'⟩, hok, htables⟩ := Option.map_eq_some_iff.mp (show
    (sampleTables.resolve String.toUpper arcaRequest).toOption.map
      (fun x => (x.2.database.catalog.mappings,
        x.2.database.catalog.candidates String.toUpper ⟨.alpaca, "SPY", some "ARCX"⟩)) = some ([], []) by
    decide +kernel)
  obtain ⟨hmappings, hcandidates⟩ := Prod.mk.inj htables
  have hresolve := Loop.eq_ok_of_toOption hok
  have hkey : lookupKey String.toUpper .alpaca arcaRequest.symbol (some arcaRequest.exchange) =
      ⟨.alpaca, "SPY", some "ARCX"⟩ := by decide +kernel
  have hunmapped : st'.database.catalog.mappingsFor ⟨.alpaca, "SPY", some "ARCX"⟩ = [] := by
    unfold Catalog.mappingsFor
    rw [hmappings]
    rfl
  have hfound := h sampleTables st' arcaRequest i .alpaca hresolve (hkey ▸ hunmapped)
    fun j hj hsymbol hexchange => Catalog.eq_of_listing hj (of_resolve hresolve).1 hsymbol hexchange
  rw [normalizeSymbol_ok_iff, Catalog.lookup, hkey, find_of_unmapped_iff hunmapped, hcandidates] at hfound
  cases hfound

end Nivara.Portfolio
