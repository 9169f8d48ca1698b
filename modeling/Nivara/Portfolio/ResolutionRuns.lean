import Nivara.Lib.Transition
import Nivara.Portfolio.Instruments

/-!
# What a symbol resolves to over a run

Calls of `normalize_symbol` and new instruments, one after the other. The answer to a call
is stored as a mapping row, and nothing that follows adds a second row for its arguments.

`be` is `None` for the empty exchange and the empty string for one of blanks: a blank
exchange is looked up under a key of its own.

Results:

* `Pinned.step`: a pinned answer stays pinned.
* `normalizeSymbol_stable`: a later call with the same arguments, up to blanks around them
  and the case of the exchange, returns the same instrument; an exchange of blanks and an
  empty one are not the same.
* `blank_exchange_ambiguous`: they are not.
-/

namespace Nivara.Portfolio

open Transition

/-! ## Model -/

/-- What can happen to the catalog. -/
inductive CatalogOp
  | addInstrument (i : Instrument)
  | normalizeSymbol (broker : Broker) (brokerSymbol : String) (brokerExchange : Option String)

/-- One step of a run. A lookup that fails writes nothing; a flush that fails ends the
    transaction, and the run. -/
def Session.step (upper : String → String) (s : Session) : CatalogOp → Option Session
  | .addInstrument i =>
    match s.catalog.insertInstrument i with
    | .inserted cat => some { s with catalog := cat }
    | .conflict => some s
    | .duplicateId => none
  | .normalizeSymbol broker brokerSymbol brokerExchange =>
    match Nivara.Portfolio.normalizeSymbol upper s broker brokerSymbol brokerExchange with
    | .ok (_, s') => some s'
    | .error (.integrityError _) => none
    | .error _ => some s

/-! ## Pinned answers -/

/-- The one mapping row of the key points to the instrument. -/
def Catalog.Pinned (cat : Catalog) (k : LookupKey) (i : Instrument) : Prop :=
  i ∈ cat.instruments ∧ ∃ m, cat.mappingsFor k = [m] ∧ m.instrumentId = i.id

variable {upper : String → String} {s s' t : Session} {cat cat' : Catalog} {k k' : LookupKey}
  {i j : Instrument} {broker : Broker} {sym sym' : String} {exch exch' : Option String}

/-- A pinned answer is the answer. -/
theorem Catalog.Pinned.resolve (h : cat.Pinned k i) : cat.resolve upper k = .ok (.mapped i) := by
  obtain ⟨hi, m, hm, hid⟩ := h
  obtain ⟨j, hj, hjid, hresolve⟩ := Catalog.resolve_of_mapped upper hm
  have hji : j = i := List.inj_on_of_nodup_map cat.ids_nodup hj hi (hjid.trans hid)
  rw [hresolve, hji]

theorem Catalog.Pinned.insertInstrument (h : cat.Pinned k i) (hins : cat.insertInstrument j = .inserted cat') :
    cat'.Pinned k i := by
  obtain ⟨hi, m, hm, hid⟩ := h
  obtain ⟨hinstruments, hmappings⟩ := Catalog.of_insertInstrument hins
  refine ⟨hinstruments ▸ List.mem_append_left _ hi, m, ?_, hid⟩
  unfold Catalog.mappingsFor at hm ⊢
  rw [hmappings]
  exact hm

/-- A row that is written for a key leaves the rows of every other key as they are. -/
theorem Catalog.Pinned.insertMapping (h : cat.Pinned k i)
    (hresolve : cat.resolve upper k' = .ok (.inferred j)) (hins : cat.insertMapping (k'.mapping j.id) = .ok cat') :
    cat'.Pinned k i := by
  obtain ⟨hi, m, hm, hid⟩ := h
  obtain ⟨cat'', hins', hinstruments, hmappings⟩ := Catalog.insertMapping_of_inferred hresolve
  obtain rfl : cat'' = cat' := Except.ok.inj (hins'.symm.trans hins)
  have hne : k ≠ k' := by
    rintro rfl
    rw [(Catalog.of_resolve_inferred hresolve).1] at hm
    cases hm
  refine ⟨hinstruments ▸ hi, m, ?_, hid⟩
  rw [Catalog.mappingsFor_append hmappings k, if_neg hne, List.append_nil]
  exact hm

/-- What a call that returns has done: the answer was stored, or it has been stored now. -/
theorem of_normalizeSymbol (h : normalizeSymbol upper s broker sym exch = .ok (i, s')) :
    (s.catalog.resolve upper (lookupKey upper broker sym exch) = .ok (.mapped i) ∧ s' = s) ∨
    (s.catalog.resolve upper (lookupKey upper broker sym exch) = .ok (.inferred i) ∧
      ∃ cat', s.catalog.insertMapping ((lookupKey upper broker sym exch).mapping i.id) = .ok cat' ∧
        s' = { s with catalog := cat' }) := by
  unfold normalizeSymbol at h
  simp only at h
  split at h
  · cases h
  · rename_i inst hresolve
    cases h
    exact .inl ⟨hresolve, rfl⟩
  · rename_i candidate hresolve
    unfold createMapping at h
    split at h
    · cases h
    · rename_i cat' hins
      unfold Session.flush at h
      split_ifs at h
      · cases h
        exact .inr ⟨hresolve, cat', hins, rfl⟩
      · cases h
      · cases h

/-- A call that returns has pinned its answer. -/
theorem pinned_of_normalizeSymbol (h : normalizeSymbol upper s broker sym exch = .ok (i, s')) :
    s'.catalog.Pinned (lookupKey upper broker sym exch) i := by
  rcases of_normalizeSymbol h with ⟨hresolve, rfl⟩ | ⟨hresolve, cat', hins, rfl⟩
  · rcases hm : s'.catalog.mappingsFor (lookupKey upper broker sym exch) with _ | ⟨m, _ | ⟨m', l⟩⟩
    · rw [Catalog.resolve_of_unmapped hm] at hresolve
      split at hresolve <;> cases hresolve
    · obtain ⟨j, hj, hid, hresolve'⟩ := Catalog.resolve_of_mapped upper hm
      rw [hresolve'] at hresolve
      cases hresolve
      exact ⟨hj, m, hm, hid.symm⟩
    · rw [Catalog.resolve_of_several hm] at hresolve
      cases hresolve
  · obtain ⟨cat'', hins', hinstruments, hmappings⟩ := Catalog.insertMapping_of_inferred hresolve
    obtain rfl : cat'' = cat' := Except.ok.inj (hins'.symm.trans hins)
    refine ⟨hinstruments ▸ Catalog.mem_of_resolve hresolve,
      (lookupKey upper broker sym exch).mapping i.id, ?_, rfl⟩
    rw [Catalog.mappingsFor_append hmappings, (Catalog.of_resolve_inferred hresolve).1, if_pos rfl]
    rfl

/-- One step keeps a pinned answer. -/
theorem Catalog.Pinned.step {op : CatalogOp} (h : s.catalog.Pinned k i) (hstep : s.step upper op = some t) :
    t.catalog.Pinned k i := by
  unfold Session.step at hstep
  cases op with
  | addInstrument j =>
    simp only at hstep
    split at hstep
    · rename_i cat hins
      cases hstep
      exact h.insertInstrument hins
    · cases hstep
      exact h
    · cases hstep
  | normalizeSymbol broker sym exch =>
    simp only at hstep
    split at hstep
    · rename_i j s' hcall
      cases hstep
      rcases of_normalizeSymbol hcall with ⟨-, rfl⟩ | ⟨hresolve, cat', hins, rfl⟩
      · exact h
      · exact h.insertMapping hresolve hins
    · cases hstep
    · cases hstep
      exact h

/-! ## Runs -/

/-- The same exchange, up to blanks around it and case. -/
def SameExchange (upper : String → String) : Option String → Option String → Prop
  | none, none => True
  | some e, some e' => upper (strip e) = upper (strip e')
  | _, _ => False

theorem lookupKey_congr (hsym : strip sym' = strip sym) (hexch : SameExchange upper exch exch')
    (hempty : exch = some "" ↔ exch' = some "") :
    lookupKey upper broker sym' exch' = lookupKey upper broker sym exch := by
  unfold lookupKey
  rw [hsym]
  congr 1
  cases exch with
  | none =>
    cases exch' with
    | none => rfl
    | some e' => exact hexch.elim
  | some e =>
    cases exch' with
    | none => exact hexch.elim
    | some e' =>
      rw [Option.some.injEq, Option.some.injEq] at hempty
      by_cases he : e = ""
      · simp [he, hempty.mp he]
      · have he' : e' ≠ "" := fun h => he (hempty.mpr h)
        have hsame : upper (strip e) = upper (strip e') := hexch
        simp [Option.filter_some, he, he', hsame]

/-- Once `normalize_symbol` has returned an instrument, every later call with the same arguments
    returns it, whatever has been added and resolved in between. The texts of the exchange may
    differ in blanks and case, as long as both are empty or none is. -/
theorem normalizeSymbol_stable (upper : String → String) (s s' t : Session) (broker : Broker)
    (sym sym' : String) (exch exch' : Option String) (i : Instrument)
    (hfirst : normalizeSymbol upper s broker sym exch = .ok (i, s'))
    (hrun : Run (fun s op t => Session.step upper s op = some t) Unconditional s' t)
    (hsym : strip sym' = strip sym) (hexch : SameExchange upper exch exch')
    (hempty : exch = some "" ↔ exch' = some "") :
    normalizeSymbol upper t broker sym' exch' = .ok (i, t) := by
  have hpinned : t.catalog.Pinned (lookupKey upper broker sym exch) i :=
    hrun.invariant (I := fun s => s.catalog.Pinned (lookupKey upper broker sym exch) i)
      (pinned_of_normalizeSymbol hfirst) fun _ _ _ h _ hstep => h.step hstep
  rw [← lookupKey_congr hsym hexch hempty] at hpinned
  simp only [normalizeSymbol, hpinned.resolve]

/-- `AAPL` is resolved without an exchange; a second listing follows. The texts are in upper
    case. -/
def secondListing : List CatalogOp :=
  [.normalizeSymbol .alpaca "AAPL" none, .addInstrument ⟨4, "AAPL", "BSE"⟩]

theorem normalizeSymbol_stable_sample :
    ∃ s' t, normalizeSymbol id sampleDatabase.toSession .alpaca "AAPL" (some "NASDAQ") =
        .ok (⟨1, "AAPL", "NASDAQ"⟩, s') ∧
      secondListing.foldlM (Session.step id) s' = some t ∧
      normalizeSymbol id t .alpaca " AAPL" (some "NASDAQ ") = .ok (⟨1, "AAPL", "NASDAQ"⟩, t) := by
  obtain ⟨s', hs'⟩ := normalizeSymbol_ok_iff.mpr (show sampleDatabase.catalog.lookup id .alpaca
    "AAPL" (some "NASDAQ") = .ok ⟨1, "AAPL", "NASDAQ"⟩ by decide +kernel)
  obtain ⟨t, ht⟩ := Option.isSome_iff_exists.mp (show ((normalizeSymbol id sampleDatabase.toSession
    .alpaca "AAPL" (some "NASDAQ")).toOption.bind fun x =>
      secondListing.foldlM (Session.step id) x.2).isSome by decide +kernel)
  rw [hs'] at ht
  have hops : secondListing.foldlM (Session.step id) s' = some t := ht
  have hexch : SameExchange id (some "NASDAQ") (some "NASDAQ ") := by
    simp only [SameExchange]
    decide +kernel
  have hsym : strip " AAPL" = strip "AAPL" := by decide +kernel
  have hstable := normalizeSymbol_stable id sampleDatabase.toSession s' t .alpaca "AAPL" " AAPL"
    (some "NASDAQ") (some "NASDAQ ") ⟨1, "AAPL", "NASDAQ"⟩ hs' (Run.of_foldlM _ hops) hsym hexch (by simp)
  exact ⟨s', t, hs', hops, hstable⟩

/-- The empty exchange and one of blanks, before and after the second listing. -/
theorem blank_exchange_ambiguous :
    ¬ ∀ (s s' t : Session) (broker : Broker) (sym sym' : String) (exch exch' : Option String) (i : Instrument),
      normalizeSymbol id s broker sym exch = .ok (i, s') →
      Run (fun s op t => Session.step id s op = some t) Unconditional s' t →
      strip sym' = strip sym → SameExchange id exch exch' →
      normalizeSymbol id t broker sym' exch' = .ok (i, t) := by
  intro h
  obtain ⟨s', hs'⟩ := normalizeSymbol_ok_iff.mpr (show sampleDatabase.catalog.lookup id .alpaca
    "AAPL" (some "") = .ok ⟨1, "AAPL", "NASDAQ"⟩ by decide +kernel)
  obtain ⟨t, ht, hlook⟩ := Option.map_eq_some_iff.mp (show ((normalizeSymbol id
    sampleDatabase.toSession .alpaca "AAPL" (some "")).toOption.bind fun x =>
      secondListing.foldlM (Session.step id) x.2).map
        (fun t => t.catalog.lookup id .alpaca "AAPL" (some " ")) =
          some (.error .multipleResultsFound) by decide +kernel)
  rw [hs'] at ht
  have hops : secondListing.foldlM (Session.step id) s' = some t := ht
  have hexch : SameExchange id (some "") (some " ") := by
    simp only [SameExchange]
    decide +kernel
  have hlater := h _ s' t .alpaca "AAPL" "AAPL" (some "") (some " ") _ hs' (Run.of_foldlM _ hops) rfl hexch
  rw [normalizeSymbol_of_error hlook] at hlater
  cases hlater

end Nivara.Portfolio
