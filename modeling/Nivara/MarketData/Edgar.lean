import Nivara.Common.Dates
import Nivara.Common.Json

/-!
# EDGAR facts

The XBRL reducers of `data/edgar.py` (lines 132–447): `_extract_concept` reads the rows of a concept
out of the company facts, `_latest_annual` and `_prior_annual` select two of them.

* A row is skipped on a `KeyError`, a `ValueError` or a `TypeError`. An `InvalidOperation` of `Decimal` is
  an `ArithmeticError`, and none of these.
* `form` is only compared. The text of a list or an object is a parameter.

Results:

* `readRow_eq_ok`: which rows are read, and as what.
* `extractConcept_conceptFacts`: the search for a concept that is the only one of its company.
-/

namespace Nivara.MarketData

open Raises

variable {F : Type}

/-! ## Model -/

/-- `_Observation`. -/
structure Observation where
  end_ : Date
  value : PyDecimal
  fy : ℤ
  form : PyStr
  deriving DecidableEq

/-- `_REVENUE_TAGS`. -/
def revenueTags : List String :=
  ["Revenues", "SalesRevenueNet", "RevenueFromContractWithCustomerExcludingAssessedTax",
    "RevenueFromContractWithCustomerIncludingAssessedTax"]

/-- What the reducers raise. -/
inductive FactError
  | python (e : PyError)
  /-- `decimal.InvalidOperation`. -/
  | invalidOperation
  deriving DecidableEq

/-- `except (KeyError, ValueError, TypeError)`. -/
def FactError.isSkipped : FactError → Bool
  | .python .keyError => true
  | .python .valueError => true
  | .python .typeError => true
  | _ => false

/-- `v.get(key, default)`. -/
def getOr (key : String) (default : Json F) : Json F → Except PyError (Json F)
  | .obj members => .ok ((members.lookup (py key)).getD default)
  | _ => .error .attributeError

section Model

variable (f : Floats F) (containerText : Json F → PyStr)

/-- `str(v)`. -/
def textOf : Json F → PyStr
  | .null => py "None"
  | .bool true => py "True"
  | .bool false => py "False"
  | .int n => py (toString n)
  | .float x => f.str x
  | .str s => s
  | v => containerText v

/-- `int(row.get("fy") or 0)`. -/
def fyOf (row : Json F) : Except PyError ℤ := do
  ((← row.get "fy").orElse f (.int 0)).toInt f

/-- `str(row.get("form") or "")`. -/
def formOf (row : Json F) : Except PyError PyStr := do
  return textOf f containerText ((← row.get "form").orElse f (.str []))

/-- The body of the `try`, line by line. -/
def readRow (row : Json F) : Except FactError Observation := do
  let endStr ← (row.itemAt (py "end")).mapError .python
  let valueRaw ← (row.itemAt (py "val")).mapError .python
  let fy ← (fyOf f row).mapError .python
  let form ← (formOf f containerText row).mapError .python
  let end_ ← endStr.isoDate.mapError .python
  let value ← (valueRaw.decimal f).elim (.error .invalidOperation) .ok
  return ⟨end_, value, fy, form⟩

/-- `for row in raw`. -/
def readRows : List (Json F) → Except FactError (List Observation)
  | [] => .ok []
  | row :: raw =>
    match readRow f containerText row with
    | .ok observation => (observation :: ·) <$> readRows raw
    | .error e => if e.isSkipped then readRows raw else .error e

/-- `observations.sort(key=lambda o: o.end)`. -/
def sortByEnd (observations : List Observation) : List Observation :=
  observations.insertionSort fun o o' => ¬ o'.end_.Before o.end_

/-- `for unit in unit_preference`; `none` when no unit has observations. -/
def searchUnits (units : Json F) : List String → Except FactError (Option (List Observation))
  | [] => .ok none
  | unit :: unitPreference => do
    let raw ← (units.get unit).mapError .python
    if !raw.truthy f then searchUnits units unitPreference
    else
      let observations ← readRows f containerText (← raw.iter.mapError .python)
      if observations ≠ [] then return some (sortByEnd observations)
      else searchUnits units unitPreference

/-- `for tag in tag_chain`. -/
def searchTags (usGaap : Json F) (unitPreference : List String) :
    List String → Except FactError (List Observation)
  | [] => .ok []
  | tag :: tagChain => do
    let node ← (usGaap.get tag).mapError .python
    if !node.truthy f then searchTags usGaap unitPreference tagChain
    else
      let units ← (getOr "units" (.obj []) node).mapError .python
      match ← searchUnits f containerText units unitPreference with
      | some observations => return observations
      | none => searchTags usGaap unitPreference tagChain

/-- `_extract_concept`. -/
def extractConcept (facts : Json F) (tagChain unitPreference : List String) :
    Except FactError (List Observation) := do
  let inner ← (getOr "facts" (.obj []) facts).mapError .python
  let usGaap ← (getOr "us-gaap" (.obj []) inner).mapError .python
  searchTags f containerText usGaap unitPreference tagChain

end Model

/-- The rows of the annual report, `[o for o in obs if o.form == "10-K"]`. -/
def annualOf (obs : List Observation) : List Observation := obs.filter fun o => o.form = py "10-K"

/-- `_latest_annual`. -/
def latestAnnual (obs : List Observation) : Option Observation :=
  let annual := annualOf obs
  if annual ≠ [] then annual.getLast? else obs.getLast?

/-- `_prior_annual`. -/
def priorAnnual (obs : List Observation) : Option Observation :=
  let annual := annualOf obs
  if 2 ≤ annual.length then annual[annual.length - 2]? else none

/-! ## One row -/

variable {f : Floats F} {containerText : Json F → PyStr} {row : Json F}

/-- A row is read when it is an object with a date under `end`, a number under `val`, and a year
    under `fy` or none. -/
theorem readRow_eq_ok {o : Observation} :
    readRow f containerText row = .ok o ↔
      ∃ endStr valueRaw, row.itemAt (py "end") = .ok endStr ∧ row.itemAt (py "val") = .ok valueRaw ∧
        fyOf f row = .ok o.fy ∧ formOf f containerText row = .ok o.form ∧ endStr.isoDate = .ok o.end_ ∧
        valueRaw.decimal f = some o.value := by
  unfold readRow
  constructor
  · intro h
    obtain ⟨endStr, hend, h⟩ := Loop.of_bind_eq_ok h
    obtain ⟨valueRaw, hval, h⟩ := Loop.of_bind_eq_ok h
    obtain ⟨fy, hfy, h⟩ := Loop.of_bind_eq_ok h
    obtain ⟨form, hform, h⟩ := Loop.of_bind_eq_ok h
    obtain ⟨end_, hdate, h⟩ := Loop.of_bind_eq_ok h
    obtain ⟨value, hvalue, h⟩ := Loop.of_bind_eq_ok h
    cases h
    refine ⟨endStr, valueRaw, mapError_eq_ok.mp hend, mapError_eq_ok.mp hval, mapError_eq_ok.mp hfy,
      mapError_eq_ok.mp hform, mapError_eq_ok.mp hdate, ?_⟩
    cases hdecimal : valueRaw.decimal f with
    | none =>
      rw [hdecimal] at hvalue
      cases hvalue
    | some d =>
      rw [hdecimal] at hvalue
      exact congrArg some (Except.ok.inj hvalue)
  · rintro ⟨endStr, valueRaw, hend, hval, hfy, hform, hdate, hvalue⟩
    rw [mapError_eq_ok.mpr hend, mapError_eq_ok.mpr hval, mapError_eq_ok.mpr hfy, mapError_eq_ok.mpr hform]
    simp only [bind, Except.bind, mapError_eq_ok.mpr hdate, hvalue, Option.elim_some]
    rfl

/-! ## The rows -/

/-- The loop returns what the rows give, unless one of them raises what it does not skip. -/
theorem readRows_eq_ok {raw : List (Json F)} {observations : List Observation} :
    readRows f containerText raw = .ok observations ↔
      (∀ row ∈ raw, ∀ e, readRow f containerText row = .error e → e.isSkipped = true) ∧
        raw.filterMap (fun row => (readRow f containerText row).toOption) = observations := by
  induction raw generalizing observations with
  | nil => simp [readRows]
  | cons row raw ih =>
    rw [readRows]
    cases hrow : readRow f containerText row with
    | ok o =>
      have hmap : ((o :: ·) <$> readRows f containerText raw) = .ok observations ↔
          ∃ rest, readRows f containerText raw = .ok rest ∧ o :: rest = observations := by
        cases readRows f containerText raw <;> simp [Functor.map, Except.map]
      have htail : (row :: raw).filterMap (fun row => (readRow f containerText row).toOption) =
          o :: raw.filterMap fun row => (readRow f containerText row).toOption :=
        List.filterMap_cons_some (by rw [hrow]; rfl)
      rw [hmap, htail, List.forall_mem_cons, hrow]
      simp only [ih]
      constructor
      · rintro ⟨rest, ⟨hskip, rfl⟩, rfl⟩
        refine ⟨⟨?_, hskip⟩, rfl⟩
        intro e he
        cases he
      · rintro ⟨⟨-, hskip⟩, rfl⟩
        exact ⟨_, ⟨hskip, rfl⟩, rfl⟩
    | error e =>
      have htail : (row :: raw).filterMap (fun row => (readRow f containerText row).toOption) =
          raw.filterMap fun row => (readRow f containerText row).toOption :=
        List.filterMap_cons_none (by rw [hrow]; rfl)
      rw [htail, List.forall_mem_cons, hrow]
      dsimp only
      by_cases hskip : e.isSkipped = true
      · rw [if_pos hskip, ih]
        refine and_congr_left fun _ => ⟨fun h => ⟨?_, h⟩, fun h => h.2⟩
        rintro e' ⟨⟩
        exact hskip
      · rw [if_neg hskip]
        refine iff_of_false ?_ fun h => hskip (h.1.1 e rfl)
        intro h
        cases h

/-! ## A concept that is the only one of its company -/

/-- The facts of a company with the rows of one concept in one unit. -/
def conceptFacts (tag unit : String) (raw : List (Json F)) : Json F :=
  .obj [(py "facts", .obj [(py "us-gaap",
    .obj [(py tag, .obj [(py "units", .obj [(py unit, .arr raw)])])])])]

theorem get_singleton (key key' : String) (v : Json F) :
    Json.get key (.obj [(py key', v)]) = .ok (if py key = py key' then v else .null) := by
  show Except.ok ((List.lookup (py key) [(py key', v)]).getD .null) = _
  split_ifs with h
  · rw [h, List.lookup_cons_self]
    rfl
  · rw [List.lookup_cons, beq_false_of_ne h]
    rfl

theorem getOr_singleton (key : String) (v default : Json F) :
    getOr key default (.obj [(py key, v)]) = .ok v := by
  show Except.ok ((List.lookup (py key) [(py key, v)]).getD default) = _
  rw [List.lookup_cons_self]
  rfl

/-- The search in the units, of which one has rows. -/
theorem searchUnits_singleton (unit : String) (raw : List (Json F)) (unitPreference : List String) :
    searchUnits f containerText (.obj [(py unit, .arr raw)]) unitPreference =
      if py unit ∈ unitPreference.map py then
        (readRows f containerText raw).map fun observations =>
          if observations = [] then none else some (sortByEnd observations)
      else .ok none := by
  induction unitPreference with
  | nil => rfl
  | cons key unitPreference ih =>
    rw [searchUnits, get_singleton, ih]
    by_cases hkey : py key = py unit
    · rw [if_pos hkey, if_pos (List.mem_map.mpr ⟨key, List.mem_cons_self, hkey⟩)]
      cases raw with
      | nil => simp [readRows, Json.truthy, Except.map, Except.mapError, bind, Except.bind]
      | cons row raw =>
        cases hrows : readRows f containerText (row :: raw) with
        | error e => simp [Json.truthy, Json.iter, hrows, Except.map, Except.mapError, bind, Except.bind]
        | ok observations =>
          cases observations <;>
            simp [Json.truthy, Json.iter, hrows, Except.map, Except.mapError, bind, Except.bind, pure,
              Except.pure]
    · have hmem : py unit ∈ (key :: unitPreference).map py ↔ py unit ∈ unitPreference.map py := by
        rw [List.map_cons, List.mem_cons, or_iff_right fun h => hkey h.symm]
      rw [if_neg hkey]
      simp only [hmem]
      rfl

/-- The search in the tags, of which one has a unit with rows. -/
theorem searchTags_singleton (tag unit : String) (raw : List (Json F)) (unitPreference : List String)
    (tagChain : List String) :
    searchTags f containerText (.obj [(py tag, .obj [(py "units", .obj [(py unit, .arr raw)])])])
        unitPreference tagChain =
      if py tag ∈ tagChain.map py ∧ py unit ∈ unitPreference.map py then
        (readRows f containerText raw).map sortByEnd
      else .ok [] := by
  induction tagChain with
  | nil => rfl
  | cons key tagChain ih =>
    rw [searchTags, get_singleton, ih]
    by_cases hkey : py key = py tag
    · have hmem : py tag ∈ (key :: tagChain).map py := List.mem_map.mpr ⟨key, List.mem_cons_self, hkey⟩
      rw [if_pos hkey]
      simp only [hmem, true_and]
      have hunits : getOr "units" (.obj []) (.obj [(py "units", Json.obj [(py unit, .arr raw)])]) =
          .ok (.obj [(py unit, .arr raw)]) := getOr_singleton _ _ _
      simp only [Except.mapError, bind, Except.bind, hunits, searchUnits_singleton]
      by_cases hunit : py unit ∈ unitPreference.map py
      · simp only [hunit, and_true, if_true]
        cases hrows : readRows f containerText raw with
        | error e => simp [Json.truthy, Except.map]
        | ok observations =>
          cases observations <;> simp [Json.truthy, Except.map, pure, Except.pure, sortByEnd]
      · simp [hunit, Json.truthy]
    · have hmem : py tag ∈ (key :: tagChain).map py ↔ py tag ∈ tagChain.map py := by
        rw [List.map_cons, List.mem_cons, or_iff_right fun h => hkey h.symm]
      rw [if_neg hkey]
      simp only [hmem]
      rfl

/-- The search for a concept of which the company has one list of rows. -/
theorem extractConcept_conceptFacts {tag unit : String} {tagChain unitPreference : List String}
    (htag : tag ∈ tagChain) (hunit : unit ∈ unitPreference) (raw : List (Json F)) :
    extractConcept f containerText (conceptFacts tag unit raw) tagChain unitPreference =
      (readRows f containerText raw).map sortByEnd := by
  unfold extractConcept conceptFacts
  rw [getOr_singleton]
  simp only [Except.mapError, bind, Except.bind]
  rw [getOr_singleton]
  dsimp only
  rw [searchTags_singleton]
  exact if_pos ⟨List.mem_map_of_mem htag, List.mem_map_of_mem hunit⟩

end Nivara.MarketData
