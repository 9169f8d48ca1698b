import Nivara.MarketData.Edgar

/-!
# Malformed rows of a concept

What `_extract_concept` (`data/edgar.py`, lines 335–372) makes of rows that are no facts: no objects, or
with anything under `end`, `val` and `fy`. The rows are those of the one concept of a company.

* A fact is a row with an ISO date under `end` and a finite number under `val`.
* That the text of a finite double is one that `Decimal` reads is `DocumentedFloats`.

Results:

* `rowRight_iff`: the rows that are read or skipped as they should be.
* `extractConcept_totalLocal_iff`: for which lists nothing is raised, the facts are what is read,
  and the other rows may as well be missing.
* `nullValue_raises`: `"val": null`.
-/

namespace Nivara.MarketData

open Raises

variable {F : Type}

/-! ## Facts -/

/-- `str(x)` of a finite double is the text of a number. -/
structure DocumentedFloats (f : Floats F) : Prop where
  decimal_str : ∀ x whole, f.kind x = .finite whole → ∃ d, Literals.decimal (f.str x) = some d

/-- A finite number. -/
def isFiniteNumber (f : Floats F) : Json F → Bool
  | .int _ => true
  | .float x =>
    match f.kind x with
    | .finite _ => true
    | _ => false
  | _ => false

/-- The period end and the value of a row that is a fact. -/
def factOf (f : Floats F) (row : Json F) : Option (Date × PyDecimal) :=
  match row.itemAt (py "end"), row.itemAt (py "val") with
  | .ok endStr, .ok valueRaw =>
    if isFiniteNumber f valueRaw then
      endStr.isoDate.toOption.bind fun end_ => (valueRaw.decimal f).map fun value => (end_, value)
    else none
  | _, _ => none

/-- The period end and the value of an observation. -/
def Observation.fact (o : Observation) : Date × PyDecimal := (o.end_, o.value)

/-- A row that `_extract_concept` is fit for. -/
structure RowClean (f : Floats F) (row : Json F) : Prop where
  /-- With `end` and `val`, it has no infinite double under `fy`. -/
  fy_ne_infinite : ∀ endStr valueRaw, row.itemAt (py "end") = .ok endStr → row.itemAt (py "val") = .ok valueRaw →
    fyOf f row ≠ .error .overflowError
  /-- As a fact, it has nothing under `fy`, or what `int` reads. -/
  fy_of_fact : (factOf f row).isSome = true → ∃ fy, fyOf f row = .ok fy
  /-- With a date under `end` and such a year, it is a fact, unless it has no `val`. -/
  val_of_date : ∀ endStr valueRaw end_ fy, row.itemAt (py "end") = .ok endStr →
    row.itemAt (py "val") = .ok valueRaw → endStr.isoDate = .ok end_ → fyOf f row = .ok fy →
    isFiniteNumber f valueRaw = true

variable {f : Floats F} {containerText : Json F → PyStr} {row : Json F}

/-- The row is read as the fact that it is, or skipped when it is none. -/
def RowRight (f : Floats F) (containerText : Json F → PyStr) (row : Json F) : Prop :=
  match readRow f containerText row with
  | .ok o => factOf f row = some o.fact
  | .error e => e.isSkipped = true ∧ factOf f row = none

/-! ## One row -/

theorem isObject_of_itemAt {key : PyStr} {v : Json F} (h : row.itemAt key = .ok v) : row.IsObject := by
  cases row with
  | obj members => trivial
  | _ => cases h

theorem itemAt_eq_error {key : PyStr} {e : PyError} (h : row.itemAt key = .error e) :
    (FactError.python e).isSkipped = true := by
  cases row with
  | obj members =>
    unfold Json.itemAt at h
    dsimp only at h
    split at h <;> cases h
    rfl
  | _ =>
    cases h
    rfl

theorem isoDate_eq_error {v : Json F} {e : PyError} (h : v.isoDate = .error e) :
    (FactError.python e).isSkipped = true := by
  cases v with
  | str s =>
    unfold Json.isoDate at h
    dsimp only at h
    split at h <;> cases h
    rfl
  | _ =>
    cases h
    rfl

variable (f containerText) in
theorem formOf_of_isObject (h : row.IsObject) : ∃ form, formOf f containerText row = .ok form := by
  unfold formOf
  rw [Json.get_of_isObject h]
  exact ⟨_, rfl⟩

/-- An object raises for its `fy` what is skipped, unless it is an infinite double. -/
theorem fyOf_eq_error {e : PyError} (hobject : row.IsObject) (h : fyOf f row = .error e) :
    e = .overflowError ∨ (FactError.python e).isSkipped = true := by
  unfold fyOf at h
  rw [Json.get_of_isObject hobject] at h
  change ((row.field "fy").orElse f (.int 0)).toInt f = .error e at h
  cases hfy : (row.field "fy").orElse f (.int 0) with
  | float x =>
    rw [hfy] at h
    unfold Json.toInt at h
    dsimp only at h
    split at h <;> cases h
    · exact .inr rfl
    · exact .inl rfl
  | str s =>
    rw [hfy] at h
    unfold Json.toInt at h
    dsimp only at h
    split at h <;> cases h
    exact .inr rfl
  | bool b | int n =>
    rw [hfy] at h
    cases h
  | null | arr values | obj members =>
    rw [hfy] at h
    cases h
    exact .inr rfl

theorem decimal_of_isFiniteNumber (hf : DocumentedFloats f) {v : Json F} (h : isFiniteNumber f v = true) :
    ∃ d, v.decimal f = some d := by
  cases v with
  | int n => exact ⟨_, rfl⟩
  | float x =>
    unfold isFiniteNumber at h
    dsimp only at h
    split at h
    · exact hf.decimal_str x _ ‹_›
    · cases h
  | null | bool b | str s | arr values | obj members => cases h

variable (f containerText) in
/-- What a row with `end` and `val` is read as. -/
theorem readRow_of_itemAt {endStr valueRaw : Json F} (hend : row.itemAt (py "end") = .ok endStr)
    (hval : row.itemAt (py "val") = .ok valueRaw) :
    ∃ form, readRow f containerText row = do
      let fy ← (fyOf f row).mapError .python
      let end_ ← endStr.isoDate.mapError .python
      let value ← (valueRaw.decimal f).elim (.error .invalidOperation) .ok
      return ⟨end_, value, fy, form⟩ := by
  obtain ⟨form, hform⟩ := formOf_of_isObject f containerText (isObject_of_itemAt hend)
  refine ⟨form, ?_⟩
  unfold readRow
  rw [hend, hval, hform]
  rfl

theorem rowRight_of_skipped {e : FactError} (hread : readRow f containerText row = .error e)
    (hskip : e.isSkipped = true) : RowRight f containerText row ↔ factOf f row = none := by
  unfold RowRight
  rw [hread]
  exact and_iff_right hskip

/-- A row without `end` or `val` is skipped, and is no fact. -/
theorem rowRight_of_missing {e : PyError} (hread : readRow f containerText row = .error (.python e))
    (hskip : (FactError.python e).isSkipped = true)
    (hmissing : row.itemAt (py "end") = .error e ∨ row.itemAt (py "val") = .error e) :
    RowRight f containerText row ↔ RowClean f row := by
  have hnone : factOf f row = none := by
    unfold factOf
    rcases hmissing with h | h
    · rw [h]
    · rw [h]
      cases row.itemAt (py "end") <;> rfl
  refine iff_of_true ((rowRight_of_skipped hread hskip).mpr hnone) ⟨?_, ?_, ?_⟩
  · intro endStr valueRaw hend hval
    rcases hmissing with h | h
    · rw [h] at hend
      cases hend
    · rw [h] at hval
      cases hval
  · intro hfact
    rw [hnone] at hfact
    cases hfact
  · intro endStr valueRaw end_ fy hend hval
    rcases hmissing with h | h
    · rw [h] at hend
      cases hend
    · rw [h] at hval
      cases hval

section Members

variable {endStr valueRaw : Json F} (hend : row.itemAt (py "end") = .ok endStr)
  (hval : row.itemAt (py "val") = .ok valueRaw)
include hend hval

theorem factOf_of_itemAt :
    factOf f row =
      if isFiniteNumber f valueRaw then
        endStr.isoDate.toOption.bind fun end_ => (valueRaw.decimal f).map fun value => (end_, value)
      else none := by
  unfold factOf
  rw [hend, hval]

/-- What a clean row is, when it has `end` and `val`. -/
theorem rowClean_iff :
    RowClean f row ↔ fyOf f row ≠ .error .overflowError ∧
      ((factOf f row).isSome = true → ∃ fy, fyOf f row = .ok fy) ∧
      ∀ end_ fy, endStr.isoDate = .ok end_ → fyOf f row = .ok fy → isFiniteNumber f valueRaw = true := by
  constructor
  · rintro ⟨hinf, hfact, hnumber⟩
    exact ⟨hinf _ _ hend hval, hfact, fun end_ fy => hnumber _ _ end_ fy hend hval⟩
  · rintro ⟨hinf, hfact, hnumber⟩
    refine ⟨fun _ _ _ _ => hinf, hfact, ?_⟩
    intro endStr' valueRaw' end_ fy hend' hval' hdate hfy
    rw [hval] at hval'
    rw [hend] at hend'
    cases hend'
    cases hval'
    exact hnumber end_ fy hdate hfy

/-- A row whose `fy` raises. -/
theorem rowRight_of_fy_error {e : PyError} (hfy : fyOf f row = .error e) :
    RowRight f containerText row ↔ RowClean f row := by
  obtain ⟨form, hread⟩ := readRow_of_itemAt f containerText hend hval
  rw [rowClean_iff hend hval]
  rw [hfy] at hread ⊢
  rcases fyOf_eq_error (isObject_of_itemAt hend) hfy with rfl | hskip
  · refine iff_of_false ?_ fun h => h.1 rfl
    unfold RowRight
    rw [hread]
    rintro ⟨hskip, -⟩
    cases hskip
  · rw [rowRight_of_skipped hread hskip]
    constructor
    · intro hnone
      refine ⟨?_, ?_, ?_⟩
      · rintro ⟨⟩
        cases hskip
      · intro hfact
        rw [hnone] at hfact
        cases hfact
      · intro _ _ _ h
        cases h
    · rintro ⟨-, hfact, -⟩
      by_contra hne
      obtain ⟨fy, h⟩ := hfact (Option.isSome_iff_ne_none.mpr hne)
      cases h

/-- A row that is dated, with a year that is read. -/
theorem rowRight_of_date (hf : DocumentedFloats f) {fy : ℤ} {end_ : Date} (hfy : fyOf f row = .ok fy)
    (hdate : endStr.isoDate = .ok end_) : RowRight f containerText row ↔ RowClean f row := by
  obtain ⟨form, hread⟩ := readRow_of_itemAt f containerText hend hval
  rw [rowClean_iff hend hval]
  have hfact := factOf_of_itemAt (f := f) hend hval
  rw [hfy, hdate] at hread
  rw [hdate] at hfact
  by_cases hnumber : isFiniteNumber f valueRaw = true
  · obtain ⟨value, hvalue⟩ := decimal_of_isFiniteNumber hf hnumber
    rw [hvalue] at hread
    rw [if_pos hnumber, hvalue] at hfact
    refine iff_of_true ?_ ⟨?_, fun _ => ⟨fy, hfy⟩, fun _ _ _ _ => hnumber⟩
    · unfold RowRight
      rw [hread]
      exact hfact
    · rw [hfy]
      rintro ⟨⟩
  · rw [if_neg hnumber] at hfact
    refine iff_of_false ?_ fun h => hnumber (h.2.2 _ _ hdate hfy)
    unfold RowRight
    cases hvalue : valueRaw.decimal f with
    | none =>
      rw [hvalue] at hread
      rw [hread]
      rintro ⟨hskip, -⟩
      cases hskip
    | some value =>
      rw [hvalue] at hread
      rw [hread]
      intro h
      rw [hfact] at h
      cases h

end Members

/-- The rows that are read or skipped as they should be. -/
theorem rowRight_iff (hf : DocumentedFloats f) : RowRight f containerText row ↔ RowClean f row := by
  cases hend : row.itemAt (py "end") with
  | error e =>
    have hread : readRow f containerText row = .error (.python e) := by
      unfold readRow
      rw [hend]
      rfl
    exact rowRight_of_missing hread (itemAt_eq_error hend) (.inl hend)
  | ok endStr =>
    cases hval : row.itemAt (py "val") with
    | error e =>
      have hread : readRow f containerText row = .error (.python e) := by
        unfold readRow
        rw [hend, hval]
        rfl
      exact rowRight_of_missing hread (itemAt_eq_error hval) (.inr hval)
    | ok valueRaw =>
      cases hfy : fyOf f row with
      | error e => exact rowRight_of_fy_error hend hval hfy
      | ok fy =>
        cases hdate : endStr.isoDate with
        | ok end_ => exact rowRight_of_date hend hval hf hfy hdate
        | error e =>
          obtain ⟨form, hread⟩ := readRow_of_itemAt f containerText hend hval
          rw [hfy, hdate] at hread
          have hnone : factOf f row = none := by
            rw [factOf_of_itemAt hend hval, hdate]
            exact ite_self _
          rw [rowRight_of_skipped hread (isoDate_eq_error hdate), rowClean_iff hend hval, hnone, hfy, hdate]
          refine iff_of_true rfl ⟨?_, ?_, ?_⟩
          · rintro ⟨⟩
          · intro h
            cases h
          · intro _ _ h
            cases h

/-! ## The list -/

/-- The row is a fact. -/
def IsFact (f : Floats F) (row : Json F) : Bool := (factOf f row).isSome

/-- The order of `sortByEnd`, on facts. -/
def sortFacts (facts : List (Date × PyDecimal)) : List (Date × PyDecimal) :=
  facts.insertionSort fun p p' => ¬ p'.1.Before p.1

/-- Nothing is raised for the rows of a concept, the observations are the facts among them, and they
    are what the facts alone give. -/
def TotalLocal (f : Floats F) (containerText : Json F → PyStr) (tag unit : String)
    (tagChain unitPreference : List String) (raw : List (Json F)) : Prop :=
  ∃ observations,
    extractConcept f containerText (conceptFacts tag unit raw) tagChain unitPreference = .ok observations ∧
    observations.map Observation.fact = sortFacts (raw.filterMap (factOf f)) ∧
    extractConcept f containerText (conceptFacts tag unit (raw.filter (IsFact f))) tagChain unitPreference =
      .ok observations

theorem map_fact_sortByEnd (observations : List Observation) :
    (sortByEnd observations).map Observation.fact = sortFacts (observations.map Observation.fact) :=
  List.map_insertionSort _ _ _ _ fun _ _ _ _ => Iff.rfl

/-- Of two conditions of which one implies the other, with equally many elements of a list. -/
theorem of_countP_eq {α : Type*} {p q : α → Bool} {l : List α} (himp : ∀ a ∈ l, p a → q a)
    (hcount : l.countP p = l.countP q) : ∀ a ∈ l, q a → p a := by
  induction l with
  | nil => simp
  | cons a l ih =>
    have hle := List.countP_mono_left fun b hb => himp b (List.mem_cons_of_mem _ hb)
    have ih := ih fun b hb => himp b (List.mem_cons_of_mem _ hb)
    rw [List.countP_cons, List.countP_cons] at hcount
    have hhead := himp a List.mem_cons_self
    by_cases hq : q a = true
    · by_cases hp : p a = true
      · simp only [hp, hq, if_true, add_left_inj] at hcount
        exact List.forall_mem_cons.mpr ⟨fun _ => hp, ih hcount⟩
      · simp only [hp, hq] at hcount
        simp at hcount
        omega
    · have hp : ¬ p a = true := fun hp => hq (hhead hp)
      simp only [hp, hq] at hcount
      exact List.forall_mem_cons.mpr ⟨fun h => absurd h hq, ih (by simpa using hcount)⟩

/-- What is read of a right row. -/
theorem RowRight.toOption_map (h : RowRight f containerText row) :
    (readRow f containerText row).toOption.map Observation.fact = factOf f row := by
  unfold RowRight at h
  cases hread : readRow f containerText row with
  | ok o =>
    rw [hread] at h
    exact h.symm
  | error e =>
    rw [hread] at h
    exact h.2.symm

theorem RowRight.isSkipped (h : RowRight f containerText row) :
    ∀ e, readRow f containerText row = .error e → e.isSkipped = true := by
  intro e hread
  unfold RowRight at h
  rw [hread] at h
  exact h.1

/-- Right rows are read as the facts among them. -/
theorem readRows_of_right {raw : List (Json F)} (hright : ∀ row ∈ raw, RowRight f containerText row) :
    ∃ observations, readRows f containerText raw = .ok observations ∧
      observations.map Observation.fact = raw.filterMap (factOf f) ∧
      readRows f containerText (raw.filter (IsFact f)) = .ok observations := by
  refine ⟨_, readRows_eq_ok.mpr ⟨fun row hrow => (hright row hrow).isSkipped, rfl⟩, ?_,
    readRows_eq_ok.mpr ⟨?_, ?_⟩⟩
  · rw [List.map_filterMap]
    exact List.filterMap_congr fun row hrow => (hright row hrow).toOption_map
  · intro row hrow
    exact (hright row (List.mem_of_mem_filter hrow)).isSkipped
  · rw [List.filterMap_filter]
    refine List.filterMap_congr fun row hrow => ?_
    -- a row that is no fact gives nothing anyway
    cases hfact : IsFact f row with
    | true => rfl
    | false =>
      have hmap := (hright row hrow).toOption_map
      have hnone : factOf f row = none :=
        Option.isNone_iff_eq_none.mp (Option.isSome_eq_false_iff.mp hfact)
      rw [hnone] at hmap
      exact (Option.map_eq_none_iff.mp hmap).symm

/-- A fact that is read is read as what it is. -/
theorem factOf_of_readRow {o : Observation} (hread : readRow f containerText row = .ok o)
    (hfact : IsFact f row = true) : factOf f row = some o.fact := by
  obtain ⟨endStr, valueRaw, hend, hval, -, -, hdate, hvalue⟩ := readRow_eq_ok.mp hread
  have heq := factOf_of_itemAt (f := f) hend hval
  unfold IsFact at hfact
  rw [hdate, hvalue] at heq
  by_cases hnumber : isFiniteNumber f valueRaw = true
  · rw [heq, if_pos hnumber]
    rfl
  · rw [heq, if_neg hnumber] at hfact
    cases hfact

/-- As many observations as facts, from the list and from the facts alone: all rows are right. -/
theorem right_of_readRows {raw : List (Json F)} {observations kept : List Observation}
    (hraw : readRows f containerText raw = .ok observations)
    (hfacts : readRows f containerText (raw.filter (IsFact f)) = .ok kept)
    (hcount : observations.length = (raw.filter (IsFact f)).length)
    (hkept : kept.length = observations.length) :
    ∀ row ∈ raw, RowRight f containerText row := by
  let isRead : Json F → Bool := fun row => (readRow f containerText row).toOption.isSome
  obtain ⟨hskip, rfl⟩ := readRows_eq_ok.mp hraw
  obtain ⟨-, rfl⟩ := readRows_eq_ok.mp hfacts
  rw [List.length_filterMap_eq_countP] at hcount hkept
  rw [List.length_filterMap_eq_countP, hcount] at hkept
  -- every fact is read
  have hread : ∀ row ∈ raw, IsFact f row = true → isRead row = true := by
    intro row hrow hfact
    have hall := List.countP_eq_length.mp hkept
    exact hall row (List.mem_filter.mpr ⟨hrow, hfact⟩)
  rw [← List.countP_eq_length_filter] at hcount
  have hfact := of_countP_eq hread hcount.symm
  intro row hrow
  unfold RowRight
  cases hreadRow : readRow f containerText row with
  | ok o =>
    have hisRead : isRead row = true := by
      show (readRow f containerText row).toOption.isSome = true
      rw [hreadRow]
      rfl
    exact factOf_of_readRow hreadRow (hfact row hrow hisRead)
  | error e =>
    refine ⟨hskip row hrow e hreadRow, ?_⟩
    by_contra hne
    have hsome : (readRow f containerText row).toOption.isSome = true :=
      hread row hrow (Option.isSome_iff_ne_none.mpr hne)
    rw [hreadRow] at hsome
    cases hsome

/-- For a list of rows of the one concept of a company, the reducer raises nothing, returns the facts
    and is blind to the other rows exactly when every row is clean. -/
theorem extractConcept_totalLocal_iff (hf : DocumentedFloats f) (containerText : Json F → PyStr)
    {tag unit : String} {tagChain unitPreference : List String} (htag : tag ∈ tagChain)
    (hunit : unit ∈ unitPreference) (raw : List (Json F)) :
    TotalLocal f containerText tag unit tagChain unitPreference raw ↔ ∀ row ∈ raw, RowClean f row := by
  unfold TotalLocal
  simp only [extractConcept_conceptFacts htag hunit]
  constructor
  · rintro ⟨observations, hraw, hfacts, hkept⟩
    obtain ⟨read, hread, rfl⟩ := Loop.of_map_eq_ok hraw
    obtain ⟨kept, hkeptRead, hsame⟩ := Loop.of_map_eq_ok hkept
    have hcount : read.length = (raw.filter (IsFact f)).length := by
      have hlength := congrArg List.length hfacts
      rw [List.length_map, sortByEnd, sortFacts, List.length_insertionSort, List.length_insertionSort,
        List.length_filterMap_eq_countP, List.countP_eq_length_filter] at hlength
      exact hlength
    have hkeptCount : kept.length = read.length := by
      have hlength := congrArg List.length hsame
      rwa [sortByEnd, sortByEnd, List.length_insertionSort, List.length_insertionSort] at hlength
    intro row hrow
    exact (rowRight_iff hf).mp (right_of_readRows hread hkeptRead hcount hkeptCount row hrow)
  · intro hclean
    have hright : ∀ row ∈ raw, RowRight f containerText row :=
      fun row hrow => (rowRight_iff hf).mpr (hclean row hrow)
    obtain ⟨read, hread, hfacts, hkept⟩ := readRows_of_right hright
    refine ⟨sortByEnd read, ?_, ?_, ?_⟩
    · rw [hread]
      rfl
    · rw [map_fact_sortByEnd, hfacts]
    · rw [hkept]
      rfl

/-! ## Revenues with a value missing -/

/-- Two of the doubles. -/
inductive SampleDouble
  | twoAndAHalf
  | infinity

def sampleDoubles : Floats SampleDouble where
  kind
    | .twoAndAHalf => .finite 2
    | .infinity => .infinity
  bool _ := true
  str
    | .twoAndAHalf => py "2.5"
    | .infinity => py "inf"

theorem sampleDoubles_documented : DocumentedFloats sampleDoubles where
  decimal_str x whole hkind := by
    cases x with
    | twoAndAHalf => exact ⟨.finite false 25 (-1), by decide +kernel⟩
    | infinity => cases hkind

/-- A row of an annual report. -/
def annualRow (end_ : String) (val : Json SampleDouble) (fy : Json SampleDouble) : Json SampleDouble :=
  .obj [(py "end", .str (py end_)), (py "val", val), (py "fy", fy), (py "form", .str (py "10-K"))]

theorem extractConcept_totalLocal_iff_sample :
    TotalLocal sampleDoubles (fun _ => py "[]") "SalesRevenueNet" "USD" revenueTags ["USD"]
        [annualRow "2024-09-28" (.float .twoAndAHalf) (.int 2024), .null, annualRow "soon" (.int 1) .null] ↔
      ∀ row ∈ [annualRow "2024-09-28" (.float .twoAndAHalf) (.int 2024), .null, annualRow "soon" (.int 1) .null],
        RowClean sampleDoubles row :=
  extractConcept_totalLocal_iff sampleDoubles_documented (fun _ => py "[]") (by decide) (by decide) _

/-- One row without a value, and no revenue is read at all. -/
theorem nullValue_raises :
    ¬ ∀ raw : List (Json SampleDouble),
      TotalLocal sampleDoubles (fun _ => py "[]") "Revenues" "USD" revenueTags ["USD"] raw := by
  intro h
  obtain ⟨observations, hok, -⟩ :=
    h [annualRow "2023-09-30" (.int 5) (.int 2023), annualRow "2024-09-28" .null (.int 2024)]
  rw [extractConcept_conceptFacts (by decide) (by decide)] at hok
  have hraises : readRows sampleDoubles (fun _ => py "[]")
      [annualRow "2023-09-30" (.int 5) (.int 2023), annualRow "2024-09-28" .null (.int 2024)] =
        .error .invalidOperation := by decide +kernel
  rw [hraises] at hok
  cases hok

end Nivara.MarketData
