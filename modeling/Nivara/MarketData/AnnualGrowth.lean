import Nivara.Analysis.Fundamental
import Nivara.MarketData.Edgar

/-!
# The years of a growth rate

`_reduce_company_facts` (`data/edgar.py`, lines 391–447) takes the latest and the prior annual
observation of a concept by their places among the rows of the form 10-K, in the order of the period
ends; `_yoy_growth` (`analysis/fundamental.py`, lines 109–118) makes a growth rate of the two values.

* A company reports a year again in the 10-Ks of later years, so that the same period stands in
  several rows.

Results:

* `priorIsEarlier_iff`: the prior observation is of an earlier period exactly when no two rows of the
  form 10-K are of the latest one.
* `growth_of_restated_year`: the growth from a value to its restatement.
-/

namespace Nivara.MarketData

variable {F : Type}

/-! ## Model -/

/-- The number that a `Decimal` is. -/
def PyDecimal.rat : PyDecimal → Option ℚ
  | .finite negative coefficient exponent =>
    some ((if negative then -1 else 1) * coefficient * (10 : ℚ) ^ exponent)
  | _ => none

/-- The growth of a concept: `_yoy_growth` of the values that `_reduce_company_facts` selects. -/
def growthOf (obs : List Observation) : Option ℚ :=
  Analysis.yoyGrowth ((latestAnnual obs).bind fun o => PyDecimal.rat o.value)
    ((priorAnnual obs).bind fun o => PyDecimal.rat o.value)

/-- The prior annual observation, if there is one, is of an earlier period than the latest. -/
def PriorIsEarlier (obs : List Observation) : Prop :=
  ∀ prior latest, priorAnnual obs = some prior → latestAnnual obs = some latest →
    prior.end_.Before latest.end_

/-- The rows of the form 10-K that are of the latest period. -/
def newestOf (rows : List Observation) : List Observation :=
  (annualOf rows).filter fun o => ∀ o' ∈ annualOf rows, ¬ o.end_.Before o'.end_

/-! ## The order of the observations -/

theorem sortByEnd_sorted (rows : List Observation) :
    (sortByEnd rows).Pairwise fun o o' => ¬ o'.end_.Before o.end_ := by
  have htotal : Std.Total fun o o' : Observation => ¬ o'.end_.Before o.end_ :=
    ⟨fun o o' => (em (o'.end_.Before o.end_)).elim (fun h => .inr (Date.not_before_of_before h)) .inl⟩
  have htrans : IsTrans Observation fun o o' => ¬ o'.end_.Before o.end_ :=
    ⟨fun _ _ _ h h' => Date.not_before_trans h h'⟩
  exact List.pairwise_insertionSort _ rows

theorem sortByEnd_perm (rows : List Observation) : (sortByEnd rows).Perm rows :=
  List.perm_insertionSort _ rows

theorem sorted_of_searchUnits {f : Floats F} {containerText : Json F → PyStr} {units : Json F}
    {unitPreference : List String} {obs : List Observation}
    (h : searchUnits f containerText units unitPreference = .ok (some obs)) :
    ∃ rows, obs = sortByEnd rows := by
  induction unitPreference with
  | nil => cases h
  | cons unit unitPreference ih =>
    rw [searchUnits] at h
    obtain ⟨raw, -, h⟩ := Loop.of_bind_eq_ok h
    split_ifs at h
    · exact ih h
    · obtain ⟨values, -, h⟩ := Loop.of_bind_eq_ok h
      obtain ⟨observations, -, h⟩ := Loop.of_bind_eq_ok h
      split_ifs at h
      · cases h
        exact ⟨observations, rfl⟩
      · exact ih h

theorem sorted_of_searchTags {f : Floats F} {containerText : Json F → PyStr} {usGaap : Json F}
    {tagChain unitPreference : List String} {obs : List Observation}
    (h : searchTags f containerText usGaap unitPreference tagChain = .ok obs) : ∃ rows, obs = sortByEnd rows := by
  induction tagChain with
  | nil =>
    cases h
    exact ⟨[], rfl⟩
  | cons tag tagChain ih =>
    rw [searchTags] at h
    obtain ⟨node, -, h⟩ := Loop.of_bind_eq_ok h
    split_ifs at h
    · exact ih h
    · obtain ⟨units, -, h⟩ := Loop.of_bind_eq_ok h
      obtain ⟨found, hfound, h⟩ := Loop.of_bind_eq_ok h
      cases found with
      | none => exact ih h
      | some observations =>
        cases h
        exact sorted_of_searchUnits hfound

/-- What the reducer returns is a list of rows in the order of their period ends. -/
theorem sorted_of_extractConcept {f : Floats F} {containerText : Json F → PyStr} {facts : Json F}
    {tagChain unitPreference : List String} {obs : List Observation}
    (h : extractConcept f containerText facts tagChain unitPreference = .ok obs) :
    ∃ rows, obs = sortByEnd rows := by
  obtain ⟨inner, -, h⟩ := Loop.of_bind_eq_ok h
  obtain ⟨usGaap, -, h⟩ := Loop.of_bind_eq_ok h
  exact sorted_of_searchTags h

/-- How many rows are of the latest period does not depend on their order. -/
theorem length_newestOf_perm {rows rows' : List Observation} (h : rows.Perm rows') :
    (newestOf rows).length = (newestOf rows').length := by
  have hannual : (annualOf rows).Perm (annualOf rows') := h.filter _
  have hpred : ∀ o : Observation, (∀ o' ∈ annualOf rows, ¬ o.end_.Before o'.end_) ↔
      ∀ o' ∈ annualOf rows', ¬ o.end_.Before o'.end_ := by
    intro o
    simp only [hannual.mem_iff]
  unfold newestOf
  simp only [hpred]
  exact (hannual.filter _).length_eq

/-! ## The two selections -/

theorem latestAnnual_of_annual {obs front : List Observation} {latest : Observation}
    (h : annualOf obs = front ++ [latest]) : latestAnnual obs = some latest := by
  unfold latestAnnual
  rw [h]
  simp

theorem priorAnnual_of_annual {obs front : List Observation} {prior latest : Observation}
    (h : annualOf obs = front ++ [prior] ++ [latest]) : priorAnnual obs = some prior := by
  unfold priorAnnual
  rw [h]
  simp

theorem priorAnnual_of_length {obs : List Observation} (h : (annualOf obs).length < 2) :
    priorAnnual obs = none := if_neg (not_le.mpr h)

/-- In sorted rows, only the last one is of the latest period when the one before it is not. -/
theorem newestOf_of_annual {obs front : List Observation} {prior latest : Observation}
    (hsorted : (annualOf obs).Pairwise fun o o' => ¬ o'.end_.Before o.end_)
    (h : annualOf obs = front ++ [prior] ++ [latest]) :
    (newestOf obs).length ≤ 1 ↔ prior.end_.Before latest.end_ := by
  rw [h] at hsorted
  obtain ⟨hinit, -, hlast⟩ := List.pairwise_append.mp hsorted
  obtain ⟨-, -, hprior⟩ := List.pairwise_append.mp hinit
  have hle : ∀ o ∈ annualOf obs, ¬ latest.end_.Before o.end_ := by
    rw [h]
    intro o ho
    rcases List.mem_append.mp ho with ho | ho
    · exact hlast o ho latest (List.mem_singleton.mpr rfl)
    · rw [List.mem_singleton.mp ho]
      exact Date.not_before_self _
  let isNewest : Observation → Bool := fun o => ∀ o' ∈ annualOf obs, ¬ o.end_.Before o'.end_
  have hlatest : isNewest latest = true := decide_eq_true hle
  show ((annualOf obs).filter isNewest).length ≤ 1 ↔ _
  rw [h, List.filter_append, List.filter_append, List.length_append, List.length_append,
    List.filter_singleton, List.filter_singleton, hlatest]
  by_cases hbefore : prior.end_.Before latest.end_
  · refine iff_of_true ?_ hbefore
    have hmem : latest ∈ annualOf obs := by
      rw [h]
      simp
    have hold : ∀ o, o.end_.Before latest.end_ → isNewest o = false := fun o ho =>
      decide_eq_false fun hall => hall latest hmem ho
    have hfront : front.filter isNewest = [] := by
      refine List.filter_eq_nil_iff.mpr fun o ho => ?_
      have hbefore' := Date.before_of_not_before (hprior o ho prior (List.mem_singleton.mpr rfl)) hbefore
      rw [hold o hbefore']
      exact Bool.false_ne_true
    rw [hfront, hold prior hbefore]
    exact le_rfl
  · refine iff_of_false ?_ hbefore
    have hnewest : isNewest prior = true :=
      decide_eq_true fun o ho => Date.not_before_trans (hle o ho) hbefore
    rw [hnewest]
    simp

/-- The prior observation is of an earlier period than the latest exactly when no two rows of the
    form 10-K are of the latest period. -/
theorem priorIsEarlier_iff (rows : List Observation) :
    PriorIsEarlier (sortByEnd rows) ↔ (newestOf rows).length ≤ 1 := by
  rw [← length_newestOf_perm (sortByEnd_perm rows)]
  have hsorted : (annualOf (sortByEnd rows)).Pairwise fun o o' => ¬ o'.end_.Before o.end_ :=
    (sortByEnd_sorted rows).sublist List.filter_sublist
  by_cases hlength : (annualOf (sortByEnd rows)).length < 2
  · -- with less than two rows, no prior one is selected
    refine iff_of_true ?_ ((List.length_filter_le _ _).trans (by omega))
    intro prior latest hprior
    rw [priorAnnual_of_length hlength] at hprior
    cases hprior
  · obtain ⟨init, latest, hinit⟩ := (List.eq_nil_or_concat' (annualOf (sortByEnd rows))).resolve_left fun h => by
      rw [h] at hlength
      exact hlength (by decide)
    obtain ⟨front, prior, rfl⟩ := (List.eq_nil_or_concat' init).resolve_left fun h => by
      rw [hinit, h] at hlength
      exact hlength (by simp)
    unfold PriorIsEarlier
    rw [newestOf_of_annual hsorted hinit, latestAnnual_of_annual hinit, priorAnnual_of_annual hinit]
    simp

/-! ## A restated year -/

theorem isSome_ofYmd_2023 : (Date.ofYmd 2023 9 30).isSome = true := rfl

/-- A row of a 10-K for the year that ended on 2023-09-30. -/
def tenK (value : ℕ) (fy : ℤ) : Observation :=
  ⟨(Date.ofYmd 2023 9 30).get isSome_ofYmd_2023, .finite false value 0, fy, py "10-K"⟩

/-- The growth from the value of a year to its restatement in the next 10-K is taken for a growth of
    ten per cent. -/
theorem growth_of_restated_year :
    (¬ ∀ rows : List Observation, PriorIsEarlier (sortByEnd rows)) ∧
      growthOf (sortByEnd [tenK 100 2023, tenK 110 2024]) = some (1 / 10) := by
  refine ⟨?_, by decide +kernel⟩
  intro h
  have hearlier := h [tenK 100 2023, tenK 110 2024] (tenK 100 2023) (tenK 110 2024) (by decide +kernel)
    (by decide +kernel)
  exact absurd hearlier (by decide +kernel)

end Nivara.MarketData
