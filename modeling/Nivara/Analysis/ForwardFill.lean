import Nivara.Analysis.Series
import Nivara.Lib.Gaps

/-!
# The cleaning of a close series

`prepare_close_series` (`analysis/risk.py`, lines 140–180): short gaps are filled, the rest is
dropped, and a series with a long gap is flagged.

* The index of a series is not read.

Results:

* `cleaned_length`, `forwardFilledDays_eq`: what the fill adds, over the runs of gaps.
* `prepared_iff`: the flag is right unless the series starts with a gap and has no long one.
-/

namespace Nivara.Analysis.Risk

open Gaps (forwardFill innerGaps)

/-! ## Model -/

/-- `_FORWARD_FILL_LIMIT`. -/
def forwardFillLimit : ℕ := 5

/-- `DataQualityReport`. -/
structure DataQualityReport where
  observations : ℕ
  forwardFilledDays : ℕ
  excludedFromCorrelation : Bool
  notes : List String
  deriving DecidableEq, Repr

/-- `series.isna().sum()`. -/
def nanCount (s : Column) : ℕ := s.countP Option.isNone

/-- `prepare_close_series`. -/
def prepareCloseSeries (close : Column) : Column × DataQualityReport :=
  if close = [] then (close, ⟨0, 0, false, ["empty"]⟩)
  else
    let nanCountBefore := nanCount close
    let filled := forwardFill forwardFillLimit close
    let excluded := filled.any Option.isNone
    let cleaned := filled.filter Option.isSome
    -- the subtraction stops at 0, as `max(0, …)` does
    let forwardFilled := nanCountBefore - (close.length - cleaned.length)
    let notes := if excluded then [s!"gap exceeded forward-fill limit of {forwardFillLimit} days"] else []
    (cleaned, ⟨cleaned.length, forwardFilled, excluded, notes⟩)

/-- The cleaned series has no gap, and the report counts what was filled and tells whether a gap was
    too long. A run of gaps in front of the first close is only dropped. -/
structure Prepared (close : Column) : Prop where
  no_gap : ∀ x ∈ (prepareCloseSeries close).1, x ≠ none
  length : (prepareCloseSeries close).1.length =
    close.countP Option.isSome + (prepareCloseSeries close).2.forwardFilledDays
  filled : (prepareCloseSeries close).2.forwardFilledDays =
    ((innerGaps close).map (min · forwardFillLimit)).sum
  excluded : (prepareCloseSeries close).2.excludedFromCorrelation = true ↔
    ∃ run ∈ innerGaps close, forwardFillLimit < run

/-! ## What is filled -/

theorem nanCount_add (s : Column) : nanCount s + s.countP Option.isSome = s.length := by
  have h := List.length_eq_countP_add_countP Option.isSome (l := s)
  have hnone : s.countP (fun x => decide ¬ x.isSome = true) = nanCount s := by
    unfold nanCount
    congr 1
    funext x
    cases x <;> rfl
  omega

variable {close : Column}

theorem prepareCloseSeries_fst : (prepareCloseSeries close).1 =
    (forwardFill forwardFillLimit close).filter Option.isSome := by
  unfold prepareCloseSeries
  split_ifs with h
  · rw [h]
    rfl
  · rfl

/-- The length of the cleaned series. -/
theorem cleaned_length : (prepareCloseSeries close).1.length =
    close.countP Option.isSome + ((innerGaps close).map (min · forwardFillLimit)).sum := by
  rw [prepareCloseSeries_fst, ← List.countP_eq_length_filter, Gaps.countP_forwardFill]

theorem cleaned_length_le : (prepareCloseSeries close).1.length ≤ close.length := by
  rw [prepareCloseSeries_fst]
  refine (List.length_filter_le _ _).trans_eq ?_
  exact Gaps.length_fillFrom _ _ _ _

/-- The count of what was filled. -/
theorem forwardFilledDays_eq : (prepareCloseSeries close).2.forwardFilledDays =
    ((innerGaps close).map (min · forwardFillLimit)).sum := by
  have hcount : (prepareCloseSeries close).2.forwardFilledDays =
      nanCount close - (close.length - (prepareCloseSeries close).1.length) := by
    unfold prepareCloseSeries
    split_ifs with h
    · rw [h]
      rfl
    · rfl
  have hnan := nanCount_add close
  have hle : (prepareCloseSeries close).1.length ≤ close.length := cleaned_length_le
  have hlength := @cleaned_length close
  omega

/-- The flag is raised for a gap that leads as well. -/
theorem excluded_iff : (prepareCloseSeries close).2.excludedFromCorrelation = true ↔
    close.head? = some none ∨ ∃ run ∈ innerGaps close, forwardFillLimit < run := by
  rw [← Gaps.none_mem_forwardFill_iff]
  unfold prepareCloseSeries
  split_ifs with h
  · rw [h]
    simp [forwardFill, Gaps.fillFrom]
  · show (forwardFill forwardFillLimit close).any Option.isNone = true ↔ _
    simp

/-! ## When the report is right -/

/-- The report is right exactly when the series starts with a close, or has a gap that is too long
    after one. -/
theorem prepared_iff (close : Column) :
    Prepared close ↔ close.head? ≠ some none ∨ ∃ run ∈ innerGaps close, forwardFillLimit < run := by
  constructor
  · intro h
    by_cases hlong : ∃ run ∈ innerGaps close, forwardFillLimit < run
    · exact .inr hlong
    · exact .inl fun hhead => hlong (h.excluded.mp (excluded_iff.mpr (.inl hhead)))
  · intro h
    constructor
    · intro x hx
      rw [prepareCloseSeries_fst] at hx
      exact Option.ne_none_iff_isSome.mpr (List.mem_filter.mp hx).2
    · rw [cleaned_length, forwardFilledDays_eq]
    · exact forwardFilledDays_eq
    · rw [excluded_iff]
      tauto

/-- One day without a close before the first: the series is flagged for a gap that it does not have. -/
theorem leading_gap_excluded :
    innerGaps ([none, some 100] : Column) = [0] ∧
      prepareCloseSeries [none, some 100] =
        ([some 100], ⟨1, 0, true, ["gap exceeded forward-fill limit of 5 days"]⟩) ∧
      ¬ Prepared [none, some 100] := by
  have hresult : prepareCloseSeries [none, some 100] =
      ([some 100], ⟨1, 0, true, ["gap exceeded forward-fill limit of 5 days"]⟩) := by
    decide +kernel
  refine ⟨by decide +kernel, hresult, fun h => ?_⟩
  obtain ⟨run, hrun, hlong⟩ := h.excluded.mp (congrArg (fun r => r.2.excludedFromCorrelation) hresult)
  revert run
  decide +kernel

end Nivara.Analysis.Risk
