import Nivara.Analysis.Sentiment
import Nivara.Common.Calendar
import Nivara.Lib.Raises

/-!
# When the macro score is computed

`compute_macro_score` (`analysis/sentiment.py`, lines 226–298) looks a year back from the latest
observation of two series with `replace(year=…)`, and ninety days from that of a third with a
`timedelta`.

* Arithmetic is exact.
* An observation has the time of a `datetime`, from the year 1 to the year 9999.

Results:

* `exists_yearBefore_iff`: the look-back by a year raises on a leap day and in the first year.
* `computeMacroScore_iff`: the score is computed, and lies between -1 and 1, exactly when no look-back
  raises.
-/

namespace Nivara.Analysis

/-! ## Look-backs -/

/-- The times of a `datetime`. -/
def IsDatetime (ts : ℤ) : Prop := -719162 * hours 24 ≤ ts ∧ ts < 2932897 * hours 24

/-- The date is neither a leap day nor in the first year. -/
def HasYearBefore (ts : ℤ) : Prop :=
  let date := civilFromDays (ts / hours 24)
  date.1 ≠ 1 ∧ ¬ (date.2.1 = 2 ∧ date.2.2 = 29)

instance decidableIsDatetime (ts : ℤ) : Decidable (IsDatetime ts) := inferInstanceAs (Decidable (_ ∧ _))

instance decidableHasYearBefore (ts : ℤ) : Decidable (HasYearBefore ts) :=
  inferInstanceAs (Decidable (_ ≠ _ ∧ ¬ (_ ∧ _)))

/-- The look-backs of the three series do not raise. -/
structure LooksBack (fred : FredObservations) : Prop where
  unemployment : ∀ o ∈ latestOf fred "UNRATE", HasYearBefore o.1
  fedFunds : ∀ o ∈ latestOf fred "FEDFUNDS", -719162 * hours 24 + hours (24 * 90) ≤ o.1
  gdp : ∀ o ∈ latestOf fred "GDPC1", HasYearBefore o.1

variable {fred : FredObservations} {ts : ℤ}

theorem exists_yearBefore_iff (h : IsDatetime ts) : (∃ t, yearBefore ts = .ok t) ↔ HasYearBefore ts := by
  have hdays : -719162 ≤ ts / hours 24 ∧ ts / hours 24 < 2932897 := by
    unfold IsDatetime hours minutes at h
    unfold hours minutes
    omega
  obtain ⟨d, hvalid, hcivil⟩ := Date.exists_civilFromDays hdays.1 hdays.2
  have hyear : ((d.year : ℤ) - 1).toNat = d.year - 1 := by omega
  have hdate : HasYearBefore ts ↔ d.year ≠ 1 ∧ ¬ (d.month = 2 ∧ d.day = 29) := by
    unfold HasYearBefore
    rw [hcivil]
    dsimp only
    norm_cast
  unfold yearBefore
  rw [hdate, ← Date.exists_ofYmd_pred hvalid, hcivil]
  dsimp only
  rw [hyear, Int.toNat_natCast, Int.toNat_natCast]
  cases Date.ofYmd (d.year - 1) d.month d.day <;> simp

theorem exists_ninetyDaysBefore_iff :
    (∃ t, ninetyDaysBefore ts = .ok t) ↔ -719162 * hours 24 + hours (24 * 90) ≤ ts := by
  unfold ninetyDaysBefore
  dsimp only
  rw [← le_sub_iff_add_le]
  split_ifs with h
  · refine iff_of_false ?_ h.not_ge
    rintro ⟨t, ht⟩
    cases ht
  · exact iff_of_true ⟨_, rfl⟩ (not_lt.mp h)

/-- A component comes through where its look-back does. -/
theorem exists_component_iff {seriesId : String} {target : ℤ → Except PyError ℤ}
    {signal : ℚ → ℚ → Option ℚ} :
    (∃ x, component fred seriesId target signal = .ok x) ↔
      ∀ o ∈ latestOf fred seriesId, ∃ t, target o.1 = .ok t := by
  unfold component
  cases latestOf fred seriesId with
  | none => simp
  | some latest =>
    dsimp only
    rw [Raises.exists_bind_pure_eq_ok]
    simp

/-! ## The score -/

/-- The score is computed exactly when no look-back raises, and then it is in its range. -/
theorem computeMacroScore_iff (fred : FredObservations)
    (htimes : ∀ series ∈ fred, ∀ o ∈ series.2, IsDatetime o.1) :
    (∃ x, computeMacroScore fred = .ok x ∧ -1 ≤ x ∧ x ≤ 1) ↔ LooksBack fred := by
  have hrange : (∃ x, computeMacroScore fred = .ok x ∧ -1 ≤ x ∧ x ≤ 1) ↔
      ∃ x, computeMacroScore fred = .ok x :=
    exists_congr fun x => and_iff_left_of_imp fun hx => abs_le.mp (abs_computeMacroScore_le hx)
  have hlatest : ∀ seriesId, ∀ o ∈ latestOf fred seriesId, IsDatetime o.1 := by
    intro seriesId o ho
    unfold latestOf at ho
    cases hlookup : fred.lookup seriesId with
    | none =>
      rw [hlookup] at ho
      cases ho
    | some observations =>
      rw [hlookup, Option.getD_some] at ho
      obtain ⟨before, after, rfl, -⟩ := List.lookup_eq_some_iff.mp hlookup
      exact htimes _ (List.mem_append_right _ List.mem_cons_self) o (List.mem_of_getLast? ho)
  have hyear : ∀ seriesId, (∀ o ∈ latestOf fred seriesId, ∃ t, yearBefore o.1 = .ok t) ↔
      ∀ o ∈ latestOf fred seriesId, HasYearBefore o.1 := fun seriesId =>
    forall₂_congr fun o ho => exists_yearBefore_iff (hlatest seriesId o ho)
  have hlooks : LooksBack fred ↔ (∃ x, unemploymentComponent fred = .ok x) ∧
      (∃ x, fedFundsComponent fred = .ok x) ∧
      ∃ x, gdpComponent fred = .ok x := by
    unfold unemploymentComponent fedFundsComponent gdpComponent
    rw [exists_component_iff, exists_component_iff, exists_component_iff, hyear, hyear]
    simp only [exists_ninetyDaysBefore_iff]
    exact ⟨fun h => ⟨h.unemployment, h.fedFunds, h.gdp⟩, fun h => ⟨h.1, h.2.1, h.2.2⟩⟩
  rw [hrange, hlooks]
  unfold computeMacroScore
  split_ifs with hempty
  · subst hempty
    exact iff_of_true ⟨0, rfl⟩ ⟨⟨none, rfl⟩, ⟨none, rfl⟩, ⟨none, rfl⟩⟩
  · simp only [Raises.exists_bind_eq_ok]
    constructor
    · rintro ⟨u, hu, f, hf, g, hg, -⟩
      exact ⟨⟨u, hu⟩, ⟨f, hf⟩, ⟨g, hg⟩⟩
    · rintro ⟨⟨u, hu⟩, ⟨f, hf⟩, ⟨g, hg⟩⟩
      exact ⟨u, hu, f, hf, g, hg, _, rfl⟩

/-- 2023-02-28, 2024-02-29 and 2024-03-01. -/
def february2023 : ℤ := hours 24 * 19416

def leapDay2024 : ℤ := hours 24 * 19782

def march2024 : ℤ := hours 24 * 19783

/-- Unemployment, last observed on a leap day. -/
theorem computeMacroScore_leapDay :
    ¬ ∃ x, computeMacroScore [("UNRATE", [(february2023, 4), (leapDay2024, 39 / 10)])] = .ok x ∧
      -1 ≤ x ∧ x ≤ 1 := by
  have hraises : computeMacroScore [("UNRATE", [(february2023, 4), (leapDay2024, 39 / 10)])] =
      .error .valueError := by decide +kernel
  rintro ⟨x, hx, -⟩
  rw [hraises] at hx
  cases hx

/-- Last observed the day after, it is read. -/
theorem computeMacroScore_iff_sample :
    ∃ x, computeMacroScore [("UNRATE", [(february2023, 4), (march2024, 39 / 10)])] = .ok x ∧
      -1 ≤ x ∧ x ≤ 1 :=
  (computeMacroScore_iff _ (by decide +kernel)).mpr
    ⟨by decide +kernel, by decide +kernel, by decide +kernel⟩

end Nivara.Analysis
