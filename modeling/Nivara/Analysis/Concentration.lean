import Nivara.Analysis.HealthScore
import Nivara.Analysis.RiskMeter

/-!
# Concentration and diversification

`compute_concentration` (`analysis/risk_meter.py`, lines 97–139) and `compute_diversification`
(`analysis/health_score.py`, lines 65–100): two scores of one index of the weights.

* Arithmetic is exact.

Results:

* `computeConcentration_congr`, `computeDiversification_congr`: both scores read of the weights what
  the index does.
* `concentration_merge`, `diversification_merge`: two holdings made into one.
* `scores_of_weights`: the range of the index and what changes the scores, and which way.
-/

namespace Nivara.Analysis

open Herfindahl (magnitude hhi Alike)

/-- What two scores that may be missing are to each other. -/
abbrev ScoreLe : Option ℚ → Option ℚ → Prop := Option.Rel (· ≤ ·)

/-! ## Which weights are alike -/

variable {weights weights' : List ℚ}

theorem eq_nil_iff_of_alike (h : Alike weights weights') : weights = [] ↔ weights' = [] := by
  rw [← List.length_eq_zero_iff, ← List.length_eq_zero_iff, h.length]

theorem computeConcentration_congr (h : Alike weights weights') :
    computeConcentration weights = computeConcentration weights' := by
  unfold computeConcentration
  simp only [eq_nil_iff_of_alike h, h.magnitude, h.hhi, h.length]

theorem computeDiversification_congr (h : Alike weights weights') :
    computeDiversification weights = computeDiversification weights' := by
  unfold computeDiversification
  simp only [eq_nil_iff_of_alike h, h.magnitude, h.hhi, h.length]

/-! ## The scores, from the index -/

/-- The score of an index. -/
def concentrationOf (index : ℚ) : ℚ := roundTo 1 (max 0 (min 100 (index * 100)))

def diversificationOf (index : ℚ) : ℚ :=
  if 1 ≤ index then 0
  else roundTo 1 (max 0 (min 1 ((1 - index) / (1 - diversificationFloorHhi))) * 100)

theorem concentrationOf_mono {i j : ℚ} (h : i ≤ j) : concentrationOf i ≤ concentrationOf j := by
  have hscaled : i * 100 ≤ j * 100 := mul_le_mul_of_nonneg_right h (by norm_num)
  exact roundTo_mono (max_le_max le_rfl (min_le_min le_rfl hscaled))

theorem diversificationOf_nonneg (i : ℚ) : 0 ≤ diversificationOf i := by
  unfold diversificationOf
  split_ifs
  · exact le_rfl
  · have hle : max 0 (min 1 ((1 - i) / (1 - diversificationFloorHhi))) * 100 ≤ ((100 : ℤ) : ℚ) := by
      have hone : max 0 (min 1 ((1 - i) / (1 - diversificationFloorHhi))) ≤ 1 :=
        max_le zero_le_one (min_le_left _ _)
      push_cast
      linarith
    have hnonneg : ((0 : ℤ) : ℚ) ≤ max 0 (min 1 ((1 - i) / (1 - diversificationFloorHhi))) * 100 := by
      push_cast
      exact mul_nonneg (le_max_left _ _) (by norm_num)
    simpa using (roundTo_mem 1 hnonneg hle).1

/-- A higher index is a lower score. -/
theorem diversificationOf_anti {i j : ℚ} (h : i ≤ j) : diversificationOf j ≤ diversificationOf i := by
  by_cases hj : 1 ≤ j
  · have hzero : diversificationOf j = 0 := if_pos hj
    exact hzero.trans_le (diversificationOf_nonneg i)
  · have hi : ¬ 1 ≤ i := fun hi => hj (hi.trans h)
    have hfloor : (0 : ℚ) ≤ 1 - diversificationFloorHhi := by norm_num [diversificationFloorHhi]
    have hraw : (1 - j) / (1 - diversificationFloorHhi) ≤ (1 - i) / (1 - diversificationFloorHhi) :=
      div_le_div_of_nonneg_right (by linarith) hfloor
    unfold diversificationOf
    rw [if_neg hj, if_neg hi]
    exact roundTo_mono
      (mul_le_mul_of_nonneg_right (max_le_max le_rfl (min_le_min le_rfl hraw)) (by norm_num))

theorem computeConcentration_score (weights : List ℚ) :
    (computeConcentration weights).score =
      if magnitude weights ≤ 0 then none else some (concentrationOf (hhi weights)) := by
  unfold computeConcentration
  by_cases hnil : weights = []
  · subst hnil
    rfl
  · rw [if_neg hnil]
    split_ifs <;> rfl

theorem computeDiversification_score (weights : List ℚ) :
    (computeDiversification weights).score =
      if magnitude weights ≤ 0 then none else some (diversificationOf (hhi weights)) := by
  unfold computeDiversification
  by_cases hnil : weights = []
  · subst hnil
    rfl
  · rw [if_neg hnil]
    unfold diversificationOf
    split_ifs <;> rfl

/-! ## Two holdings made into one -/

variable {before between after : List ℚ} {x y : ℚ}

theorem hhi_le_merge (h : 0 ≤ x * y) :
    hhi (before ++ x :: between ++ y :: after) ≤ hhi (before ++ (x + y) :: between ++ after) := by
  rw [Herfindahl.hhi_split h]
  have hpart : 0 ≤ 2 * (x * y) / magnitude (before ++ (x + y) :: between ++ after) ^ 2 := by positivity
  linarith

/-- The concentration is not lower. -/
theorem concentration_merge (h : 0 ≤ x * y) :
    ScoreLe (computeConcentration (before ++ x :: between ++ y :: after)).score
      (computeConcentration (before ++ (x + y) :: between ++ after)).score := by
  rw [computeConcentration_score, computeConcentration_score, Herfindahl.magnitude_split h]
  split_ifs
  · exact .none
  · exact .some (concentrationOf_mono (hhi_le_merge h))

/-- The diversification is not higher. -/
theorem diversification_merge (h : 0 ≤ x * y) :
    ScoreLe (computeDiversification (before ++ (x + y) :: between ++ after)).score
      (computeDiversification (before ++ x :: between ++ y :: after)).score := by
  rw [computeDiversification_score, computeDiversification_score, Herfindahl.magnitude_split h]
  split_ifs
  · exact .none
  · exact .some (diversificationOf_anti (hhi_le_merge h))

/-! ## All of it -/

/-- The two components of a list of weights. -/
def bothScores (weights : List ℚ) : ScoreComponent × ScoreComponent :=
  (computeConcentration weights, computeDiversification weights)

/-- The index of `n` weights with a total is from `1 / n` to 1. Neither score sees the order of the
    weights, a sign or the unit, and two holdings of one sign that become one make the portfolio
    no less concentrated and no more diversified. -/
theorem scores_of_weights (weights : List ℚ) :
    (magnitude weights ≠ 0 → 1 / (weights.length : ℚ) ≤ hhi weights ∧ hhi weights ≤ 1) ∧
      (∀ weights', weights'.Perm weights → bothScores weights' = bothScores weights) ∧
      (∀ weights', weights'.map (fun w => |w|) = weights.map (fun w => |w|) →
        bothScores weights' = bothScores weights) ∧
      (∀ c, 0 < c → bothScores (weights.map (c * ·)) = bothScores weights) ∧
      (∀ before x between y after, weights = before ++ x :: between ++ y :: after → 0 ≤ x * y →
        ScoreLe (computeConcentration weights).score
            (computeConcentration (before ++ (x + y) :: between ++ after)).score ∧
          ScoreLe (computeDiversification (before ++ (x + y) :: between ++ after)).score
            (computeDiversification weights).score) := by
  have hcongr : ∀ {weights'}, Alike weights' weights → bothScores weights' = bothScores weights := fun h =>
    Prod.ext (computeConcentration_congr h) (computeDiversification_congr h)
  refine ⟨fun h => ⟨Herfindahl.one_div_length_le_hhi h, Herfindahl.hhi_le_one h⟩, ?_, ?_, ?_, ?_⟩
  · exact fun weights' hperm => hcongr (Herfindahl.alike_of_perm hperm)
  · exact fun weights' habs => hcongr (Herfindahl.alike_of_abs habs)
  · exact fun c hc => hcongr (Herfindahl.alike_scale hc weights)
  · rintro before x between y after rfl hxy
    exact ⟨concentration_merge hxy, diversification_merge hxy⟩

/-- Two of three holdings become one. -/
theorem scores_of_weights_sample :
    1 / 3 ≤ hhi ([1, 1, 2] : List ℚ) ∧
      ScoreLe (computeConcentration [1, 1, 2]).score (computeConcentration [2, 2]).score := by
  obtain ⟨hrange, -, -, -, hmerge⟩ := scores_of_weights [1, 1, 2]
  have hindex := (hrange (by decide +kernel)).1
  have hmerged := (hmerge [] 1 [] 1 [2] rfl (by norm_num)).1
  exact ⟨by simpa using hindex, by simpa [one_add_one_eq_two] using hmerged⟩

end Nivara.Analysis
