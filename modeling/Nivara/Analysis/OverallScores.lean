import Nivara.Analysis.Concentration
import Nivara.Analysis.Fundamental
import Nivara.Analysis.TechnicalSignals
import Nivara.Lib.Averaging

/-!
# Overall scores

The four aggregators that divide by the weights of the components that are there:
`score_fundamentals` (`analysis/fundamental.py`, lines 176–183), `analyze_technical`
(`analysis/technical.py`, lines 390–402), `compute_risk_meter` (`analysis/risk_meter.py`, lines
348–364) and `compute_health_score` (`analysis/health_score.py`, lines 231–240).

* Arithmetic is exact.

Results:

* `computeRiskMeter_overallScore`, `computeHealthScore_overallScore`, `blendIndicators_eq`: what the
  engines return is the overall score of their components.
* `riskMeterScores_mem`, `healthScores_mem`, `ohlcvSignals_mem`: the range of the components.
* `overallScores_averaging`: the four overall scores are averages.
-/

namespace Nivara.Analysis

open Blend (Averaging Available average)

/-! ## Components with fixed weights -/

/-- The components of the Risk Meter. -/
inductive RiskMetric
  | concentration
  | volatilityVar
  | drawdown
  | events
  deriving DecidableEq, Repr

def riskMetrics : List RiskMetric := [.concentration, .volatilityVar, .drawdown, .events]

/-- `_WEIGHT_CONCENTRATION` and the others. -/
def riskWeights : RiskMetric → ℚ
  | .concentration => 3 / 10
  | .volatilityVar => 3 / 10
  | .drawdown => 1 / 5
  | .events => 1 / 5

/-- The components of the Health Score. -/
inductive HealthMetric
  | diversification
  | fundamental
  | technical
  | riskAdjusted
  deriving DecidableEq, Repr

def healthMetrics : List HealthMetric := [.diversification, .fundamental, .technical, .riskAdjusted]

/-- The overall score of the Risk Meter. -/
def riskMeterOverall (scores : RiskMetric → Option ℚ) : Option ℚ :=
  some (overallScore (riskMetrics.map fun k => (scores k, riskWeights k)))

/-- The overall score of the Health Score, each component with `_WEIGHT`. -/
def healthOverall (scores : HealthMetric → Option ℚ) : Option ℚ :=
  some (overallScore (healthMetrics.map fun k => (scores k, 1 / 4)))

/-- The composite of indicators with these signals. -/
def technicalOverall (signals : Indicator → Option ℚ) : Option ℚ :=
  blendIndicators fun k => ⟨signals k, signals k, (signals k).isNone⟩

/-! ## Averages -/

/-- What `overallScore` makes of the mean. -/
def displayed (x : ℚ) : ℚ := roundTo 1 (max 0 (min 100 x))

theorem displayed_mono : Monotone displayed := fun _ _ h =>
  roundTo_mono (max_le_max le_rfl (min_le_min le_rfl h))

/-- A score of a component is displayed as it is rounded. -/
theorem displayed_of_mem {x : ℚ} (h : 0 ≤ x ∧ x ≤ 100) : displayed x = roundTo 1 x := by
  unfold displayed
  rw [min_eq_right h.2, max_eq_right h.1]

section Overall

variable {κ : Type} {w : κ → ℚ} {ks : List κ} {scores : κ → Option ℚ}

theorem filterMap_scored (ks : List κ) (w : κ → ℚ) (scores : κ → Option ℚ) :
    (ks.map fun k => (scores k, w k)).filterMap (fun c => c.1.map fun score => (score, c.2)) =
      (Keyed.entries ks scores).map fun p => (p.2, w p.1) := by
  unfold Keyed.entries
  rw [List.filterMap_map, List.map_filterMap]
  congr 1
  funext k
  simp only [Function.comp_apply, Option.map_map]
  rfl

theorem overallScore_eq (hw : ∀ k, 0 < w k) (hks : ∀ k, k ∈ ks) (h : Available scores) :
    overallScore (ks.map fun k => (scores k, w k)) = displayed (average w id ks scores) := by
  have hpos : 0 < Blend.total (fun p : κ × ℚ => w p.1) (Keyed.entries ks scores) :=
    Blend.total_pos (fun p _ => hw p.1) (Blend.entries_ne_nil hks h)
  have hweights : (((Keyed.entries ks scores).map fun p => (p.2, w p.1)).map Prod.snd).sum =
      Blend.total (fun p => w p.1) (Keyed.entries ks scores) := by
    rw [List.map_map]
    rfl
  have hblend : (((Keyed.entries ks scores).map fun p => (p.2, w p.1)).map fun c => c.1 * c.2).sum =
      Blend.blend (fun p => w p.1) (fun p => id p.2) (Keyed.entries ks scores) := by
    rw [List.map_map]
    exact congrArg List.sum (List.map_congr_left fun p _ => mul_comm _ _)
  unfold overallScore
  dsimp only
  rw [filterMap_scored, hweights, hblend, if_neg hpos.ne']
  rfl

theorem averaging_overallScore [DecidableEq κ] (hw : ∀ k, 0 < w k) (hks : ∀ k, k ∈ ks) :
    Averaging (fun s => 0 ≤ s ∧ s ≤ 100) (roundTo 1) fun scores =>
      some (overallScore (ks.map fun k => (scores k, w k))) :=
  Blend.averaging_of_eq hw hks monotone_id displayed_mono (fun _ hs => displayed_of_mem hs)
    fun _ h => congrArg some (overallScore_eq hw hks h)

end Overall

theorem riskWeights_pos (k : RiskMetric) : 0 < riskWeights k := by
  cases k <;> norm_num [riskWeights]

theorem mem_riskMetrics (k : RiskMetric) : k ∈ riskMetrics := by
  cases k <;> decide

theorem mem_healthMetrics (k : HealthMetric) : k ∈ healthMetrics := by
  cases k <;> decide

theorem mem_metrics (k : FundamentalMetric) : k ∈ metrics := by
  cases k <;> decide

theorem indicatorWeights_pos (k : Indicator) : 0 < indicatorWeights k := by
  cases k <;> norm_num [indicatorWeights]

theorem clampSignal_mono : Monotone clampSignal := fun _ _ h => max_le_max le_rfl (min_le_min le_rfl h)

theorem clampSignal_of_mem {x : ℚ} (h : -1 ≤ x ∧ x ≤ 1) : clampSignal x = x := by
  unfold clampSignal
  rw [min_eq_right h.2, max_eq_right h.1]

theorem ite_isNone {α : Type} (x : Option α) : (if x.isNone then none else x) = x := by
  cases x <;> rfl

theorem technicalOverall_eq {signals : Indicator → Option ℚ} (h : Available signals) :
    technicalOverall signals = some (clampSignal (average indicatorWeights id indicators signals)) := by
  have hscored : scoredIndicators (fun k => ⟨signals k, signals k, (signals k).isNone⟩) =
      Keyed.entries indicators signals := by
    unfold scoredIndicators
    congr 1
    exact funext fun k => ite_isNone (signals k)
  have hne := Blend.entries_ne_nil mem_indicators h
  have hpos :
      0 < Blend.total (fun p : Indicator × ℚ => indicatorWeights p.1) (Keyed.entries indicators signals) :=
    Blend.total_pos (fun p _ => indicatorWeights_pos p.1) hne
  unfold technicalOverall blendIndicators
  dsimp only
  rw [hscored, if_neg hne, if_pos hpos]
  rfl

theorem fundamentalComposite_eq {components : FundamentalMetric → Option ℤ} (h : Available components) :
    fundamentalComposite components =
      some (Decimal.roundHalfEven (average metricWeights (fun s : ℤ => (s : ℚ)) metrics components)) := by
  have hne := Blend.entries_ne_nil mem_metrics h
  unfold fundamentalComposite
  dsimp only
  rw [if_neg hne]
  rfl

theorem rel_cast {o o' : Option ℤ} (h : Option.Rel (· ≤ ·) o o') :
    Option.Rel (fun s s' : ℤ => (s : ℚ) ≤ s') o o' := by
  cases h with
  | none => exact .none
  | some hle => exact .some (Int.cast_le.mpr hle)

/-- Higher scores have a higher composite. -/
theorem fundamentalComposite_mono {components components' : FundamentalMetric → Option ℤ}
    (havailable : Available components) (h : ∀ k, Option.Rel (· ≤ ·) (components k) (components' k)) :
    ∃ v v', fundamentalComposite components = some v ∧ fundamentalComposite components' = some v' ∧
      v ≤ v' := by
  have havailable' : Available components' := by
    obtain ⟨k, s, hs⟩ := havailable
    have hk := h k
    rw [hs] at hk
    cases hs' : components' k with
    | none =>
      rw [hs'] at hk
      cases hk
    | some s' => exact ⟨k, s', hs'⟩
  refine ⟨_, _, fundamentalComposite_eq havailable, fundamentalComposite_eq havailable', ?_⟩
  refine Decimal.roundHalfEven_mono (Blend.average_mono (fun k => (metricWeights_pos k).le) fun k _ => ?_)
  exact rel_cast (h k)

/-! ## The engines -/

/-- The scores of the components of the Risk Meter. -/
def riskMeterScores (sqrt : ℚ → ℚ) (holdingWeights : List ℚ) (weightsBySymbol : Dict String ℚ)
    (priceSeries : Dict String Series) (upcomingEvents : Option (List ℤ)) (today : ℤ) :
    RiskMetric → Option ℚ
  | .concentration => (computeConcentration holdingWeights).score
  | .volatilityVar => (computeVolatilityVar sqrt weightsBySymbol priceSeries).score
  | .drawdown => (computeDrawdown weightsBySymbol priceSeries).score
  | .events => (computeEvents upcomingEvents today).score

/-- The scores of the components of the Health Score. -/
def healthScores (sqrt : ℚ → ℚ) (holdingWeights : List ℚ)
    (fundamentalScores technicalScores : List (Option ℚ)) (portfolioReturns : Series)
    (benchmarkReturns : Option Series) : HealthMetric → Option ℚ
  | .diversification => (computeDiversification holdingWeights).score
  | .fundamental => (computeFundamental fundamentalScores).score
  | .technical => (computeTechnical technicalScores).score
  | .riskAdjusted => (computeRiskAdjusted sqrt portfolioReturns benchmarkReturns).score

/-- What the Risk Meter returns is the overall score of its components. -/
theorem computeRiskMeter_overallScore (sqrt : ℚ → ℚ) (holdingWeights : List ℚ)
    (weightsBySymbol : Dict String ℚ) (priceSeries : Dict String Series)
    (upcomingEvents : Option (List ℤ)) (today : ℤ) :
    some (computeRiskMeter sqrt holdingWeights weightsBySymbol priceSeries upcomingEvents
      today).overallScore =
      riskMeterOverall
        (riskMeterScores sqrt holdingWeights weightsBySymbol priceSeries upcomingEvents today) := by
  have hvar : (computeVolatilityVar sqrt weightsBySymbol priceSeries).weight = 3 / 10 := by
    unfold computeVolatilityVar
    dsimp only
    split_ifs <;> rfl
  have hdrawdown : (computeDrawdown weightsBySymbol priceSeries).weight = 1 / 5 := by
    unfold computeDrawdown
    dsimp only
    split_ifs
    · rfl
    · split <;> rfl
  have hevents : (computeEvents upcomingEvents today).weight = 1 / 5 := by
    unfold computeEvents
    split <;> rfl
  unfold computeRiskMeter riskMeterOverall
  simp only [List.map_cons, List.map_nil, ScoreComponent.weighted, computeConcentration_weight, hvar,
    hdrawdown, hevents]
  rfl

/-- And what the Health Score returns, of its own. -/
theorem computeHealthScore_overallScore (sqrt : ℚ → ℚ) (holdingWeights : List ℚ)
    (fundamentalScores technicalScores : List (Option ℚ)) (portfolioReturns : Series)
    (benchmarkReturns : Option Series) :
    some (computeHealthScore sqrt holdingWeights fundamentalScores technicalScores portfolioReturns
        benchmarkReturns).overallScore =
      healthOverall
        (healthScores sqrt holdingWeights fundamentalScores technicalScores portfolioReturns
          benchmarkReturns) := by
  have hdiversification : (computeDiversification holdingWeights).weight = 1 / 4 := by
    unfold computeDiversification
    split_ifs <;> rfl
  have hfundamental : (computeFundamental fundamentalScores).weight = 1 / 4 := by
    unfold computeFundamental
    dsimp only
    split_ifs <;> rfl
  have htechnical : (computeTechnical technicalScores).weight = 1 / 4 := by
    unfold computeTechnical
    dsimp only
    split_ifs <;> rfl
  have hrisk : (computeRiskAdjusted sqrt portfolioReturns benchmarkReturns).weight = 1 / 4 := by
    unfold computeRiskAdjusted
    dsimp only
    split
    · rfl
    · split_ifs <;> rfl
  unfold computeHealthScore healthOverall
  simp only [List.map_cons, List.map_nil, ScoreComponent.weighted, hdiversification, hfundamental,
    htechnical, hrisk]
  rfl

/-- The composite of an analysis is that of the signals that are not flagged. -/
theorem blendIndicators_eq (result : Indicator → IndicatorResult) :
    blendIndicators result =
      technicalOverall fun k => if (result k).insufficientData then none else (result k).value := by
  have hscored : scoredIndicators result = scoredIndicators fun k =>
      let signal := if (result k).insufficientData then none else (result k).value
      ⟨signal, signal, signal.isNone⟩ := by
    unfold scoredIndicators
    congr 1
    funext k
    exact (ite_isNone _).symm
  unfold technicalOverall blendIndicators
  dsimp only at hscored ⊢
  rw [hscored]

/-! ## The range of the components -/

theorem roundTo_share_mem {x : ℚ} (h0 : 0 ≤ x) (h1 : x ≤ 1) :
    0 ≤ roundTo 1 (x * 100) ∧ roundTo 1 (x * 100) ≤ 100 := by
  have hlo : ((0 : ℤ) : ℚ) ≤ x * 100 := by push_cast; linarith
  have hhi : x * 100 ≤ ((100 : ℤ) : ℚ) := by push_cast; linarith
  simpa using roundTo_mem 1 hlo hhi

/-- The place of a value clamped to an interval from `-1` on. -/
theorem roundTo_clamped_mem {width : ℚ} (h : 0 < width) (x : ℚ) :
    0 ≤ roundTo 1 ((max (-1) (min (width - 1) x) + 1) / width * 100) ∧
      roundTo 1 ((max (-1) (min (width - 1) x) + 1) / width * 100) ≤ 100 := by
  have hhi : max (-1) (min (width - 1) x) ≤ width - 1 := max_le (by linarith) (min_le_left _ _)
  refine roundTo_share_mem (div_nonneg (neg_le_iff_add_nonneg.mp (le_max_left _ _)) h.le) ?_
  rw [div_le_one h]
  exact le_sub_iff_add_le.mp hhi

theorem displayed_mem (x : ℚ) : 0 ≤ displayed x ∧ displayed x ≤ 100 := by
  have hlo : ((0 : ℤ) : ℚ) ≤ max 0 (min 100 x) := by push_cast; exact le_max_left _ _
  have hhi : max 0 (min 100 x) ≤ ((100 : ℤ) : ℚ) := by
    push_cast
    exact max_le (by norm_num) (min_le_left _ _)
  have hmem := roundTo_mem 1 hlo hhi
  push_cast at hmem
  exact hmem

theorem computeConcentration_mem {weights : List ℚ} {s : ℚ}
    (h : (computeConcentration weights).score = some s) : 0 ≤ s ∧ s ≤ 100 := by
  rw [computeConcentration_score] at h
  split_ifs at h
  obtain rfl := Option.some.inj h
  exact displayed_mem _

theorem computeVolatilityVar_mem {sqrt : ℚ → ℚ} {weightsBySymbol : Dict String ℚ}
    {priceSeries : Dict String Series} {s : ℚ}
    (h : (computeVolatilityVar sqrt weightsBySymbol priceSeries).score = some s) : 0 ≤ s ∧ s ≤ 100 := by
  unfold computeVolatilityVar at h
  dsimp only at h
  split_ifs at h
  obtain rfl := Option.some.inj h
  refine roundTo_share_mem ?_ (min_le_left _ _)
  exact le_min zero_le_one (div_nonneg (le_max_left _ _) (by norm_num))

theorem computeDrawdown_mem {weightsBySymbol : Dict String ℚ} {priceSeries : Dict String Series} {s : ℚ}
    (h : (computeDrawdown weightsBySymbol priceSeries).score = some s) : 0 ≤ s ∧ s ≤ 100 := by
  unfold computeDrawdown at h
  dsimp only at h
  split_ifs at h
  · cases h
  · split at h
    · cases h
    · obtain rfl := Option.some.inj h
      refine roundTo_share_mem (le_min zero_le_one (div_nonneg ?_ (by norm_num))) (min_le_left _ _)
      split_ifs
      · exact le_rfl
      · exact le_max_left _ _

/-- An event in the window counts for a part of it that is not negative. -/
theorem computeEvents_mem {upcomingEvents : Option (List ℤ)} {today : ℤ} {s : ℚ}
    (h : (computeEvents upcomingEvents today).score = some s) : 0 ≤ s ∧ s ≤ 100 := by
  unfold computeEvents at h
  split at h
  · obtain rfl := Option.some.inj h
    norm_num
  · obtain rfl := Option.some.inj h
    refine roundTo_share_mem (le_min zero_le_one (List.sum_nonneg ?_)) (min_le_left _ _)
    intro x hx
    simp only [List.mem_map, List.bind_eq_flatMap, List.mem_flatMap, List.mem_filter, List.pure_def,
      List.mem_singleton, decide_eq_true_eq] at hx
    obtain ⟨_, ⟨delta, ⟨-, -, hle⟩, rfl⟩, rfl⟩ := hx
    have hcast : (delta : ℚ) ≤ eventsWindowDays := by exact_mod_cast hle
    exact div_nonneg (sub_nonneg.mpr hcast) (Nat.cast_nonneg _)

theorem riskMeterScores_mem {sqrt : ℚ → ℚ} {holdingWeights : List ℚ} {weightsBySymbol : Dict String ℚ}
    {priceSeries : Dict String Series} {upcomingEvents : Option (List ℤ)} {today : ℤ} {k : RiskMetric}
    {s : ℚ}
    (h : riskMeterScores sqrt holdingWeights weightsBySymbol priceSeries upcomingEvents today k = some s) :
    0 ≤ s ∧ s ≤ 100 := by
  cases k with
  | concentration => exact computeConcentration_mem h
  | volatilityVar => exact computeVolatilityVar_mem h
  | drawdown => exact computeDrawdown_mem h
  | events => exact computeEvents_mem h

theorem computeDiversification_mem {weights : List ℚ} {s : ℚ}
    (h : (computeDiversification weights).score = some s) : 0 ≤ s ∧ s ≤ 100 := by
  rw [computeDiversification_score] at h
  split_ifs at h
  obtain rfl := Option.some.inj h
  unfold diversificationOf
  split_ifs
  · norm_num
  · exact roundTo_share_mem (le_max_left _ _) (max_le zero_le_one (min_le_left _ _))

theorem computeFundamental_mem {scores : List (Option ℚ)} {s : ℚ}
    (h : (computeFundamental scores).score = some s) : 0 ≤ s ∧ s ≤ 100 := by
  unfold computeFundamental at h
  dsimp only at h
  split_ifs at h
  obtain rfl := Option.some.inj h
  exact displayed_mem _

theorem computeTechnical_mem {scores : List (Option ℚ)} {s : ℚ}
    (h : (computeTechnical scores).score = some s) : 0 ≤ s ∧ s ≤ 100 := by
  unfold computeTechnical at h
  dsimp only at h
  split_ifs at h
  obtain rfl := Option.some.inj h
  have hmem := roundTo_clamped_mem two_pos ((scores.filterMap id).sum / (scores.filterMap id).length)
  norm_num at hmem ⊢
  exact hmem

theorem computeRiskAdjusted_mem {sqrt : ℚ → ℚ} {portfolioReturns : Series}
    {benchmarkReturns : Option Series} {s : ℚ}
    (h : (computeRiskAdjusted sqrt portfolioReturns benchmarkReturns).score = some s) :
    0 ≤ s ∧ s ≤ 100 := by
  unfold computeRiskAdjusted noRiskAdjusted at h
  dsimp only at h
  split at h
  · cases h
  · split_ifs at h
    obtain rfl := Option.some.inj h
    have hmem := roundTo_clamped_mem three_pos
    norm_num at hmem ⊢
    exact hmem _

theorem healthScores_mem {sqrt : ℚ → ℚ} {holdingWeights : List ℚ}
    {fundamentalScores technicalScores : List (Option ℚ)} {portfolioReturns : Series}
    {benchmarkReturns : Option Series} {k : HealthMetric} {s : ℚ}
    (h : healthScores sqrt holdingWeights fundamentalScores technicalScores portfolioReturns
      benchmarkReturns k = some s) : 0 ≤ s ∧ s ≤ 100 := by
  cases k with
  | diversification => exact computeDiversification_mem h
  | fundamental => exact computeFundamental_mem h
  | technical => exact computeTechnical_mem h
  | riskAdjusted => exact computeRiskAdjusted_mem h

section Signals

open Technical

variable {ι K : Type} [Field K] [LinearOrder K] [IsStrictOrderedRing K]

/-- A signal, where there is one, is in `[-1, 1]`. -/
def Bounded (o : Option (K × K)) : Prop := ∀ p ∈ o, -1 ≤ p.1 ∧ p.1 ≤ 1

omit [IsStrictOrderedRing K] in
theorem Bounded.bind {α : Type} {f : α → Option (K × K)} (h : ∀ a, Bounded (f a)) (o : Option α) :
    Bounded (o >>= f) := by
  intro p hp
  obtain ⟨a, -, ha⟩ := Option.bind_eq_some_iff.mp hp
  exact h a p ha

theorem bounded_zero (raw : K) : Bounded (some (0, raw)) := by
  intro p hp
  obtain rfl := Option.some.inj hp
  exact ⟨neg_nonpos.mpr zero_le_one, zero_le_one⟩

theorem bounded_clampTo (x raw : K) : Bounded (some (clampTo (-1) 1 x, raw)) := by
  intro p hp
  obtain rfl := Option.some.inj hp
  exact ⟨le_max_left _ _, max_le ((neg_nonpos.mpr zero_le_one).trans zero_le_one) (min_le_left _ _)⟩

/-- The signals of a frame are in `[-1, 1]`. -/
theorem ohlcvSignals_mem (sqrt : K → K) (argsort : List ι → List ℕ) (rows : List (Row ι K))
    (k : Indicator) :
    Bounded ((ohlcvSignals sqrt argsort).signal rows k) := by
  cases k with
  | rsi => exact .bind (fun _ => .bind (fun _ => bounded_clampTo _ _) _) _
  | macd =>
    refine .bind (fun _ => .bind (fun _ => ?_) _) _
    split_ifs
    · exact bounded_zero _
    · exact bounded_clampTo _ _
  | maAlignment => exact .bind (fun _ => bounded_clampTo _ _) _
  | bollinger =>
    refine .bind (fun _ => .bind (fun _ => .bind (fun _ => ?_) _) _) _
    split_ifs
    · exact bounded_zero _
    · exact bounded_clampTo _ _
  | volume =>
    refine .bind (fun _ => .bind (fun _ => ?_) _) _
    split_ifs
    · exact bounded_zero _
    · exact .bind (fun _ => .bind (fun _ => bounded_clampTo _ _) _) _
  | atr =>
    refine .bind (fun _ => .bind (fun _ => ?_) _) _
    split_ifs
    · exact bounded_zero _
    · dsimp only
      split_ifs
      · exact bounded_clampTo _ _
      · exact bounded_clampTo _ _

end Signals

/-! ## The overall scores -/

/-- The overall score of each engine is that of its components, which are in their range. -/
structure EngineScores : Prop where
  fundamental : ∀ fundamentals price, (scoreFundamentals fundamentals price).composite =
    fundamentalComposite (fundamentalComponents fundamentals price)
  technical : ∀ result, blendIndicators result =
    technicalOverall fun k => if (result k).insufficientData then none else (result k).value
  technical_mem : ∀ {ι : Type} (sqrt : ℚ → ℚ) (argsort : List ι → List ℕ) (rows : List (Technical.Row ι ℚ))
    (k : Indicator), Bounded ((Technical.ohlcvSignals sqrt argsort).signal rows k)
  riskMeter : ∀ sqrt holdingWeights weightsBySymbol priceSeries upcomingEvents today,
    some (computeRiskMeter sqrt holdingWeights weightsBySymbol priceSeries upcomingEvents
      today).overallScore =
      riskMeterOverall
        (riskMeterScores sqrt holdingWeights weightsBySymbol priceSeries upcomingEvents today)
  riskMeter_mem : ∀ sqrt holdingWeights weightsBySymbol priceSeries upcomingEvents today k s,
    riskMeterScores sqrt holdingWeights weightsBySymbol priceSeries upcomingEvents today k = some s →
      0 ≤ s ∧ s ≤ 100
  health : ∀ sqrt holdingWeights fundamentalScores technicalScores portfolioReturns benchmarkReturns,
    some (computeHealthScore sqrt holdingWeights fundamentalScores technicalScores portfolioReturns
        benchmarkReturns).overallScore =
      healthOverall
        (healthScores sqrt holdingWeights fundamentalScores technicalScores portfolioReturns
          benchmarkReturns)
  health_mem :
    ∀ sqrt holdingWeights fundamentalScores technicalScores portfolioReturns benchmarkReturns k s,
    healthScores sqrt holdingWeights fundamentalScores technicalScores portfolioReturns benchmarkReturns k =
      some s → 0 ≤ s ∧ s ≤ 100

theorem engineScores : EngineScores where
  fundamental _ _ := rfl
  technical := blendIndicators_eq
  technical_mem := ohlcvSignals_mem
  riskMeter := computeRiskMeter_overallScore
  riskMeter_mem _ _ _ _ _ _ _ _ h := riskMeterScores_mem h
  health := computeHealthScore_overallScore
  health_mem _ _ _ _ _ _ _ _ h := healthScores_mem h

/-- Over the components that are there, the four overall scores are averages. -/
theorem overallScores_averaging :
    EngineScores ∧
      Averaging (fun _ => True) id fundamentalComposite ∧
      Averaging (fun s => -1 ≤ s ∧ s ≤ 1) id technicalOverall ∧
      Averaging (fun s => 0 ≤ s ∧ s ≤ 100) (roundTo 1) riskMeterOverall ∧
      Averaging (fun s => 0 ≤ s ∧ s ≤ 100) (roundTo 1) healthOverall := by
  refine ⟨engineScores, ?_, ?_, ?_, ?_⟩
  · exact Blend.averaging_of_eq metricWeights_pos mem_metrics Int.cast_mono
      (fun _ _ h => Decimal.roundHalfEven_mono h) (fun s _ => Decimal.roundHalfEven_intCast s)
      fun _ h => fundamentalComposite_eq h
  · exact Blend.averaging_of_eq indicatorWeights_pos mem_indicators monotone_id clampSignal_mono
      (fun _ hs => clampSignal_of_mem hs) fun _ h => technicalOverall_eq h
  · exact averaging_overallScore riskWeights_pos mem_riskMetrics
  · exact averaging_overallScore (fun _ => by norm_num) mem_healthMetrics

end Nivara.Analysis
