import Nivara.Analysis.Fundamental
import Nivara.Analysis.Technical
import Nivara.Intelligence.Synthesizer

/-!
# The engines behind a recommendation

What the four engines produce (`TechnicalAnalysis`, `FundamentalScore`, `SentimentResult` and
`RiskAnalysis`), and what `_normalize_engines` (`intelligence/synthesizer.py`, lines 136–155) gets out
of them.

* The attribute that `getattr` looks up is looked up here by its name.
* Of a sentiment and a risk result only the score is kept; the composite of the first is in `[-1, 1]`
  by its schema.

Results:

* `getattr_compositeScore`: a fundamental score has no such attribute.
* `normalized_eq`: without a fundamental score, every engine with a score is normalised.
* `included_iff`: and with one it is left out.
-/

namespace Nivara.Intelligence

open Analysis

/-! ## Model -/

/-- `SentimentResult` (`analysis/sentiment.py`). -/
structure SentimentResult where
  composite : ℚ
  le_composite : -1 ≤ composite
  composite_le : composite ≤ 1

/-- `RiskScore` (`analysis/risk.py`). -/
structure RiskScore where
  score : ℤ
  proxyBased : Bool
  sector : Option String

/-- `RiskAnalysis`. -/
structure RiskAnalysis where
  riskScore : RiskScore

/-- The attributes of a `FundamentalScore`. -/
def fundamentalAttributes (f : FundamentalScore) : List (String × Option ℤ) :=
  [("revenue_growth", f.revenueGrowth), ("earnings_trend", f.earningsTrend), ("debt_health", f.debtHealth),
    ("pe_valuation", f.peValuation), ("cash_flow", f.cashFlow), ("composite", f.composite)]

/-- `getattr(fundamental, name, None)`. -/
def getattr (f : FundamentalScore) (name : String) : Option ℤ :=
  ((fundamentalAttributes f).lookup name).getD none

/-- The results that `synthesize` is given. -/
structure EngineResults where
  technical : Option TechnicalAnalysis
  fundamental : Option FundamentalScore
  sentiment : Option SentimentResult
  risk : Option RiskAnalysis

namespace EngineResults

/-- What `_normalize_engines` reads of the results. -/
def inputs (r : EngineResults) : EngineInputs where
  technical := r.technical.map fun technical => technical.compositeScore
  fundamental := r.fundamental.map fun fundamental =>
    (getattr fundamental "composite_score").map fun score => (score : ℚ)
  sentiment := r.sentiment.map fun sentiment => sentiment.composite
  risk := r.risk.map fun risk => some (risk.riskScore.score : ℚ)

/-! ## The engines' own scores -/

/-- The score of an engine's result. -/
def score (r : EngineResults) : Engine → Option ℚ
  | .technical => r.technical.bind fun technical => technical.compositeScore
  | .fundamental => r.fundamental.bind fun fundamental => fundamental.composite.map fun score => (score : ℚ)
  | .sentiment => r.sentiment.map fun sentiment => sentiment.composite
  | .risk => r.risk.map fun risk => (risk.riskScore.score : ℚ)

/-- The map of a score into `[-1, 1]`. -/
def normalise : Engine → ℚ → ℚ
  | .technical, score => clamp score (-1) 1
  | .fundamental, score => clamp ((score - 50) / 50) (-1) 1
  | .sentiment, score => clamp score (-1) 1
  | .risk, score => clamp (-(score - 50) / 50) (-1) 1

/-- The engines with a score and its normalisation, in the order of the source. -/
def scored (r : EngineResults) : List (Engine × ℚ) :=
  Keyed.entries [.technical, .fundamental, .sentiment, .risk] fun k => (r.score k).map (normalise k)

end EngineResults

/-- The entry of an engine. -/
def EngineScores.get (s : EngineScores) : Engine → Option ℚ
  | .technical => s.technical
  | .fundamental => s.fundamental
  | .sentiment => s.sentiment
  | .risk => s.risk

/-- The input of a call for the results of the engines. -/
def SynthesisInput.withResults (x : SynthesisInput) (r : EngineResults) : SynthesisInput :=
  { x with engines := r.inputs }

/-- Every engine whose result has a score is in the response with its normalisation, and no other is;
    the composite gives each of them its configured weight out of their total. -/
structure Included (x : SynthesisInput) (ai : AiArguments) (r : EngineResults) : Prop where
  engineScores : ∀ k, (synthesize (x.withResults r) ai).engineScores.get k =
    (r.score k).map (EngineResults.normalise k)
  composite : ∀ c, (synthesize (x.withResults r) ai).compositeScore = some c →
    let aiWeight := ((x.withResults r).blend ai).aiWeight
    let share := Blend.renormalize weights (r.scored.map Prod.fst)
    c = clamp (Blend.blend (fun p => share p.1 * (1 - aiWeight)) Prod.snd r.scored +
      aiWeight * clamp (ai.aiScore.getD 0) (-1) 1) (-1) 1

/-! ## What the synthesizer sees -/

variable {r : EngineResults} {x : SynthesisInput} {ai : AiArguments}

/-- A fundamental score has no attribute of the name that is asked for. -/
theorem getattr_compositeScore (f : FundamentalScore) : getattr f "composite_score" = none := rfl

/-- Every other engine with a score is normalised. -/
theorem normalizeEngines_inputs (r : EngineResults) :
    normalizeEngines r.inputs = r.scored.filter fun p => p.1 ≠ .fundamental := by
  obtain ⟨technical, fundamental, sentiment, risk⟩ := r
  have hfundamental : ((⟨technical, fundamental, sentiment, risk⟩ : EngineResults).inputs).fundamental.join =
      none := by
    cases fundamental <;> rfl
  unfold normalizeEngines
  rw [hfundamental]
  rcases technical with _ | ⟨result, _ | composite, action, bars, flags⟩ <;>
    rcases fundamental with _ | ⟨f₁, f₂, f₃, f₄, f₅, _ | f₆⟩ <;> cases sentiment <;> cases risk <;> rfl

/-- Without a fundamental score that is all of them. -/
theorem normalized_eq (h : r.score .fundamental = none) : (x.withResults r).normalized = r.scored := by
  refine (normalizeEngines_inputs r).trans (List.filter_eq_self.mpr fun p hp => ?_)
  obtain ⟨-, hscore⟩ := Keyed.mem_entries.mp hp
  refine decide_eq_true fun hfundamental => ?_
  rw [hfundamental, h] at hscore
  cases hscore

theorem lookup_scored (r : EngineResults) (k : Engine) :
    r.scored.lookup k = (r.score k).map (EngineResults.normalise k) := by
  refine (Keyed.lookup_entries _ _ k).trans (if_pos ?_)
  cases k <;> decide

theorem synthesize_engineScores (x : SynthesisInput) (ai : AiArguments) :
    (synthesize x ai).engineScores = x.engineScores := by
  unfold synthesize
  split_ifs <;> rfl

theorem get_engineScores (x : SynthesisInput) (k : Engine) : x.engineScores.get k = x.normalized.lookup k := by
  cases k <;> rfl

/-! ## The composite -/

/-- With or without an AI leg: the engines have the rest of its share, and it adds its score. -/
theorem blendAi_cases (det : Engine → ℚ) (aiWeightCfg : ℚ) (shadowMode : Bool) (aiScore : Option ℚ) :
    (blendAi det aiWeightCfg shadowMode aiScore).detWeights =
        (fun k => det k * (1 - (blendAi det aiWeightCfg shadowMode aiScore).aiWeight)) ∧
      ((blendAi det aiWeightCfg shadowMode aiScore).aiBlended = false →
        (blendAi det aiWeightCfg shadowMode aiScore).aiWeight = 0) ∧
      ((blendAi det aiWeightCfg shadowMode aiScore).aiBlended = true → aiScore.isSome) := by
  unfold blendAi
  by_cases hoff : shadowMode = true ∨ aiScore = none
  · rw [if_pos hoff]
    exact ⟨funext fun k => by simp, fun _ => rfl, fun h => by cases h⟩
  rw [if_neg hoff]
  by_cases hzero : max 0 (min aiWeightCfg maxAiWeight) ≤ 0
  · dsimp only
    rw [if_pos hzero]
    exact ⟨funext fun k => by simp, fun _ => rfl, fun h => by cases h⟩
  · dsimp only
    rw [if_neg hzero]
    refine ⟨rfl, fun h => (by cases h), fun _ => ?_⟩
    exact Option.isSome_iff_ne_none.mpr fun hnone => hoff (.inr hnone)

/-- The composite of a call, as a blend to which the AI leg adds its share. -/
theorem composite_eq_clamp (x : SynthesisInput) (ai : AiArguments) :
    x.composite ai = clamp
      (Blend.blend (fun p => x.detWeights p.1 * (1 - (x.blend ai).aiWeight)) Prod.snd x.normalized +
        (x.blend ai).aiWeight * clamp (ai.aiScore.getD 0) (-1) 1) (-1) 1 := by
  obtain ⟨hdet, hoff, hon⟩ := blendAi_cases x.detWeights ai.aiWeight ai.shadowMode ai.aiScore
  unfold SynthesisInput.composite SynthesisInput.blend Blend.blend
  simp only [hdet]
  cases hblended : (blendAi x.detWeights ai.aiWeight ai.shadowMode ai.aiScore).aiBlended with
  | false =>
    rw [hoff hblended, zero_mul, add_zero]
  | true =>
    obtain ⟨score, hscore⟩ := Option.isSome_iff_exists.mp (hon hblended)
    simp only [hscore, Option.getD_some]

/-! ## Which engines count -/

/-- Every engine with a score is in the recommendation, unless the fundamental engine has one: that
    is never read. -/
theorem included_iff (x : SynthesisInput) (ai : AiArguments) (r : EngineResults) :
    Included x ai r ↔ r.score .fundamental = none := by
  constructor
  · intro h
    have hget := h.engineScores .fundamental
    rw [synthesize_engineScores, get_engineScores] at hget
    have hnone : (x.withResults r).normalized.lookup .fundamental = none := by
      refine List.lookup_eq_none_iff.mpr fun p hp => ?_
      rw [show (x.withResults r).normalized = normalizeEngines r.inputs from rfl,
        normalizeEngines_inputs, List.mem_filter] at hp
      exact bne_iff_ne.mpr (Ne.symm (of_decide_eq_true hp.2))
    rw [hnone] at hget
    exact Option.map_eq_none_iff.mp hget.symm
  · intro h
    constructor
    · intro k
      rw [synthesize_engineScores, get_engineScores, normalized_eq h, lookup_scored]
    · intro c hc
      rw [synthesize_compositeScore] at hc
      split_ifs at hc with hnone
      push Not at hnone
      have hkeys : r.scored.map Prod.fst ≠ [] := by
        rw [← normalized_eq (x := x) h]
        simpa using hnone.1
      rw [← Option.some.inj hc, composite_eq_clamp, normalized_eq h]
      unfold SynthesisInput.detWeights
      rw [normalized_eq h, renormalizeWeights_eq hkeys]

/-! ## A grown company -/

/-- Revenue has grown by a tenth; nothing else is known. -/
def grownRevenue : EdgarFundamentals := { revenueTtm := some 110, revenuePriorTtm := some 100 }

/-- The engine gives 50, and the recommendation says that no engine has data. -/
theorem fundamental_left_out :
    ¬ ∀ (x : SynthesisInput) (ai : AiArguments) (fundamentals : EdgarFundamentals) (price : Option ℚ)
      (technical : Option TechnicalAnalysis) (sentiment : Option SentimentResult) (risk : Option RiskAnalysis),
      Included x ai ⟨technical, some (scoreFundamentals fundamentals price), sentiment, risk⟩ := by
  intro h
  have hscore := (h neutralInput ⟨none, 0, true⟩ grownRevenue none none none none).engineScores .fundamental
  have hdropped : (synthesize (neutralInput.withResults
      ⟨none, some (scoreFundamentals grownRevenue none), none, none⟩) ⟨none, 0, true⟩).engineScores.get
        .fundamental = none := by decide +kernel
  have hcomposite : (scoreFundamentals grownRevenue none).composite = some 50 := by decide +kernel
  rw [hdropped] at hscore
  have hnone := Option.map_eq_none_iff.mp hscore.symm
  simp only [EngineResults.score, Option.bind_some, hcomposite] at hnone
  cases hnone

end Nivara.Intelligence
