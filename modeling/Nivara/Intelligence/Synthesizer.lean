import Nivara.Intelligence.Staleness
import Nivara.Lib.Blend

/-!
# `synthesize`

The recommendation synthesizer (`intelligence/synthesizer.py`): the scores of the engines that
have one are normalised to `[-1, 1]` and blended with renormalised weights, and in live mode
the AI score gets a share of its own.

* Arithmetic is exact.
* A dictionary of scores is a list in insertion order; one of weights is a function on its
  keys, the available engines.
* An explainer is what it does with a context: a text and its name, or an exception.

Results:

* `blendAi_of_shadow`: in shadow mode nothing of the AI leg is left.
* `effectiveWeights_sum`, `effectiveWeights_nonneg`: the weights of a blend.
* `composite_eq_mix`: the AI leg moves the composite to a mix with the AI score.
* `synthesize_shadow_and_bounds`: noninterference in shadow mode, bounded influence in live mode.
-/

namespace Nivara.Intelligence

/-! ## Model -/

/-- The keys of `WEIGHTS`. -/
inductive Engine
  | technical
  | fundamental
  | sentiment
  | risk
  deriving DecidableEq, Repr

/-- `WEIGHTS`. -/
def weights : Engine → ℚ
  | .technical => 2 / 5
  | .fundamental => 1 / 4
  | .sentiment => 1 / 5
  | .risk => 3 / 20

/-- `MAX_AI_WEIGHT`. -/
def maxAiWeight : ℚ := 3 / 10

/-- `_RECOMMENDATION_TTL`. -/
def recommendationTtl : ℤ := hours 24

/-- `_clamp`. -/
def clamp (value lo hi : ℚ) : ℚ := max lo (min hi value)

/-- `_normalize_fundamental`. -/
def normalizeFundamental (score : Option ℚ) : Option ℚ :=
  score.map fun score => clamp ((score - 50) / 50) (-1) 1

/-- `_normalize_risk`. -/
def normalizeRisk (score : Option ℚ) : Option ℚ :=
  score.map fun score => clamp (-(score - 50) / 50) (-1) 1

/-- The action of a recommendation. -/
inductive Action
  | strongBuy
  | buy
  | hold
  | sell
  | strongSell
  deriving DecidableEq, Repr

/-- The action's text. -/
def Action.value : Action → String
  | .strongBuy => "strong_buy"
  | .buy => "buy"
  | .hold => "hold"
  | .sell => "sell"
  | .strongSell => "strong_sell"

/-- `_action_for`. -/
def actionFor (composite : ℚ) : Action :=
  if 6 / 10 < composite then .strongBuy
  else if 3 / 10 < composite then .buy
  else if -(3 / 10) ≤ composite then .hold
  else if -(6 / 10) ≤ composite then .sell
  else .strongSell

/-- `factor_labels`: the label of a score that is not negative, and of one that is. -/
def factorLabels : Engine → String × String
  | .technical => ("technicals bullish", "technicals bearish")
  | .fundamental => ("fundamentals solid", "fundamentals weak")
  | .sentiment => ("sentiment positive", "sentiment negative")
  | .risk => ("risk favourable", "risk elevated")

/-- `_top_factors`. The sort is stable. -/
def topFactors (normalized : List (Engine × ℚ)) : List String :=
  let factors := normalized.map fun (k, v) =>
    (if 0 ≤ v then (factorLabels k).1 else (factorLabels k).2, |v|)
  ((factors.insertionSort fun a b => b.2 ≤ a.2).map Prod.fst).take 3

/-- What the synthesizer reads of the engines: each is absent or has, or has not, a score. Of the
    fundamental engine it is what `getattr(fundamental, "composite_score", None)` gives. -/
structure EngineInputs where
  technical : Option (Option ℚ)
  fundamental : Option (Option ℚ)
  sentiment : Option ℚ
  risk : Option (Option ℚ)

/-- `_normalize_engines`. -/
def normalizeEngines (e : EngineInputs) : List (Engine × ℚ) :=
  (match e.technical.join with
    | some score => [(.technical, clamp score (-1) 1)]
    | none => []) ++
  (match normalizeFundamental e.fundamental.join with
    | some score => [(.fundamental, score)]
    | none => []) ++
  (match e.sentiment with
    | some score => [(.sentiment, clamp score (-1) 1)]
    | none => []) ++
  (match e.risk.join with
    | some score => [(.risk, (normalizeRisk (some score)).getD 0)]
    | none => [])

/-- `_renormalize_weights`. The total is positive when an engine is available. -/
def renormalizeWeights (available : List Engine) : Engine → ℚ :=
  if Blend.total weights available ≤ 0 then fun _ => 0 else Blend.renormalize weights available

/-- What `_blend_ai` returns. -/
structure AiBlend where
  detWeights : Engine → ℚ
  aiWeight : ℚ
  aiBlended : Bool

/-- `_blend_ai`. -/
def blendAi (detWeights : Engine → ℚ) (aiWeightCfg : ℚ) (shadowMode : Bool) (aiScore : Option ℚ) : AiBlend :=
  if shadowMode = true ∨ aiScore = none then ⟨detWeights, 0, false⟩
  else
    let aiWeight := max 0 (min aiWeightCfg maxAiWeight)
    if aiWeight ≤ 0 then ⟨detWeights, 0, false⟩
    else ⟨fun k => detWeights k * (1 - aiWeight), aiWeight, true⟩

/-- `RecommendationContext` (`explainers/base.py`). -/
structure RecommendationContext where
  action : Action
  confidence : ℚ
  compositeScore : ℚ
  engineScores : List (Engine × ℚ)
  topFactors : List String
  instrumentSymbol : Option String

/-- An explainer: the text and the provider's name, or `none` for an exception. -/
abbrev Explainer := RecommendationContext → Option (String × String)

/-- How a float is printed with one and with two decimals. -/
structure FloatTexts where
  fixed1 : ℚ → String
  fixed2 : ℚ → String

/-- `TemplateExplainer` (`explainers/template.py`). -/
def templateExplainer (f : FloatTexts) (ctx : RecommendationContext) : String × String :=
  let symbol := (ctx.instrumentSymbol.filter (· ≠ "")).getD "the instrument"
  let action := ctx.action.value.toUpper
  let factors := "; ".intercalate ctx.topFactors
  let factorsClause := if ctx.topFactors ≠ [] then s!" Key factors: {factors}." else ""
  (s!"{action} for {symbol} with confidence {f.fixed1 ctx.confidence}% " ++
    s!"(composite {f.fixed2 ctx.compositeScore}).{factorsClause}", "template")

/-- `EngineScores`. -/
structure EngineScores where
  technical : Option ℚ
  fundamental : Option ℚ
  sentiment : Option ℚ
  risk : Option ℚ
  deriving DecidableEq

/-- `status` of a response. -/
inductive ResponseStatus
  | ok
  | stale
  deriving DecidableEq

/-- `RecommendationResponse` (`schemas/recommendation.py`), with its defaults. -/
structure RecommendationResponse where
  status : ResponseStatus
  action : Option Action := none
  confidence : Option ℚ := none
  compositeScore : Option ℚ := none
  engineScores : EngineScores
  rationale : Option String := none
  expiresAt : Option ℤ := none
  computedAt : ℤ
  reason : Option String := none
  explainerUsed : Option String := none
  aiBlended : Bool := false
  staleness : Option StalenessLevel := none
  deriving DecidableEq

/-- The AI arguments of `synthesize`. -/
structure AiArguments where
  aiScore : Option ℚ
  aiWeight : ℚ
  shadowMode : Bool

/-- The other arguments, with the settings and the number formats. -/
structure SynthesisInput where
  engines : EngineInputs
  computedAtPerEngine : Engine → Option ℤ
  now : ℤ
  instrumentSymbol : Option String
  explainer : Option Explainer
  staleness : StalenessSettings
  texts : FloatTexts

namespace SynthesisInput

variable (x : SynthesisInput)

/-- `normalized`. -/
def normalized : List (Engine × ℚ) := normalizeEngines x.engines

/-- `engine_scores`. -/
def engineScores : EngineScores where
  technical := x.normalized.lookup .technical
  fundamental := x.normalized.lookup .fundamental
  sentiment := x.normalized.lookup .sentiment
  risk := x.normalized.lookup .risk

/-- `staleness_level` (lines 243–245). -/
def stalenessLevel : StalenessLevel :=
  let availableTimes := x.normalized.filterMap fun (k, _) => x.computedAtPerEngine k
  classifyStaleness x.staleness (availableTimes.min?.getD x.now) x.now

/-- `det_weights`. -/
def detWeights : Engine → ℚ := renormalizeWeights (x.normalized.map Prod.fst)

/-- The result of `_blend_ai` in a call (lines 256–261). -/
def blend (ai : AiArguments) : AiBlend := blendAi x.detWeights ai.aiWeight ai.shadowMode ai.aiScore

/-- `composite` (lines 262–265). -/
def composite (ai : AiArguments) : ℚ :=
  let b := x.blend ai
  let composite := (x.normalized.map fun (k, v) => b.detWeights k * v).sum
  let composite :=
    match b.aiBlended, ai.aiScore with
    | true, some score => composite + b.aiWeight * clamp score (-1) 1
    | _, _ => composite
  clamp composite (-1) 1

/-- `confidence` (lines 270–272). -/
def confidence (composite : ℚ) : ℚ :=
  let absDev := (x.normalized.map fun (_, v) => |v - composite|).sum / max (x.normalized.length : ℚ) 1
  let confidenceRaw := 100 * (1 - min absDev 1)
  applyConfidenceReduction (clamp confidenceRaw 0 100) x.stalenessLevel

end SynthesisInput

/-- `synthesize`. -/
def synthesize (x : SynthesisInput) (ai : AiArguments) : RecommendationResponse :=
  if x.normalized = [] then
    { status := .stale
      reason := some "no_engine_data"
      engineScores := x.engineScores
      computedAt := x.now }
  else if x.stalenessLevel = .suppressed then
    { status := .stale
      reason := some "data_too_stale"
      engineScores := x.engineScores
      computedAt := x.now
      staleness := some x.stalenessLevel }
  else
    let composite := x.composite ai
    let action := actionFor composite
    let confidence := x.confidence composite
    let context : RecommendationContext :=
      ⟨action, confidence, composite, x.normalized, topFactors x.normalized, x.instrumentSymbol⟩
    -- a failing explainer falls back to the template
    let explained := x.explainer.map fun explain =>
      (explain context).getD (templateExplainer x.texts context)
    { status := .ok
      action := some action
      confidence := some confidence
      compositeScore := some composite
      engineScores := x.engineScores
      rationale := explained.map Prod.fst
      expiresAt := some (x.now + recommendationTtl)
      computedAt := x.now
      explainerUsed := explained.map Prod.snd
      aiBlended := (x.blend ai).aiBlended
      staleness := some x.stalenessLevel }

/-! ## Scores and weights -/

variable {x : SynthesisInput} {ai : AiArguments} {score w : ℚ} {available : List Engine}

theorem clamp_mem {value lo hi : ℚ} (h : lo ≤ hi) : lo ≤ clamp value lo hi ∧ clamp value lo hi ≤ hi :=
  ⟨le_max_left _ _, max_le h (min_le_left _ _)⟩

theorem clamp_of_mem {value lo hi : ℚ} (hlo : lo ≤ value) (hhi : value ≤ hi) : clamp value lo hi = value := by
  rw [clamp, min_eq_right hhi, max_eq_right hlo]

theorem normalizeFundamental_mem {s : Option ℚ} {v : ℚ} (h : normalizeFundamental s = some v) :
    -1 ≤ v ∧ v ≤ 1 := by
  obtain ⟨score, -, rfl⟩ := Option.map_eq_some_iff.mp h
  exact clamp_mem (by norm_num)

theorem normalizeRisk_mem {s : Option ℚ} {v : ℚ} (h : normalizeRisk s = some v) : -1 ≤ v ∧ v ≤ 1 := by
  obtain ⟨score, -, rfl⟩ := Option.map_eq_some_iff.mp h
  exact clamp_mem (by norm_num)

/-- Every normalised score is in `[-1, 1]`. -/
theorem normalizeEngines_mem {e : EngineInputs} {p : Engine × ℚ} (h : p ∈ normalizeEngines e) :
    -1 ≤ p.2 ∧ p.2 ≤ 1 := by
  unfold normalizeEngines at h
  simp only [List.mem_append] at h
  rcases h with ((h | h) | h) | h
  · split at h
    · rw [List.mem_singleton.mp h]
      exact clamp_mem (by norm_num)
    · cases h
  · split at h
    · rename_i v hv
      rw [List.mem_singleton.mp h]
      exact normalizeFundamental_mem hv
    · cases h
  · split at h
    · rw [List.mem_singleton.mp h]
      exact clamp_mem (by norm_num)
    · cases h
  · split at h
    · rename_i score _
      rw [List.mem_singleton.mp h]
      exact normalizeRisk_mem (s := some score) rfl
    · cases h

theorem weights_pos (k : Engine) : 0 < weights k := by
  cases k <;> norm_num [weights]

theorem renormalizeWeights_eq (h : available ≠ []) :
    renormalizeWeights available = Blend.renormalize weights available := by
  have hpos : 0 < Blend.total weights available := Blend.total_pos (fun k _ => weights_pos k) h
  unfold renormalizeWeights
  rw [if_neg (not_le.mpr hpos)]

theorem renormalizeWeights_nonneg (k : Engine) : 0 ≤ renormalizeWeights available k := by
  unfold renormalizeWeights
  split_ifs
  · exact le_rfl
  · exact Blend.renormalize_nonneg (fun k _ => (weights_pos k).le) (weights_pos k).le

theorem total_renormalizeWeights (h : available ≠ []) : Blend.total (renormalizeWeights available) available = 1 := by
  rw [renormalizeWeights_eq h]
  exact Blend.total_renormalize (Blend.total_pos (fun k _ => weights_pos k) h).ne'

/-! ## The AI leg -/

/-- The share of the AI score for a configured weight. -/
def aiShare (aiWeightCfg : ℚ) : ℚ := max 0 (min aiWeightCfg maxAiWeight)

theorem aiShare_nonneg (w : ℚ) : 0 ≤ aiShare w := le_max_left _ _

theorem aiShare_le (w : ℚ) : aiShare w ≤ maxAiWeight := max_le (by norm_num [maxAiWeight]) (min_le_right _ _)

variable (det : Engine → ℚ)

theorem blendAi_of_shadow (w : ℚ) (s : Option ℚ) : blendAi det w true s = ⟨det, 0, false⟩ := by
  simp [blendAi]

theorem blendAi_of_none (w : ℚ) (shadow : Bool) : blendAi det w shadow none = ⟨det, 0, false⟩ := by
  simp [blendAi]

/-- In live mode the AI score has its share, and the engines have the rest. -/
theorem blendAi_of_live (w score : ℚ) :
    (blendAi det w false (some score)).detWeights = (fun k => det k * (1 - aiShare w)) ∧
      (blendAi det w false (some score)).aiWeight = aiShare w ∧
      ((blendAi det w false (some score)).aiBlended = false → aiShare w = 0) := by
  unfold blendAi
  by_cases h : aiShare w ≤ 0
  · have hzero : aiShare w = 0 := le_antisymm h (aiShare_nonneg w)
    have h : max 0 (min w maxAiWeight) ≤ 0 := h
    simp [h, hzero]
  · have h' : ¬ max 0 (min w maxAiWeight) ≤ 0 := h
    simp only [reduceCtorEq, or_self, if_false, if_neg h', Bool.false_eq_true]
    exact ⟨rfl, rfl, fun h => h.elim⟩

/-- The weights of a blend: a convex combination of the engines and the AI score, whose share is
    at most the cap. -/
structure AiBlend.EffectiveWeights (b : AiBlend) (available : List Engine) : Prop where
  detWeights_nonneg : ∀ k ∈ available, 0 ≤ b.detWeights k
  aiWeight_nonneg : 0 ≤ b.aiWeight
  sum_eq_one : Blend.total b.detWeights available + b.aiWeight = 1
  aiWeight_le : b.aiWeight ≤ 3 / 10

theorem effectiveWeights_of_live (h : available ≠ []) (w score : ℚ) :
    (blendAi (renormalizeWeights available) w false (some score)).EffectiveWeights available := by
  obtain ⟨hdet, hai, -⟩ := blendAi_of_live (renormalizeWeights available) w score
  have hle : aiShare w ≤ 3 / 10 := aiShare_le w
  constructor
  · intro k _
    rw [hdet]
    exact mul_nonneg (renormalizeWeights_nonneg k) (by linarith)
  · rw [hai]
    exact aiShare_nonneg w
  · rw [hdet, hai, Blend.total_mul_right, total_renormalizeWeights h]
    ring
  · rw [hai]
    exact hle

/-! ## The composite -/

namespace SynthesisInput

variable (x)

/-- The blend of the engines alone. -/
def detComposite : ℚ := Blend.blend (fun p => x.detWeights p.1) Prod.snd x.normalized

variable {x}

theorem total_detWeights (h : x.normalized ≠ []) :
    Blend.total (fun p => x.detWeights p.1) x.normalized = 1 := by
  have hkeys : x.normalized.map Prod.fst ≠ [] := by simpa using h
  rw [← total_renormalizeWeights hkeys]
  unfold Blend.total
  rw [List.map_map]
  rfl

theorem detComposite_mem (h : x.normalized ≠ []) : -1 ≤ x.detComposite ∧ x.detComposite ≤ 1 := by
  have hnonneg : ∀ p ∈ x.normalized, 0 ≤ x.detWeights p.1 := fun p _ => renormalizeWeights_nonneg p.1
  have htotal := total_detWeights h
  exact ⟨Blend.le_blend hnonneg htotal fun p hp => (normalizeEngines_mem hp).1,
    Blend.blend_le hnonneg htotal fun p hp => (normalizeEngines_mem hp).2⟩

/-- Without an AI score the composite is that of the engines. -/
theorem composite_of_none (h : x.normalized ≠ []) (w : ℚ) (shadow : Bool) :
    x.composite ⟨none, w, shadow⟩ = x.detComposite := by
  obtain ⟨hlo, hhi⟩ := detComposite_mem h
  unfold composite blend
  rw [blendAi_of_none]
  exact clamp_of_mem hlo hhi

/-- In live mode the AI score gets its share of the composite. -/
theorem composite_eq_mix (h : x.normalized ≠ []) (w score : ℚ) :
    x.composite ⟨some score, w, false⟩ = Blend.mix (aiShare w) x.detComposite (clamp score (-1) 1) := by
  obtain ⟨hdet, hai, hblended⟩ := blendAi_of_live x.detWeights w score
  obtain ⟨hlo, hhi⟩ := detComposite_mem h
  obtain ⟨hscore_lo, hscore_hi⟩ : -1 ≤ clamp score (-1) 1 ∧ clamp score (-1) 1 ≤ 1 := clamp_mem (by norm_num)
  have hshare : aiShare w ≤ 1 := (aiShare_le w).trans (by norm_num [maxAiWeight])
  have hmix_lo : -1 ≤ Blend.mix (aiShare w) x.detComposite (clamp score (-1) 1) :=
    (le_min hlo hscore_lo).trans (Blend.min_le_mix (aiShare_nonneg w) hshare)
  have hmix_hi : Blend.mix (aiShare w) x.detComposite (clamp score (-1) 1) ≤ 1 :=
    (Blend.mix_le_max (aiShare_nonneg w) hshare).trans (max_le hhi hscore_hi)
  have hsum : (x.normalized.map fun p => x.detWeights p.1 * (1 - aiShare w) * p.2).sum =
      x.detComposite * (1 - aiShare w) :=
    Blend.blend_mul_right (w := fun p : Engine × ℚ => x.detWeights p.1) (v := Prod.snd) x.normalized
  unfold composite blend
  simp only [hdet, hai]
  cases hb : (blendAi x.detWeights w false (some score)).aiBlended with
  | false =>
    have hzero := hblended hb
    simp only [hsum]
    rw [hzero] at hmix_lo hmix_hi ⊢
    simpa [Blend.mix] using clamp_of_mem hlo hhi
  | true =>
    simp only [hsum]
    exact clamp_of_mem hmix_lo hmix_hi

end SynthesisInput

/-- Without a score, or with data that are too stale, nothing is recommended. -/
theorem synthesize_stale (h : x.normalized = [] ∨ x.stalenessLevel = .suppressed) :
    (synthesize x ai).status = .stale ∧ (synthesize x ai).action = none ∧
      (synthesize x ai).confidence = none ∧ (synthesize x ai).compositeScore = none := by
  unfold synthesize
  by_cases hempty : x.normalized = []
  · simp [hempty]
  · simp [hempty, h.resolve_left hempty]

/-- Otherwise the composite decides. -/
theorem synthesize_ok (h : ¬ (x.normalized = [] ∨ x.stalenessLevel = .suppressed)) :
    (synthesize x ai).status = .ok ∧ (synthesize x ai).action = some (actionFor (x.composite ai)) ∧
      (synthesize x ai).confidence = some (x.confidence (x.composite ai)) ∧
      (synthesize x ai).compositeScore = some (x.composite ai) := by
  obtain ⟨hempty, hstale⟩ := not_or.mp h
  unfold synthesize
  rw [if_neg hempty, if_neg hstale]
  exact ⟨rfl, rfl, rfl, rfl⟩

/-- When a response has a composite. -/
theorem synthesize_compositeScore : (synthesize x ai).compositeScore =
    if x.normalized = [] ∨ x.stalenessLevel = .suppressed then none else some (x.composite ai) := by
  split_ifs with h
  · exact (synthesize_stale h).2.2.2
  · exact (synthesize_ok h).2.2.2

/-- In shadow mode the response does not depend on the AI score and its weight. In live mode the
    engines that have a score and the AI score have weights that are not negative and sum to 1,
    that of the AI score is at most 0.30, and it moves the composite towards the clamped AI score
    by at most that share of the distance. -/
theorem synthesize_shadow_and_bounds (x : SynthesisInput) :
    (∀ s s' w w', synthesize x ⟨s, w, true⟩ = synthesize x ⟨s', w', true⟩) ∧
    ∀ score w,
      (x.normalized ≠ [] →
        (x.blend ⟨some score, w, false⟩).EffectiveWeights (x.normalized.map Prod.fst)) ∧
      ∀ c, (synthesize x ⟨some score, w, false⟩).compositeScore = some c →
        ∃ d, (∀ w' shadow, (synthesize x ⟨none, w', shadow⟩).compositeScore = some d) ∧
          |c - d| ≤ 3 / 10 * |clamp score (-1) 1 - d| ∧
          min d (clamp score (-1) 1) ≤ c ∧ c ≤ max d (clamp score (-1) 1) := by
  refine ⟨fun s s' w w' => ?_, fun score w => ⟨fun h => ?_, fun c hc => ?_⟩⟩
  · have hblend : ∀ s w, x.blend ⟨s, w, true⟩ = ⟨x.detWeights, 0, false⟩ := fun s w =>
      blendAi_of_shadow x.detWeights w s
    have hcomposite : x.composite ⟨s, w, true⟩ = x.composite ⟨s', w', true⟩ := by
      unfold SynthesisInput.composite
      simp only [hblend]
    unfold synthesize
    simp only [hblend, hcomposite]
  · exact effectiveWeights_of_live (by simpa using h) w score
  · rw [synthesize_compositeScore] at hc
    split_ifs at hc with hnone
    push Not at hnone
    obtain rfl := Option.some.inj hc
    have hshare : aiShare w ≤ 1 := (aiShare_le w).trans (by norm_num [maxAiWeight])
    refine ⟨x.detComposite, fun w' shadow => ?_, ?_, ?_, ?_⟩
    · rw [synthesize_compositeScore, if_neg (by simpa using hnone), SynthesisInput.composite_of_none hnone.1]
    · rw [SynthesisInput.composite_eq_mix hnone.1]
      exact Blend.abs_mix_sub_le (aiShare_nonneg w) (aiShare_le w)
    · rw [SynthesisInput.composite_eq_mix hnone.1]
      exact Blend.min_le_mix (aiShare_nonneg w) hshare
    · rw [SynthesisInput.composite_eq_mix hnone.1]
      exact Blend.mix_le_max (aiShare_nonneg w) hshare

/-- A neutral technical score, fresh, with the default settings. -/
def neutralInput : SynthesisInput where
  engines := ⟨some (some 0), none, none, none⟩
  computedAtPerEngine _ := some 0
  now := 0
  instrumentSymbol := some "AAPL"
  explainer := none
  staleness := .default
  texts := ⟨toString, toString⟩

/-- The configured share of a half is capped. -/
theorem synthesize_shadow_and_bounds_sample :
    (neutralInput.blend ⟨some 1, 1 / 2, false⟩).EffectiveWeights [.technical] ∧
      ∃ c d, (synthesize neutralInput ⟨some 1, 1 / 2, false⟩).compositeScore = some c ∧
        (synthesize neutralInput ⟨none, 0, true⟩).compositeScore = some d ∧
        |c - d| ≤ 3 / 10 * |clamp 1 (-1) 1 - d| := by
  have hbounds := (synthesize_shadow_and_bounds neutralInput).2 1 (1 / 2)
  obtain ⟨d, hd, habs, -, -⟩ := hbounds.2 (3 / 10) (by decide +kernel)
  exact ⟨hbounds.1 (by decide), 3 / 10, d, by decide +kernel, hd 0 true, habs⟩

end Nivara.Intelligence
