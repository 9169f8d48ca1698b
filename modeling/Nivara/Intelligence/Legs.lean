import Nivara.Intelligence.EngineResults

/-!
# The legs of a composite

The composite of `synthesize` as a blend of legs: the available engines and, when the AI score is
blended, the AI leg.

Results:

* `composite_eq_blend`: the clamp of the composite never acts, and the weights of the legs sum to 1.
* `synthesize_monotone`: the composite lies between two scores of its legs, more bullish scores do
  not lower it nor make the action more bearish, and a confidence lies between 0 and 100.
-/

namespace Nivara.Intelligence

/-- A leg: its effective weight and its normalised score. -/
structure BlendedLeg where
  weight : ℚ
  score : ℚ

/-- The legs of a call. -/
def SynthesisInput.legs (x : SynthesisInput) (ai : AiArguments) : List BlendedLeg :=
  x.normalized.map (fun p => ⟨(x.blend ai).detWeights p.1, p.2⟩) ++
    if (x.blend ai).aiBlended then [⟨(x.blend ai).aiWeight, clamp (ai.aiScore.getD 0) (-1) 1⟩] else []

variable {x : SynthesisInput} {ai : AiArguments}

theorem blendAi_aiWeight_mem (det : Engine → ℚ) (aiWeightCfg : ℚ) (shadowMode : Bool) (aiScore : Option ℚ) :
    0 ≤ (blendAi det aiWeightCfg shadowMode aiScore).aiWeight ∧
      (blendAi det aiWeightCfg shadowMode aiScore).aiWeight ≤ 1 := by
  unfold blendAi
  dsimp only
  split_ifs with hoff hzero
  · exact ⟨le_rfl, zero_le_one⟩
  · exact ⟨le_rfl, zero_le_one⟩
  · exact ⟨aiShare_nonneg aiWeightCfg, (aiShare_le aiWeightCfg).trans (by norm_num [maxAiWeight])⟩

namespace SynthesisInput

theorem legs_weight_nonneg : ∀ leg ∈ x.legs ai, 0 ≤ leg.weight := by
  obtain ⟨hdet, -, -⟩ := blendAi_cases x.detWeights ai.aiWeight ai.shadowMode ai.aiScore
  obtain ⟨hnonneg, hle⟩ := blendAi_aiWeight_mem x.detWeights ai.aiWeight ai.shadowMode ai.aiScore
  intro leg hleg
  unfold legs at hleg
  obtain hengine | hai := List.mem_append.mp hleg
  · obtain ⟨p, -, rfl⟩ := List.mem_map.mp hengine
    show 0 ≤ (x.blend ai).detWeights p.1
    unfold blend
    rw [hdet]
    exact mul_nonneg (renormalizeWeights_nonneg p.1) (by linarith)
  · split_ifs at hai
    · rw [List.mem_singleton.mp hai]
      exact hnonneg
    · cases hai

/-- A sum over the legs: over the engines, whose weights leave the AI leg its share, and the AI leg. -/
theorem legs_sum (x : SynthesisInput) (ai : AiArguments) (f : ℚ → ℚ) :
    Blend.blend BlendedLeg.weight (fun leg => f leg.score) (x.legs ai) =
      Blend.blend (fun p => x.detWeights p.1) (fun p => f p.2) x.normalized * (1 - (x.blend ai).aiWeight) +
        (x.blend ai).aiWeight * f (clamp (ai.aiScore.getD 0) (-1) 1) := by
  obtain ⟨hdet, hoff, -⟩ := blendAi_cases x.detWeights ai.aiWeight ai.shadowMode ai.aiScore
  have hengines : Blend.blend BlendedLeg.weight (fun leg => f leg.score)
      (x.normalized.map fun p => ⟨(x.blend ai).detWeights p.1, p.2⟩) =
        Blend.blend (fun p => x.detWeights p.1) (fun p => f p.2) x.normalized *
          (1 - (x.blend ai).aiWeight) := by
    rw [← Blend.blend_mul_right]
    unfold Blend.blend blend
    rw [List.map_map, hdet]
    rfl
  have happend : ∀ l l' : List BlendedLeg,
    Blend.blend BlendedLeg.weight (fun leg => f leg.score) (l ++ l') =
      Blend.blend BlendedLeg.weight (fun leg => f leg.score) l +
        Blend.blend BlendedLeg.weight (fun leg => f leg.score) l' := by
    intro l l'
    simp [Blend.blend]
  unfold legs
  rw [happend, hengines]
  congr 1
  split_ifs with hblended
  · simp
  · rw [show (x.blend ai).aiWeight = 0 from hoff (Bool.eq_false_of_not_eq_true hblended)]
    simp

theorem total_legs (ai : AiArguments) (h : x.normalized ≠ []) :
    Blend.total BlendedLeg.weight (x.legs ai) = 1 := by
  have hsum := legs_sum x ai fun _ => 1
  have htotal := total_detWeights h
  simp only [Blend.blend, Blend.total, mul_one] at hsum htotal ⊢
  rw [hsum, htotal]
  ring

theorem legs_score_mem : ∀ leg ∈ x.legs ai, -1 ≤ leg.score ∧ leg.score ≤ 1 := by
  intro leg hleg
  unfold legs at hleg
  obtain hengine | hai := List.mem_append.mp hleg
  · obtain ⟨p, hp, rfl⟩ := List.mem_map.mp hengine
    exact normalizeEngines_mem hp
  · split_ifs at hai
    · rw [List.mem_singleton.mp hai]
      exact clamp_mem (by norm_num)
    · cases hai

/-- The composite is the blend of the legs: it is in range before the clamp. -/
theorem composite_eq_blend (h : x.normalized ≠ []) :
    x.composite ai = Blend.blend BlendedLeg.weight BlendedLeg.score (x.legs ai) := by
  have htotal := total_legs ai h
  have hlo := Blend.le_blend legs_weight_nonneg htotal fun leg hleg => (legs_score_mem leg hleg).1
  have hhi := Blend.blend_le legs_weight_nonneg htotal fun leg hleg => (legs_score_mem leg hleg).2
  have hsum := legs_sum x ai id
  simp only [id] at hsum
  rw [composite_eq_clamp, Blend.blend_mul_right, ← hsum]
  exact clamp_of_mem hlo hhi

end SynthesisInput

/-! ## Two runs -/

/-- Lists of scores of the same engines, in the same order. -/
abbrev SameEngines (R : ℚ → ℚ → Prop) : List (Engine × ℚ) → List (Engine × ℚ) → Prop :=
  List.Forall₂ fun p p' => p.1 = p'.1 ∧ R p.2 p'.2

theorem SameEngines.keys_eq {R : ℚ → ℚ → Prop} {l l' : List (Engine × ℚ)} (h : SameEngines R l l') :
    l.map Prod.fst = l'.map Prod.fst := by
  induction h with
  | nil => rfl
  | cons hp _ ih => rw [List.map_cons, List.map_cons, hp.1, ih]

/-- The entry of an engine that has a score or has none. -/
theorem forall₂_entry {R : ℚ → ℚ → Prop} (k : Engine) (f : ℚ → ℚ) :
    ∀ {s s' : Option ℚ}, Option.Rel (fun a b => R (f a) (f b)) s s' →
      SameEngines R
        (match s with
          | some score => [(k, f score)]
          | none => [])
        (match s' with
          | some score => [(k, f score)]
          | none => [])
  | _, _, .none => .nil
  | _, _, .some h => .cons ⟨rfl, h⟩ .nil

theorem isSome_eq_of_rel {R : ℚ → ℚ → Prop} {s s' : Option ℚ} (h : Option.Rel R s s') :
    s.isSome = s'.isSome := by
  cases h <;> rfl

/-- The entries of `normalizeEngines` for two inputs, engine by engine. -/
theorem sameEngines_normalizeEngines {R : ℚ → ℚ → Prop} {e e' : EngineInputs}
    (htechnical : Option.Rel (fun s s' => R (clamp s (-1) 1) (clamp s' (-1) 1)) e.technical.join
      e'.technical.join)
    (hfundamental : Option.Rel R (normalizeFundamental e.fundamental.join)
      (normalizeFundamental e'.fundamental.join))
    (hsentiment : Option.Rel (fun s s' => R (clamp s (-1) 1) (clamp s' (-1) 1)) e.sentiment e'.sentiment)
    (hrisk : Option.Rel (fun s s' => R ((normalizeRisk (some s)).getD 0) ((normalizeRisk (some s')).getD 0))
      e.risk.join e'.risk.join) :
    SameEngines R (normalizeEngines e) (normalizeEngines e') := by
  unfold normalizeEngines
  exact List.rel_append (List.rel_append (List.rel_append (forall₂_entry _ _ htechnical)
    (forall₂_entry _ id hfundamental)) (forall₂_entry _ _ hsentiment)) (forall₂_entry _ _ hrisk)

/-- The AI leg has its weight as soon as there is an AI score. -/
theorem blendAi_congr (det : Engine → ℚ) (aiWeightCfg : ℚ) (shadowMode : Bool) {s s' : Option ℚ}
    (h : s.isSome = s'.isSome) :
    blendAi det aiWeightCfg shadowMode s = blendAi det aiWeightCfg shadowMode s' := by
  have hnone : s = none ↔ s' = none := by
    cases s <;> cases s' <;> simp_all
  unfold blendAi
  simp only [hnone]

/-- Legs of the same weights, whose scores are related. -/
theorem legs_forall₂ {R : ℚ → ℚ → Prop} {e : EngineInputs} {s : Option ℚ}
    (h : SameEngines R x.normalized (normalizeEngines e))
    (hs : Option.Rel (fun a b => R (clamp a (-1) 1) (clamp b (-1) 1)) ai.aiScore s) :
    List.Forall₂ (fun leg leg' => leg.weight = leg'.weight ∧ R leg.score leg'.score) (x.legs ai)
      (SynthesisInput.legs { x with engines := e } { ai with aiScore := s }) := by
  have hisSome := isSome_eq_of_rel hs
  have hblend : SynthesisInput.blend { x with engines := e } { ai with aiScore := s } = x.blend ai := by
    unfold SynthesisInput.blend SynthesisInput.detWeights
    rw [h.keys_eq, blendAi_congr _ _ _ hisSome]
    rfl
  unfold SynthesisInput.legs
  rw [hblend]
  refine List.rel_append ?_ ?_
  · refine List.forall₂_map_left_iff.mpr (List.forall₂_map_right_iff.mpr ?_)
    refine h.imp fun p p' hp => ⟨?_, hp.2⟩
    rw [hp.1]
  · split_ifs with hblended
    · obtain ⟨-, -, hon⟩ := blendAi_cases x.detWeights ai.aiWeight ai.shadowMode ai.aiScore
      obtain ⟨a, ha⟩ := Option.isSome_iff_exists.mp (hon hblended)
      rw [ha] at hs
      obtain ⟨b, hb, hab⟩ : ∃ b, s = some b ∧ R (clamp a (-1) 1) (clamp b (-1) 1) := by
        cases hs with
        | some hab => exact ⟨_, rfl, hab⟩
      refine .cons ⟨rfl, ?_⟩ .nil
      simpa [ha, hb] using hab
    · exact .nil

/-- What does not depend on the scores. -/
theorem stalenessLevel_congr {R : ℚ → ℚ → Prop} {e : EngineInputs}
    (h : SameEngines R x.normalized (normalizeEngines e)) :
    SynthesisInput.stalenessLevel { x with engines := e } = x.stalenessLevel := by
  have htimes : ∀ l : List (Engine × ℚ),
      l.filterMap (fun p => x.computedAtPerEngine p.1) =
        (l.map Prod.fst).filterMap x.computedAtPerEngine := by
    intro l
    rw [List.filterMap_map]
    rfl
  unfold SynthesisInput.stalenessLevel
  show classifyStaleness _
      (((normalizeEngines e).filterMap fun p => x.computedAtPerEngine p.1).min?.getD _) _ =
    classifyStaleness _ ((x.normalized.filterMap fun p => x.computedAtPerEngine p.1).min?.getD _) _
  rw [htimes, htimes, h.keys_eq]

theorem normalized_eq_nil_congr {R : ℚ → ℚ → Prop} {e : EngineInputs}
    (h : SameEngines R x.normalized (normalizeEngines e)) :
    SynthesisInput.normalized { x with engines := e } = [] ↔ x.normalized = [] := by
  have hkeys := h.keys_eq
  rw [← List.map_eq_nil_iff (f := Prod.fst) (l := x.normalized), hkeys, List.map_eq_nil_iff]
  rfl

/-- Whether there is a recommendation depends on the engines that have scores only. -/
theorem gate_congr {R : ℚ → ℚ → Prop} {e : EngineInputs}
    (h : SameEngines R x.normalized (normalizeEngines e)) :
    SynthesisInput.normalized { x with engines := e } = [] ∨
        SynthesisInput.stalenessLevel { x with engines := e } = .suppressed ↔
      x.normalized = [] ∨ x.stalenessLevel = .suppressed := by
  rw [stalenessLevel_congr h, normalized_eq_nil_congr h]

/-! ## More bullish scores -/

theorem clamp_mono {a b lo hi : ℚ} (h : a ≤ b) : clamp a lo hi ≤ clamp b lo hi :=
  max_le_max le_rfl (min_le_min le_rfl h)

/-- The rank of an action, the most bearish first. -/
def Action.rank : Action → ℕ
  | .strongSell => 0
  | .sell => 1
  | .hold => 2
  | .buy => 3
  | .strongBuy => 4

theorem actionFor_mono {c c' : ℚ} (h : c ≤ c') : (actionFor c).rank ≤ (actionFor c').rank := by
  unfold actionFor
  split_ifs <;> first | decide | linarith

/-- The same engines have scores, none of them less bullish: a risk score is when it is lower. -/
structure EngineInputs.MoreBullish (e e' : EngineInputs) : Prop where
  technical : Option.Rel (· ≤ ·) e.technical.join e'.technical.join
  fundamental : Option.Rel (· ≤ ·) e.fundamental.join e'.fundamental.join
  sentiment : Option.Rel (· ≤ ·) e.sentiment e'.sentiment
  risk : Option.Rel (fun score score' => score' ≤ score) e.risk.join e'.risk.join

theorem rel_imp {R R' : ℚ → ℚ → Prop} {s s' : Option ℚ} (h : Option.Rel R s s')
    (himp : ∀ a b, R a b → R' a b) : Option.Rel R' s s' := by
  cases h with
  | none => exact .none
  | some h => exact .some (himp _ _ h)

theorem rel_map {R : ℚ → ℚ → Prop} {f : ℚ → ℚ} {s s' : Option ℚ}
    (h : Option.Rel (fun a b => R (f a) (f b)) s s') : Option.Rel R (s.map f) (s'.map f) := by
  cases h with
  | none => exact .none
  | some h => exact .some h

theorem EngineInputs.MoreBullish.normalized {e e' : EngineInputs} (h : e.MoreBullish e') :
    SameEngines (· ≤ ·) (normalizeEngines e) (normalizeEngines e') := by
  refine sameEngines_normalizeEngines (rel_imp h.technical fun a b => clamp_mono)
    (rel_map (rel_imp h.fundamental fun a b hab => clamp_mono ?_))
    (rel_imp h.sentiment fun a b => clamp_mono) (rel_imp h.risk fun a b hab => clamp_mono ?_)
  · linarith
  · linarith

theorem composite_mono {e : EngineInputs} {s : Option ℚ} (h : x.engines.MoreBullish e)
    (hs : Option.Rel (· ≤ ·) ai.aiScore s) (hne : x.normalized ≠ []) :
    x.composite ai ≤ SynthesisInput.composite { x with engines := e } { ai with aiScore := s } := by
  have hlegs := legs_forall₂ h.normalized (rel_imp hs fun a b => clamp_mono)
  have hne' : SynthesisInput.normalized { x with engines := e } ≠ [] :=
    fun hnil => hne ((normalized_eq_nil_congr h.normalized).mp hnil)
  rw [SynthesisInput.composite_eq_blend hne, SynthesisInput.composite_eq_blend hne']
  have hnonneg : ∀ leg ∈ x.legs ai, 0 ≤ leg.weight := SynthesisInput.legs_weight_nonneg
  refine Blend.blend_le_blend ?_
  refine List.forall₂_iff_get.mpr ⟨hlegs.length_eq, fun i hi hi' => ?_⟩
  obtain ⟨hweight, hscore⟩ := (List.forall₂_iff_get.mp hlegs).2 i hi hi'
  exact ⟨hnonneg _ (List.get_mem ..), hweight, hscore⟩

/-! ## Responses -/

theorem synthesize_action : (synthesize x ai).action =
    if x.normalized = [] ∨ x.stalenessLevel = .suppressed then none
    else some (actionFor (x.composite ai)) := by
  split_ifs with h
  · exact (synthesize_stale h).2.1
  · exact (synthesize_ok h).2.1

theorem synthesize_confidence : (synthesize x ai).confidence =
    if x.normalized = [] ∨ x.stalenessLevel = .suppressed then none
    else some (x.confidence (x.composite ai)) := by
  split_ifs with h
  · exact (synthesize_stale h).2.2.1
  · exact (synthesize_ok h).2.2.1

theorem confidence_mem (x : SynthesisInput) (c : ℚ) : 0 ≤ x.confidence c ∧ x.confidence c ≤ 100 :=
  applyConfidenceReduction_mem _ _

/-- Two responses that both have a recommendation or both have none: what relates the composites
    relates what follows from them. -/
theorem responses_rel {R C : ℚ → ℚ → Prop} {A : Action → Action → Prop} {x' : SynthesisInput}
    {ai' : AiArguments}
    (hgate : x'.normalized = [] ∨ x'.stalenessLevel = .suppressed ↔
      x.normalized = [] ∨ x.stalenessLevel = .suppressed)
    (hcomposite : x.normalized ≠ [] → R (x.composite ai) (x'.composite ai'))
    (haction : ∀ c c', R c c' → A (actionFor c) (actionFor c'))
    (hconfidence : ∀ c c', R c c' → C (x.confidence c) (x'.confidence c')) :
    Option.Rel R (synthesize x ai).compositeScore (synthesize x' ai').compositeScore ∧
      Option.Rel A (synthesize x ai).action (synthesize x' ai').action ∧
      Option.Rel C (synthesize x ai).confidence (synthesize x' ai').confidence := by
  rw [synthesize_compositeScore, synthesize_compositeScore, synthesize_action, synthesize_action,
    synthesize_confidence, synthesize_confidence]
  by_cases hnone : x.normalized = [] ∨ x.stalenessLevel = .suppressed
  · simp only [if_pos hnone, if_pos (hgate.mpr hnone)]
    exact ⟨.none, .none, .none⟩
  · simp only [if_neg hnone, if_neg fun h => hnone (hgate.mp h)]
    have hR := hcomposite fun h => hnone (.inl h)
    exact ⟨.some hR, .some (haction _ _ hR), .some (hconfidence _ _ hR)⟩

/-- The composite lies between two scores of its legs; a confidence lies between 0 and 100; and when
    no score becomes less bullish, neither does the composite, nor the action. -/
theorem synthesize_monotone (x : SynthesisInput) (ai : AiArguments) :
    (∀ c ∈ (synthesize x ai).compositeScore,
      (∃ leg ∈ x.legs ai, leg.score ≤ c) ∧ ∃ leg ∈ x.legs ai, c ≤ leg.score) ∧
    (∀ confidence ∈ (synthesize x ai).confidence, 0 ≤ confidence ∧ confidence ≤ 100) ∧
    ∀ (e : EngineInputs) (s : Option ℚ), x.engines.MoreBullish e → Option.Rel (· ≤ ·) ai.aiScore s →
      Option.Rel (· ≤ ·) (synthesize x ai).compositeScore
        (synthesize { x with engines := e } { ai with aiScore := s }).compositeScore ∧
      Option.Rel (fun a a' => a.rank ≤ a'.rank) (synthesize x ai).action
        (synthesize { x with engines := e } { ai with aiScore := s }).action := by
  refine ⟨fun c hc => ?_, fun confidence hconf => ?_, fun e s he hs => ?_⟩
  · rw [synthesize_compositeScore] at hc
    split_ifs at hc with hnone
    · cases hc
    · push Not at hnone
      cases hc
      have htotal := SynthesisInput.total_legs ai hnone.1
      have hnonneg : ∀ leg ∈ x.legs ai, 0 ≤ leg.weight := SynthesisInput.legs_weight_nonneg
      rw [SynthesisInput.composite_eq_blend hnone.1]
      obtain ⟨leg, hleg, -, hle⟩ := Blend.exists_le_blend (v := BlendedLeg.score) hnonneg htotal
      obtain ⟨leg', hleg', -, hle'⟩ := Blend.exists_blend_le (v := BlendedLeg.score) hnonneg htotal
      exact ⟨⟨leg, hleg, hle⟩, leg', hleg', hle'⟩
  · rw [synthesize_confidence] at hconf
    split_ifs at hconf
    · cases hconf
    · cases hconf
      exact confidence_mem x _
  · obtain ⟨hcomposite, haction, -⟩ := responses_rel
      (R := (· ≤ ·)) (C := fun _ _ => True) (A := fun a a' => a.rank ≤ a'.rank)
      (gate_congr he.normalized) (composite_mono he hs) (fun _ _ => actionFor_mono) fun _ _ _ => trivial
    exact ⟨hcomposite, haction⟩

/-- A technical score that rises from 0 to 1. -/
theorem synthesize_monotone_sample :
    Option.Rel (· ≤ ·) (synthesize neutralInput ⟨none, 0, true⟩).compositeScore
      (synthesize { neutralInput with engines := ⟨some (some 1), none, none, none⟩ }
        ⟨none, 0, true⟩).compositeScore :=
  ((synthesize_monotone neutralInput ⟨none, 0, true⟩).2.2 ⟨some (some 1), none, none, none⟩ none
    ⟨.some (by norm_num), .none, .none, .none⟩ .none).1

end Nivara.Intelligence
