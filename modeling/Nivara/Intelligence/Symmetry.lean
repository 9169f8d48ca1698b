import Nivara.Intelligence.Legs

/-!
# Bulls and bears

The mirror image of the inputs of `synthesize`: technical, sentiment and AI scores are negated,
fundamental and risk scores are reflected about 50.

Results:

* `actionFor_neg`: the thresholds of the actions are mirror images too, themselves included.
* `confidence_mirror`: the dispersion does not see the sign.
* `synthesize_mirror`: the recommendation for the mirror image is the mirror image.
-/

namespace Nivara.Intelligence

/-- The mirror image of the scores. -/
def EngineInputs.mirror (e : EngineInputs) : EngineInputs where
  technical := e.technical.map fun score => score.map fun s => -s
  fundamental := e.fundamental.map fun score => score.map fun s => 100 - s
  sentiment := e.sentiment.map fun s => -s
  risk := e.risk.map fun score => score.map fun s => 100 - s

/-- The mirror image of an action. -/
def Action.mirror : Action → Action
  | .strongBuy => .strongSell
  | .buy => .sell
  | .hold => .hold
  | .sell => .buy
  | .strongSell => .strongBuy

variable {x : SynthesisInput} {ai : AiArguments}

theorem clamp_neg (a : ℚ) : clamp (-a) (-1) 1 = -clamp a (-1) 1 :=
  calc max (-1) (min 1 (-a)) = min (max (-1) 1) (max (-1) (-a)) := max_min_distrib_left ..
    _ = min (-(-1)) (-min 1 a) := by rw [max_eq_right (by norm_num), ← max_neg_neg, neg_neg]
    _ = -max (-1) (min 1 a) := min_neg_neg ..

/-- The ladder of actions is its own mirror image, also at the thresholds. -/
theorem actionFor_neg (c : ℚ) : actionFor (-c) = (actionFor c).mirror := by
  unfold actionFor
  split_ifs <;> first | rfl | linarith

theorem rel_map_right {f : ℚ → ℚ} {R : ℚ → ℚ → Prop} (h : ∀ a, R a (f a)) :
    ∀ s : Option ℚ, Option.Rel R s (s.map f)
  | none => .none
  | some a => .some (h a)

theorem join_mirror (f : ℚ → ℚ) (s : Option (Option ℚ)) :
    (s.map fun score => score.map f).join = s.join.map f := by
  cases s <;> rfl

theorem normalized_mirror (e : EngineInputs) :
    SameEngines (fun v v' => v' = -v) (normalizeEngines e) (normalizeEngines e.mirror) := by
  unfold EngineInputs.mirror
  refine sameEngines_normalizeEngines ?_ ?_ ?_ ?_
  · rw [join_mirror]
    exact rel_map_right (f := fun s => -s) clamp_neg _
  · rw [join_mirror]
    refine rel_map (rel_map_right (fun a => ?_) _)
    rw [← clamp_neg]
    congr 1
    ring
  · exact rel_map_right (f := fun s => -s) clamp_neg _
  · rw [join_mirror]
    refine rel_map_right (fun a => ?_) _
    show clamp (-(100 - a - 50) / 50) (-1) 1 = -clamp (-(a - 50) / 50) (-1) 1
    rw [← clamp_neg]
    congr 1
    ring

theorem map_eq_of_forall₂ {α β γ : Type} {f : α → γ} {g : β → γ} {l : List α} {l' : List β}
    (h : List.Forall₂ (fun a b => f a = g b) l l') : l.map f = l'.map g := by
  rw [← List.forall₂_eq_eq_eq]
  exact List.forall₂_map_left_iff.mpr (List.forall₂_map_right_iff.mpr h)

/-- The mirror image of a call. -/
abbrev SynthesisInput.mirror (x : SynthesisInput) : SynthesisInput := { x with engines := x.engines.mirror }

abbrev AiArguments.mirror (ai : AiArguments) : AiArguments :=
  { ai with aiScore := ai.aiScore.map fun s => -s }

theorem composite_mirror (h : x.normalized ≠ []) : x.mirror.composite ai.mirror = -x.composite ai := by
  have hnormalized := normalized_mirror x.engines
  have hscore : Option.Rel (fun a b => clamp b (-1) 1 = -clamp a (-1) 1) ai.aiScore ai.mirror.aiScore :=
    rel_map_right (f := fun s => -s) clamp_neg ai.aiScore
  have hlegs := legs_forall₂ hnormalized hscore
  have hne : x.mirror.normalized ≠ [] := fun hnil => h ((normalized_eq_nil_congr hnormalized).mp hnil)
  rw [SynthesisInput.composite_eq_blend h, SynthesisInput.composite_eq_blend hne, ← Blend.blend_neg]
  -- leg by leg the weights agree and the scores are negated
  have hterms : List.Forall₂
      (fun leg leg' : BlendedLeg => leg.weight * -leg.score = leg'.weight * leg'.score)
      (x.legs ai) (x.mirror.legs ai.mirror) := by
    refine hlegs.imp fun leg leg' hleg => ?_
    rw [hleg.1, hleg.2]
  exact congrArg List.sum (map_eq_of_forall₂ hterms).symm

/-- The deviations from the negated composite are those from the composite. -/
theorem confidence_mirror (c : ℚ) : x.mirror.confidence (-c) = x.confidence c := by
  have hnormalized := normalized_mirror x.engines
  have hlength : x.mirror.normalized.length = x.normalized.length := hnormalized.length_eq.symm
  have hterms : List.Forall₂ (fun p p' : Engine × ℚ => |p.2 - c| = |p'.2 - -c|)
      x.normalized x.mirror.normalized := by
    refine hnormalized.imp fun p p' hp => ?_
    rw [hp.2, ← abs_neg]
    congr 1
    ring
  have hmap := map_eq_of_forall₂ hterms
  unfold SynthesisInput.confidence
  rw [stalenessLevel_congr hnormalized, hlength]
  dsimp only
  rw [show (x.mirror.normalized.map fun p => |p.2 - -c|) = x.normalized.map fun p => |p.2 - c| from
    hmap.symm]

/-- The recommendation for the mirror image: the composite is negated, the action mirrored, and the
    confidence is the same. -/
theorem synthesize_mirror (x : SynthesisInput) (ai : AiArguments) :
    (synthesize x.mirror ai.mirror).compositeScore = (synthesize x ai).compositeScore.map (fun c => -c) ∧
      (synthesize x.mirror ai.mirror).action = (synthesize x ai).action.map Action.mirror ∧
      (synthesize x.mirror ai.mirror).confidence = (synthesize x ai).confidence := by
  have hgate := gate_congr (normalized_mirror x.engines)
  rw [synthesize_compositeScore, synthesize_compositeScore, synthesize_action, synthesize_action,
    synthesize_confidence, synthesize_confidence]
  by_cases hnone : x.normalized = [] ∨ x.stalenessLevel = .suppressed
  · simp [hnone, hgate.mpr hnone]
  · simp only [if_neg hnone, if_neg fun h => hnone (hgate.mp h)]
    have hcomposite : x.mirror.composite ai.mirror = -x.composite ai :=
      composite_mirror fun h => hnone (.inl h)
    rw [hcomposite, actionFor_neg, confidence_mirror]
    exact ⟨rfl, rfl, rfl⟩

end Nivara.Intelligence
