import Nivara.Intelligence.Symmetry

/-!
# The score of an AI analysis

`ai_score_from_output` (`schemas/ai_analysis.py`, lines 32–40) and what its score does to a
recommendation in live mode. The confidence scales the bullishness in `[0, 1]` before it is mapped to
`[-1, 1]`, so that an analysis of no confidence has the score -1.

Results:

* `scoreAt_zero`: the score of an analysis of zero confidence.
* `abs_scoreAt_le_iff`, `sign_scoreAt_iff`: when a lower confidence does not add to the score, and
  when the score has the sign of the analysis.
* `harmless_iff`: when a score of -1 leaves the sign and a hold as they are.
* `aiLeg_iff`: the laws of the AI leg hold of an analysis exactly so.
* `zeroConfidence_sells`: an analysis of no confidence that turns a hold into a sell.
-/

namespace Nivara.Intelligence

/-! ## Model -/

/-- `AiAnalysisOutput`, after its validators. -/
structure AiAnalysisOutput where
  outlook : ℚ
  risks : ℚ
  confidence : ℚ
  outlook_mem : 0 ≤ outlook ∧ outlook ≤ 1
  risks_mem : 0 ≤ risks ∧ risks ≤ 1
  confidence_mem : 0 ≤ confidence ∧ confidence ≤ 1

/-- The validator `_clamp` of each of the three. -/
def AiAnalysisOutput.ofFloats (outlook risks confidence : ℚ) : AiAnalysisOutput where
  outlook := clamp outlook 0 1
  risks := clamp risks 0 1
  confidence := clamp confidence 0 1
  outlook_mem := clamp_mem zero_le_one
  risks_mem := clamp_mem zero_le_one
  confidence_mem := clamp_mem zero_le_one

/-- `ai_score_from_output`. -/
def aiScoreFromOutput (outlook risks confidence : ℚ) : ℚ :=
  let raw := (outlook + (1 - risks)) / 2 * confidence
  2 * raw - 1

/-! ## The score -/

variable (a : AiAnalysisOutput)

/-- The score of an analysis with another confidence. -/
def AiAnalysisOutput.scoreAt (confidence : ℚ) : ℚ := aiScoreFromOutput a.outlook a.risks confidence

/-- Twice the bullishness. -/
def AiAnalysisOutput.bullishness : ℚ := 1 + a.outlook - a.risks

theorem scoreAt_eq (confidence : ℚ) : a.scoreAt confidence = a.bullishness * confidence - 1 := by
  unfold AiAnalysisOutput.scoreAt AiAnalysisOutput.bullishness aiScoreFromOutput
  ring

theorem bullishness_nonneg : 0 ≤ a.bullishness := by
  have := a.outlook_mem.1
  have := a.risks_mem.2
  unfold AiAnalysisOutput.bullishness
  linarith

theorem scoreAt_zero : a.scoreAt 0 = -1 := by
  rw [scoreAt_eq]
  ring

theorem scoreAt_mono {c c' : ℚ} (h : c ≤ c') : a.scoreAt c ≤ a.scoreAt c' := by
  rw [scoreAt_eq, scoreAt_eq]
  exact sub_le_sub_right (mul_le_mul_of_nonneg_left h (bullishness_nonneg a)) 1

/-- A lower confidence lowers the score; that does not add to it when it stays, or when the two
    scores have a sum that is not negative. -/
theorem abs_scoreAt_le_iff {lower : ℚ} (h : lower ≤ a.confidence) :
    |a.scoreAt lower| ≤ |a.scoreAt a.confidence| ↔
      lower = a.confidence ∨ a.bullishness = 0 ∨ 2 ≤ a.bullishness * (a.confidence + lower) := by
  have hle := scoreAt_mono a h
  have hsum : a.scoreAt lower + a.scoreAt a.confidence = a.bullishness * (a.confidence + lower) - 2 := by
    rw [scoreAt_eq, scoreAt_eq]
    ring
  have heq : a.scoreAt lower = a.scoreAt a.confidence ↔ lower = a.confidence ∨ a.bullishness = 0 := by
    rw [scoreAt_eq, scoreAt_eq, sub_left_inj, mul_eq_mul_left_iff]
  rw [← or_assoc, ← heq, ← sub_nonneg (b := (2 : ℚ)), ← hsum]
  constructor
  · intro habs
    by_cases hzero : 0 ≤ a.scoreAt lower + a.scoreAt a.confidence
    · exact .inr hzero
    · -- both scores lie below zero, where the lower one is the larger in absolute value
      refine .inl (le_antisymm hle ?_)
      have hneg : a.scoreAt lower ≤ 0 := by linarith
      rw [abs_of_nonpos hneg] at habs
      obtain hnonneg | hnonpos := le_total 0 (a.scoreAt a.confidence)
      · rw [abs_of_nonneg hnonneg] at habs
        linarith
      · rw [abs_of_nonpos hnonpos] at habs
        linarith
  · rintro (heq | hnonneg)
    · rw [heq]
    · have hconf : 0 ≤ a.scoreAt a.confidence := by linarith
      rw [abs_of_nonneg hconf]
      exact abs_le.mpr ⟨by linarith, hle⟩

/-- What a share `s` of a score of -1 does to the sign of a score. -/
theorem sign_sub_eq_iff {s d : ℚ} (h0 : 0 ≤ s) (h1 : s < 1) :
    SignType.sign (d * (1 - s) - s) = SignType.sign d ↔ s = 0 ∨ d < 0 ∨ s < d * (1 - s) := by
  obtain hneg | hzero | hpos := lt_trichotomy d 0
  · have hlt : d * (1 - s) - s < 0 := by nlinarith
    rw [sign_neg hlt, sign_neg hneg]
    exact iff_of_true rfl (.inr (.inl hneg))
  · subst hzero
    rw [sign_zero, sign_eq_zero_iff]
    constructor
    · intro h
      exact .inl (by linarith)
    · rintro (h | h | h)
      · linarith
      · exact absurd h (lt_irrefl _)
      · linarith
  · rw [sign_pos hpos, sign_eq_one_iff, sub_pos]
    constructor
    · intro h
      exact .inr (.inr h)
    · rintro (h | h | h)
      · rw [h]
        linarith
      · exact absurd h (not_lt.mpr hpos.le)
      · exact h

/-- The score has the sign of the analysis at full confidence, for a bearish analysis, and for a
    bullish one of enough confidence. -/
theorem sign_scoreAt_iff (hpos : 0 < a.confidence) :
    SignType.sign (a.scoreAt a.confidence) = SignType.sign (a.outlook - a.risks) ↔
      a.confidence = 1 ∨ a.outlook < a.risks ∨ 1 < a.bullishness * a.confidence := by
  have hconf := a.confidence_mem.2
  -- the missing confidence is a share of a score of -1
  have hscore : a.scoreAt a.confidence =
      (a.outlook - a.risks) * (1 - (1 - a.confidence)) - (1 - a.confidence) := by
    rw [scoreAt_eq]
    unfold AiAnalysisOutput.bullishness
    ring
  have hfull : 1 - a.confidence = 0 ↔ a.confidence = 1 := by rw [sub_eq_zero, eq_comm]
  have hmissing : 1 - a.confidence < (a.outlook - a.risks) * (1 - (1 - a.confidence)) ↔
      1 < a.bullishness * a.confidence := by
    rw [← sub_pos, ← hscore, scoreAt_eq, sub_pos]
  rw [hscore, sign_sub_eq_iff (by linarith) (by linarith), hfull, sub_neg, hmissing]

/-! ## In live mode -/

/-- A score that changes neither the sign of the composite nor a hold into a sell. -/
structure Harmless (x : SynthesisInput) (w score : ℚ) : Prop where
  sign : (synthesize x ⟨some score, w, false⟩).compositeScore.map SignType.sign =
    (synthesize x ⟨none, w, false⟩).compositeScore.map SignType.sign
  hold : (synthesize x ⟨none, w, false⟩).action = some .hold →
    (synthesize x ⟨some score, w, false⟩).action ≠ some .sell ∧
      (synthesize x ⟨some score, w, false⟩).action ≠ some .strongSell

/-- What a score of -1 does with a share `s` to a composite `d` of the engines. -/
structure Absorbed (s d : ℚ) : Prop where
  sign : s = 0 ∨ d < 0 ∨ s < d * (1 - s)
  hold : d < -(3 / 10) ∨ 3 / 10 < d ∨ s - 3 / 10 ≤ d * (1 - s)

theorem actionFor_eq_hold_iff (c : ℚ) : actionFor c = .hold ↔ -(3 / 10) ≤ c ∧ c ≤ 3 / 10 := by
  unfold actionFor
  split_ifs with h₁ h₂ h₃ h₄
  · exact iff_of_false nofun fun h => by linarith [h.2]
  · exact iff_of_false nofun fun h => by linarith [h.2]
  · exact iff_of_true rfl ⟨h₃, not_lt.mp h₂⟩
  · exact iff_of_false nofun fun h => h₃ h.1
  · exact iff_of_false nofun fun h => h₃ h.1

/-- The sells are below the holds. -/
theorem actionFor_sells_iff (c : ℚ) : actionFor c ≠ .sell ∧ actionFor c ≠ .strongSell ↔ -(3 / 10) ≤ c := by
  unfold actionFor
  split_ifs with h₁ h₂ h₃ h₄
  · exact iff_of_true ⟨nofun, nofun⟩ (by linarith)
  · exact iff_of_true ⟨nofun, nofun⟩ (by linarith)
  · exact iff_of_true ⟨nofun, nofun⟩ h₃
  · exact iff_of_false (fun h => h.1 rfl) h₃
  · exact iff_of_false (fun h => h.2 rfl) h₃

theorem composite_minus_one {x : SynthesisInput} (h : x.normalized ≠ []) (w : ℚ) :
    x.composite ⟨some (-1), w, false⟩ = x.detComposite * (1 - aiShare w) - aiShare w := by
  rw [SynthesisInput.composite_eq_mix h, clamp_of_mem (by norm_num) (by norm_num)]
  unfold Blend.mix
  ring

theorem harmless_iff (x : SynthesisInput) (w : ℚ) :
    Harmless x w (-1) ↔
      x.normalized = [] ∨ x.stalenessLevel = .suppressed ∨ Absorbed (aiShare w) x.detComposite := by
  have hshare : aiShare w < 1 := (aiShare_le w).trans_lt (by norm_num [maxAiWeight])
  by_cases hnone : x.normalized = [] ∨ x.stalenessLevel = .suppressed
  · have hscore : ∀ ai, (synthesize x ai).compositeScore = none := fun ai => by
      rw [synthesize_compositeScore, if_pos hnone]
    have haction : ∀ ai, (synthesize x ai).action = none := fun ai => by
      rw [synthesize_action, if_pos hnone]
    rw [← or_assoc]
    refine iff_of_true ⟨?_, ?_⟩ (.inl hnone)
    · rw [hscore, hscore]
    · rw [haction]
      intro h
      cases h
  · have hne : x.normalized ≠ [] := fun h => hnone (.inl h)
    rw [← or_assoc, or_iff_right hnone]
    have hscore : ∀ ai, (synthesize x ai).compositeScore = some (x.composite ai) := fun ai => by
      rw [synthesize_compositeScore, if_neg hnone]
    have haction : ∀ ai, (synthesize x ai).action = some (actionFor (x.composite ai)) := fun ai => by
      rw [synthesize_action, if_neg hnone]
    have hsign : ((synthesize x ⟨some (-1), w, false⟩).compositeScore.map SignType.sign =
        (synthesize x ⟨none, w, false⟩).compositeScore.map SignType.sign) ↔
          aiShare w = 0 ∨ x.detComposite < 0 ∨ aiShare w < x.detComposite * (1 - aiShare w) := by
      rw [hscore, hscore, composite_minus_one hne, SynthesisInput.composite_of_none hne, Option.map_some,
        Option.map_some, Option.some_inj]
      exact sign_sub_eq_iff (aiShare_nonneg w) hshare
    have hhold : ((synthesize x ⟨none, w, false⟩).action = some .hold →
        (synthesize x ⟨some (-1), w, false⟩).action ≠ some .sell ∧
          (synthesize x ⟨some (-1), w, false⟩).action ≠ some .strongSell) ↔
        x.detComposite < -(3 / 10) ∨ 3 / 10 < x.detComposite ∨
          aiShare w - 3 / 10 ≤ x.detComposite * (1 - aiShare w) := by
      rw [haction, haction, composite_minus_one hne, SynthesisInput.composite_of_none hne, Option.some_inj,
        actionFor_eq_hold_iff, Option.some_inj.ne, Option.some_inj.ne, actionFor_sells_iff]
      constructor
      · intro h
        by_cases hlo : -(3 / 10) ≤ x.detComposite
        · by_cases hhi : x.detComposite ≤ 3 / 10
          · exact .inr (.inr (by linarith [h ⟨hlo, hhi⟩]))
          · exact .inr (.inl (not_le.mp hhi))
        · exact .inl (not_le.mp hlo)
      · rintro (h | h | h) ⟨hlo, hhi⟩
        · exact absurd hlo (not_le.mpr h)
        · exact absurd hhi (not_le.mpr h)
        · linarith
    exact ⟨fun h => ⟨hsign.mp h.sign, hhold.mp h.hold⟩, fun h => ⟨hsign.mpr h.sign, hhold.mpr h.hold⟩⟩

/-! ## The laws of the AI leg -/

/-- The laws, for an analysis and a lower confidence, and for a recommendation that blends its score:
    the score does not grow, it is neutral at zero confidence and has the sign of the analysis at
    positive confidence; and at zero confidence it does no harm. -/
structure AiLegLaws (a : AiAnalysisOutput) (lower : ℚ) (x : SynthesisInput) (w : ℚ) : Prop where
  lowered : |a.scoreAt lower| ≤ |a.scoreAt a.confidence|
  zero : a.confidence = 0 → a.scoreAt a.confidence = 0
  sign : 0 < a.confidence →
    SignType.sign (a.scoreAt a.confidence) = SignType.sign (a.outlook - a.risks)
  live : a.confidence = 0 → Harmless x w (a.scoreAt a.confidence)

/-- The laws hold of an analysis of positive confidence under the conditions of each, and of none of
    zero confidence; its score is then -1, which does no harm where the engines absorb it. -/
theorem aiLeg_iff (a : AiAnalysisOutput) (lower : ℚ) (hle : lower ≤ a.confidence) (x : SynthesisInput)
    (w : ℚ) :
    (AiLegLaws a lower x w ↔
      0 < a.confidence ∧
        (lower = a.confidence ∨ a.bullishness = 0 ∨ 2 ≤ a.bullishness * (a.confidence + lower)) ∧
        (a.confidence = 1 ∨ a.outlook < a.risks ∨ 1 < a.bullishness * a.confidence)) ∧
    (a.confidence = 0 → (Harmless x w (a.scoreAt a.confidence) ↔
      x.normalized = [] ∨ x.stalenessLevel = .suppressed ∨ Absorbed (aiShare w) x.detComposite)) := by
  constructor
  · constructor
    · intro h
      have hpos : 0 < a.confidence := by
        refine lt_of_le_of_ne a.confidence_mem.1 fun hzero => ?_
        have hscore := h.zero hzero.symm
        rw [← hzero, scoreAt_zero] at hscore
        norm_num at hscore
      exact ⟨hpos, (abs_scoreAt_le_iff a hle).mp h.lowered, (sign_scoreAt_iff a hpos).mp (h.sign hpos)⟩
    · rintro ⟨hpos, hlowered, hsign⟩
      exact
        { lowered := (abs_scoreAt_le_iff a hle).mpr hlowered
          zero := fun hzero => absurd hzero hpos.ne'
          sign := fun hpos => (sign_scoreAt_iff a hpos).mpr hsign
          live := fun hzero => absurd hzero hpos.ne' }
  · intro hzero
    rw [hzero, scoreAt_zero]
    exact harmless_iff x w

/-- An optimistic analysis of full confidence, and nine tenths of it. -/
theorem aiLeg_iff_sample :
    AiLegLaws (.ofFloats 1 0 1) (9 / 10) neutralInput (3 / 10) :=
  (aiLeg_iff (.ofFloats 1 0 1) (9 / 10) (by decide +kernel) neutralInput (3 / 10)).1.mpr
    ⟨by decide +kernel, .inr (.inr (by decide +kernel)), .inl (by decide +kernel)⟩

/-- An analysis of no confidence: its score is -1, and a hold becomes a sell. -/
theorem zeroConfidence_sells :
    aiScoreFromOutput 1 0 0 = -1 ∧
      ∃ x : SynthesisInput, (synthesize x ⟨none, 3 / 10, false⟩).action = some .hold ∧
        (synthesize x ⟨some (aiScoreFromOutput 1 0 0), 3 / 10, false⟩).action = some .sell :=
  ⟨by decide +kernel, { neutralInput with engines := ⟨some (some (-1 / 10)), none, none, none⟩ },
    by decide +kernel, by decide +kernel⟩

end Nivara.Intelligence
