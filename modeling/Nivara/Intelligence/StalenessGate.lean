import Nivara.Intelligence.Legs

/-!
# The staleness gate

Lines 223–265 of `intelligence/synthesizer.py`: the oldest time of a contributing engine is
classified, suppresses the recommendation or reduces its confidence.

Results:

* `stalenessLevel_eq`: the level is that of an oldest contributing engine.
* `suppressed_iff`: it is suppressed when the age of some engine reaches the last threshold and is
  not negative.
* `stalenessGate`: the gate, the reduction, older data, and the times of the other engines.
* `futureTimes_pass`: with negative thresholds a time in the future passes the gate.
-/

namespace Nivara.Intelligence

/-- The age of a result, in hours. -/
def ageInHours (createdAt now : ℤ) : ℚ := ((now - createdAt : ℤ) : ℚ) / hours 1

/-- Thresholds in order. -/
def StalenessSettings.Ordered (s : StalenessSettings) : Prop :=
  s.freshHours ≤ s.agingHours ∧ s.agingHours ≤ s.staleHours

/-- The confidence before its reduction. -/
def SynthesisInput.rawConfidence (x : SynthesisInput) (composite : ℚ) : ℚ :=
  let absDev := (x.normalized.map fun (_, v) => |v - composite|).sum / max (x.normalized.length : ℚ) 1
  clamp (100 * (1 - min absDev 1)) 0 100

variable {x : SynthesisInput} {ai : AiArguments} {s : StalenessSettings}

/-- The engines that contribute, with their times. -/
def SynthesisInput.Contributes (x : SynthesisInput) (k : Engine) (t : ℤ) : Prop :=
  k ∈ x.normalized.map Prod.fst ∧ x.computedAtPerEngine k = some t

/-- Every contributing engine has a time. -/
def SynthesisInput.Timed (x : SynthesisInput) : Prop :=
  ∀ k ∈ x.normalized.map Prod.fst, ∃ t, x.computedAtPerEngine k = some t

theorem classifyStaleness_suppressed_iff (h : s.Ordered) (createdAt now : ℤ) :
    classifyStaleness s createdAt now = .suppressed ↔
      s.staleHours ≤ ageInHours createdAt now ∧ 0 ≤ ageInHours createdAt now := by
  obtain ⟨hfresh, haging⟩ := h
  unfold classifyStaleness ageInHours
  dsimp only
  split_ifs with h₁ h₂ h₃ h₄
  · exact iff_of_false nofun fun h => absurd h.2 (not_le.mpr h₁)
  · exact iff_of_false nofun fun h => by linarith [h.1]
  · exact iff_of_false nofun fun h => by linarith [h.1]
  · exact iff_of_false nofun fun h => by linarith [h.1]
  · exact iff_of_true rfl ⟨not_lt.mp h₄, not_lt.mp h₁⟩

/-- The level of a call is that of an oldest contributing engine. -/
theorem SynthesisInput.stalenessLevel_eq (htimed : x.Timed) (hne : x.normalized ≠ []) :
    ∃ k t, x.Contributes k t ∧ (∀ k' t', x.Contributes k' t' → t ≤ t') ∧
      x.stalenessLevel = classifyStaleness x.staleness t x.now := by
  set times := x.normalized.filterMap fun p => x.computedAtPerEngine p.1 with htimes
  have hmem : ∀ t, t ∈ times ↔ ∃ k, x.Contributes k t := by
    intro t
    simp only [htimes, List.mem_filterMap, SynthesisInput.Contributes, List.mem_map]
    constructor
    · rintro ⟨p, hp, ht⟩
      exact ⟨p.1, ⟨p, hp, rfl⟩, ht⟩
    · rintro ⟨k, ⟨p, hp, rfl⟩, ht⟩
      exact ⟨p, hp, ht⟩
  obtain ⟨p, l, hp⟩ := List.exists_cons_of_ne_nil hne
  obtain ⟨t₀, ht₀⟩ := htimed p.1 (by simp [hp])
  have hsome : times ≠ [] := List.ne_nil_of_mem ((hmem t₀).mpr ⟨p.1, by simp [hp], ht₀⟩)
  obtain ⟨t, ht⟩ := Option.isSome_iff_exists.mp (List.isSome_min?_of_ne_nil hsome)
  obtain ⟨htmem, hle⟩ := List.min?_eq_some_iff.mp ht
  obtain ⟨k, hk⟩ := (hmem t).mp htmem
  refine ⟨k, t, hk, fun k' t' hk' => hle t' ((hmem t').mpr ⟨k', hk'⟩), ?_⟩
  show classifyStaleness x.staleness (times.min?.getD x.now) x.now = _
  rw [ht, Option.getD_some]

theorem SynthesisInput.suppressed_iff (hordered : x.staleness.Ordered) (htimed : x.Timed)
    (hne : x.normalized ≠ []) :
    x.stalenessLevel = .suppressed ↔
      ∃ k t, x.Contributes k t ∧ x.staleness.staleHours ≤ ageInHours t x.now ∧ 0 ≤ ageInHours t x.now := by
  obtain ⟨k, t, hk, holdest, hlevel⟩ := stalenessLevel_eq htimed hne
  rw [hlevel, classifyStaleness_suppressed_iff hordered]
  constructor
  · intro h
    exact ⟨k, t, hk, h⟩
  · rintro ⟨k', t', hk', hstale, hage⟩
    have hle : ageInHours t' x.now ≤ ageInHours t x.now := by
      unfold ageInHours
      apply div_le_div_of_nonneg_right
      · exact_mod_cast Int.sub_le_sub_left (holdest k' t' hk') x.now
      · norm_num [hours, minutes]
    exact ⟨hstale.trans hle, hage.trans hle⟩

theorem applyConfidenceReduction_eq {l : StalenessLevel} (h : l ≠ .suppressed) (confidence : ℚ) :
    applyConfidenceReduction confidence l = clamp (confidence - defaultReduction l) 0 100 := by
  unfold applyConfidenceReduction clamp
  rw [if_neg h]
  dsimp only
  split_ifs with hneg hbig
  · rw [min_eq_right (by linarith), max_eq_left hneg.le]
  · rw [min_eq_left hbig.le, max_eq_right (by norm_num)]
  · rw [min_eq_right (not_lt.mp hbig), max_eq_right (not_lt.mp hneg)]

/-- A staler level does not leave more of a confidence. -/
theorem applyConfidenceReduction_anti {l l' : StalenessLevel} (h : l.rank ≤ l'.rank) (confidence : ℚ) :
    applyConfidenceReduction confidence l' ≤ applyConfidenceReduction confidence l := by
  by_cases hl' : l' = .suppressed
  · subst hl'
    exact (applyConfidenceReduction_mem confidence l).1
  have hl : l ≠ .suppressed := by
    rintro rfl
    cases l' <;> simp [StalenessLevel.rank] at h hl'
  have hreduction : defaultReduction l ≤ defaultReduction l' := by
    cases l <;> cases l' <;> simp [StalenessLevel.rank, defaultReduction] at h hl hl' ⊢
    norm_num
  rw [applyConfidenceReduction_eq hl, applyConfidenceReduction_eq hl']
  exact clamp_mono (by linarith)

/-! ## Other times -/

/-- A call with other times. -/
abbrev SynthesisInput.withTimes (x : SynthesisInput) (times : Engine → Option ℤ) : SynthesisInput :=
  { x with computedAtPerEngine := times }

theorem synthesize_status : (synthesize x ai).status =
    if x.normalized = [] ∨ x.stalenessLevel = .suppressed then .stale else .ok := by
  split_ifs with h
  · exact (synthesize_stale h).1
  · exact (synthesize_ok h).1

theorem status_eq_ok_iff :
    (synthesize x ai).status = .ok ↔ x.normalized ≠ [] ∧ x.stalenessLevel ≠ .suppressed := by
  rw [synthesize_status]
  split_ifs with h
  · simp only [false_iff, not_and_or, not_not]
    exact h
  · simpa [not_or] using h

/-- Only the times of contributing engines are read. -/
theorem synthesize_withTimes {times : Engine → Option ℤ}
    (h : ∀ k ∈ x.normalized.map Prod.fst, times k = x.computedAtPerEngine k) :
    synthesize (x.withTimes times) ai = synthesize x ai := by
  have hlevel : (x.withTimes times).stalenessLevel = x.stalenessLevel := by
    have htimes : (x.normalized.filterMap fun p => times p.1) =
        x.normalized.filterMap fun p => x.computedAtPerEngine p.1 :=
      List.filterMap_congr fun p hp => h p.1 (List.mem_map_of_mem hp)
    exact congrArg (fun l : List ℤ => classifyStaleness x.staleness (l.min?.getD x.now) x.now) htimes
  have hconfidence : ∀ c, (x.withTimes times).confidence c = x.confidence c := fun c =>
    congrArg (applyConfidenceReduction (x.rawConfidence c)) hlevel
  unfold synthesize
  rw [hlevel]
  simp only [hconfidence]
  rfl

/-- Older data of the contributing engines. -/
def SynthesisInput.Older (x : SynthesisInput) (times : Engine → Option ℤ) : Prop :=
  ∀ k t, x.Contributes k t → ∃ t', times k = some t' ∧ t' ≤ t

theorem rank_le_of_older {times : Engine → Option ℤ} (hordered : x.staleness.Ordered) (htimed : x.Timed)
    (hne : x.normalized ≠ []) (h : x.Older times) :
    x.stalenessLevel.rank ≤ (x.withTimes times).stalenessLevel.rank := by
  have htimed' : (x.withTimes times).Timed := by
    intro k hk
    obtain ⟨t, ht⟩ := htimed k hk
    obtain ⟨t', ht', -⟩ := h k t ⟨hk, ht⟩
    exact ⟨t', ht'⟩
  obtain ⟨k, t, hk, -, hlevel⟩ := x.stalenessLevel_eq htimed hne
  obtain ⟨k', u, -, holdest, hlevel'⟩ := (x.withTimes times).stalenessLevel_eq htimed' hne
  obtain ⟨t', ht', hle⟩ := h k t hk
  have hut : u ≤ t := (holdest k t' ⟨hk.1, ht'⟩).trans hle
  rw [hlevel, hlevel']
  exact classifyStaleness_mono hordered.1 hordered.2 hut

/-! ## Main result -/

/-- The gate of a call: when it lets the recommendation pass, by how much the confidence is reduced,
    what older data do, and that the times of the other engines do nothing. -/
structure Gated (x : SynthesisInput) (ai : AiArguments) : Prop where
  status : (synthesize x ai).status = .ok ↔
    x.normalized ≠ [] ∧
      ∀ k t, x.Contributes k t → ageInHours t x.now < x.staleness.staleHours ∨ ageInHours t x.now < 0
  confidence : ∀ c ∈ (synthesize x ai).confidence,
    ∃ k t, x.Contributes k t ∧ (∀ k' t', x.Contributes k' t' → t ≤ t') ∧
      c = applyConfidenceReduction (x.rawConfidence (x.composite ai))
        (classifyStaleness x.staleness t x.now)
  older : ∀ times, x.Older times →
    ((synthesize (x.withTimes times) ai).status = .ok → (synthesize x ai).status = .ok) ∧
      ∀ c' ∈ (synthesize (x.withTimes times) ai).confidence, ∃ c ∈ (synthesize x ai).confidence, c' ≤ c
  others : ∀ times, (∀ k ∈ x.normalized.map Prod.fst, times k = x.computedAtPerEngine k) →
    synthesize (x.withTimes times) ai = synthesize x ai

theorem stalenessGate (x : SynthesisInput) (ai : AiArguments) (hordered : x.staleness.Ordered)
    (htimed : x.Timed) : Gated x ai := by
  -- when older data pass the gate, so did the data before
  have hpass : ∀ times, x.Older times → x.normalized ≠ [] →
      (x.withTimes times).stalenessLevel ≠ .suppressed → x.stalenessLevel ≠ .suppressed := by
    intro times holder hne hpass hstale
    have hrank := rank_le_of_older hordered htimed hne holder
    rw [hstale] at hrank
    apply hpass
    cases hlevel : (x.withTimes times).stalenessLevel <;> simp [hlevel, StalenessLevel.rank] at hrank ⊢
  refine ⟨?_, fun c hc => ?_, fun times holder => ⟨fun hok => ?_, fun c' hc' => ?_⟩,
    fun times => synthesize_withTimes⟩
  · rw [status_eq_ok_iff]
    refine and_congr_right fun hne => ?_
    rw [Ne, SynthesisInput.suppressed_iff hordered htimed hne]
    push Not
    refine forall_congr' fun k => forall_congr' fun t => forall_congr' fun _ => ?_
    constructor
    · intro h
      by_cases hstale : ageInHours t x.now < x.staleness.staleHours
      · exact .inl hstale
      · exact .inr (h (not_lt.mp hstale))
    · rintro (h | h) hle
      · exact absurd h (not_lt.mpr hle)
      · exact h
  · rw [synthesize_confidence] at hc
    split_ifs at hc with hnone
    · cases hc
    · cases hc
      push Not at hnone
      obtain ⟨k, t, hk, holdest, hlevel⟩ := x.stalenessLevel_eq htimed hnone.1
      refine ⟨k, t, hk, holdest, ?_⟩
      rw [← hlevel]
      rfl
  · obtain ⟨hne, hlevel⟩ := status_eq_ok_iff.mp hok
    exact status_eq_ok_iff.mpr ⟨hne, hpass times holder hne hlevel⟩
  · rw [synthesize_confidence] at hc'
    split_ifs at hc' with hnone
    · cases hc'
    · cases hc'
      push Not at hnone
      have hne : x.normalized ≠ [] := hnone.1
      have hold : ¬(x.normalized = [] ∨ x.stalenessLevel = .suppressed) :=
        not_or.mpr ⟨hne, hpass times holder hne hnone.2⟩
      refine ⟨x.confidence (x.composite ai), ?_, ?_⟩
      · rw [synthesize_confidence, if_neg hold]
        rfl
      · exact applyConfidenceReduction_anti (rank_le_of_older hordered htimed hne holder) _

theorem stalenessGate_sample : Gated neutralInput ⟨none, 0, true⟩ :=
  stalenessGate neutralInput ⟨none, 0, true⟩ ⟨by norm_num [neutralInput, StalenessSettings.default],
    by norm_num [neutralInput, StalenessSettings.default]⟩ fun _ _ => ⟨0, rfl⟩

/-- A time half an hour ahead, with thresholds that are ordered and negative: the age, minus a half,
    is not below the last of them, and the recommendation is not stale. -/
theorem futureTimes_pass :
    ∃ x : SynthesisInput, x.staleness.Ordered ∧ x.Timed ∧ x.normalized = [(.technical, 0)] ∧
      x.computedAtPerEngine .technical = some (minutes 30) ∧
      ¬ageInHours (minutes 30) x.now < x.staleness.staleHours ∧
      (synthesize x ⟨none, 0, true⟩).status = .ok :=
  ⟨{ neutralInput with computedAtPerEngine := fun _ => some (minutes 30), staleness := ⟨-3, -2, -1⟩ },
    by constructor <;> norm_num, fun _ _ => ⟨_, rfl⟩, by decide +kernel, rfl, by decide +kernel,
    by decide +kernel⟩

end Nivara.Intelligence
