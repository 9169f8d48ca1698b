import Nivara.Analysis.Technical

/-!
# Technical analysis in any arithmetic

`analyze_technical` (`analysis/technical.py`, lines 123–132 and 328–415) with its arithmetic as a
parameter: Python's doubles, whatever their roundings, or exact numbers.

* A dictionary is the list of its items, in the order of insertion.
* What pandas computes of a frame is a parameter, as in `Analysis/Technical`.

Results:

* `analyzeTechnical_exact`: in exact arithmetic this is the model of `Analysis/Technical`.
-/

namespace Nivara.Analysis.Technical

variable {F Frame : Type}

/-! ## Model -/

/-- What the engine does with numbers. -/
structure Arithmetic (F : Type) where
  /-- A literal. -/
  ofRat : ℚ → F
  mul : F → F → F
  div : F → F → F
  /-- `sum(values, start)`, which may compensate its roundings. -/
  sum : F → List F → F
  lt : F → F → Bool
  /-- `x != x`. -/
  isNaN : F → Bool

/-- Exact arithmetic. -/
def Arithmetic.exact (K : Type) [Field K] [LinearOrder K] : Arithmetic K where
  ofRat q := q
  mul := (· * ·)
  div := (· / ·)
  sum start values := start + values.sum
  lt a b := decide (a < b)
  isNaN _ := false

/-- `IndicatorResult`. -/
structure IndicatorResult (F : Type) where
  value : Option F
  raw : Option F
  insufficientData : Bool
  deriving DecidableEq

/-- `TechnicalAnalysis`. -/
structure TechnicalAnalysis (F : Type) where
  result : Indicator → IndicatorResult F
  compositeScore : Option F
  action : Option TechnicalAction
  barsAnalyzed : ℕ
  insufficientDataFlags : List Indicator

/-- `_insufficient`. -/
def insufficient : IndicatorResult F := ⟨none, none, true⟩

section

variable (ar : Arithmetic F)

/-- `_clamp` with its defaults. -/
def clamp (value : F) : F :=
  let low := ar.ofRat (-1)
  let high := ar.ofRat 1
  let least := if ar.lt value high then value else high
  if ar.lt low least then least else low

/-- `_action_for` over `_ACTION_THRESHOLDS`. -/
def actionFor (score : F) : TechnicalAction :=
  if ar.lt score (ar.ofRat (-(6 / 10))) then .strongSell
  else if ar.lt score (ar.ofRat (-(2 / 10))) then .sell
  else if ar.lt score (ar.ofRat (2 / 10)) then .hold
  else if ar.lt score (ar.ofRat (6 / 10)) then .buy
  else .strongBuy

/-- `scored`: the items with a value. -/
def scored (results : List (Indicator × IndicatorResult F)) : List (Indicator × F) :=
  results.filterMap fun (k, r) => if r.insufficientData then none else r.value.map fun value => (k, value)

/-- `composite`, of the dictionary `results` (lines 390–402) or `cached` (lines 525–535). -/
def compositeOf (results : List (Indicator × IndicatorResult F)) : Option F :=
  let scored := scored results
  if scored.isEmpty then none
  else
    let totalW := ar.sum (ar.ofRat 0) (scored.map fun p => ar.ofRat (indicatorWeights p.1))
    let weighted :=
      ar.sum (ar.ofRat 0) (scored.map fun p => ar.mul p.2 (ar.ofRat (indicatorWeights p.1)))
    if ar.lt (ar.ofRat 0) totalW then some (clamp ar (ar.div weighted totalW)) else none

/-- The price series of the engine, and what pandas computes of one. -/
structure Signals (Frame F : Type) where
  /-- `len(frame)`. -/
  bars : Frame → ℕ
  /-- The signal and the raw reading of an indicator; `none` for an exception. -/
  signal : Frame → Indicator → Option (F × F)

variable (signals : Signals Frame F)

/-- `_calc`. -/
def calcIndicator (frame : Frame) (k : Indicator) : IndicatorResult F :=
  if signals.bars frame < minBars k then insufficient
  else
    match signals.signal frame k with
    | none => insufficient
    | some (signal, raw) =>
      if ar.isNaN signal || ar.isNaN raw then insufficient else ⟨some signal, some raw, false⟩

/-- `results`, which the six calls of `_calc` fill. -/
def results (frame : Frame) : List (Indicator × IndicatorResult F) :=
  indicators.map fun k => (k, calcIndicator ar signals frame k)

/-- The keys that are flagged. -/
def flagged (results : List (Indicator × IndicatorResult F)) : List Indicator :=
  (results.filter fun p => p.2.insufficientData).map Prod.fst

/-- `analyze_technical`. -/
def analyzeTechnical (frame : Frame) : TechnicalAnalysis F :=
  if signals.bars frame < minBarsForAnyAnalysis then
    { result := fun _ => insufficient
      compositeScore := none
      action := none
      barsAnalyzed := signals.bars frame
      insufficientDataFlags := indicators }
  else
    let results := results ar signals frame
    let composite := compositeOf ar results
    { result := calcIndicator ar signals frame
      compositeScore := composite
      action := composite.map (actionFor ar)
      barsAnalyzed := signals.bars frame
      insufficientDataFlags := flagged results }

end

/-! ## Exact arithmetic -/

/-- A result as it is in `Analysis/Technical`. -/
def IndicatorResult.exact (r : IndicatorResult ℚ) : Analysis.IndicatorResult :=
  ⟨r.value, r.raw, r.insufficientData⟩

def TechnicalAnalysis.exact (a : TechnicalAnalysis ℚ) : Analysis.TechnicalAnalysis :=
  { result := fun k => (a.result k).exact
    compositeScore := a.compositeScore
    action := a.action
    barsAnalyzed := a.barsAnalyzed
    insufficientDataFlags := a.insufficientDataFlags }

theorem clamp_exact {K : Type} [Field K] [LinearOrder K] [IsStrictOrderedRing K] (value : K) :
    clamp (.exact K) value = max (-1) (min 1 value) := by
  have hmin : (if value < 1 then value else 1) = min 1 value := by
    rw [min_comm, min_def_lt]
  have hmax : ∀ least : K, (if -1 < least then least else -1) = max (-1) least := fun least =>
    (max_def_lt _ _).symm
  unfold clamp Arithmetic.exact
  simp only [decide_eq_true_eq, Rat.cast_neg, Rat.cast_one]
  rw [hmin, hmax]

theorem actionFor_exact (score : ℚ) : actionFor (.exact ℚ) score = technicalActionFor score := by
  unfold actionFor technicalActionFor Arithmetic.exact
  simp only [decide_eq_true_eq]
  norm_cast

theorem calcIndicator_exact (signals : Analysis.Signals Frame) (frame : Frame) (k : Indicator) :
    (calcIndicator (.exact ℚ) ⟨signals.bars, signals.signal⟩ frame k).exact =
      Analysis.calcIndicator signals frame k := by
  unfold calcIndicator Analysis.calcIndicator
  dsimp only
  split_ifs
  · rfl
  · rcases signals.signal frame k with _ | ⟨signal, raw⟩ <;> rfl

theorem scored_exact (f : Indicator → IndicatorResult ℚ) :
    scored (indicators.map fun k => (k, f k)) = scoredIndicators fun k => (f k).exact := by
  unfold scored scoredIndicators Keyed.entries
  rw [List.filterMap_map]
  apply List.filterMap_congr
  intro k _
  show (if (f k).insufficientData then none else (f k).value.map fun value => (k, value)) =
    Option.map (k, ·) (if (f k).exact.insufficientData then none else (f k).exact.value)
  rcases f k with ⟨value, raw, insufficientData⟩
  cases insufficientData <;> rfl

theorem flagged_map (ks : List Indicator) (f : Indicator → IndicatorResult F) :
    flagged (ks.map fun k => (k, f k)) = ks.filter fun k => (f k).insufficientData := by
  unfold flagged
  rw [List.filter_map, List.map_map]
  exact List.map_id _

theorem compositeOf_exact (f : Indicator → IndicatorResult ℚ) :
    compositeOf (.exact ℚ) (indicators.map fun k => (k, f k)) = blendIndicators fun k => (f k).exact := by
  unfold compositeOf blendIndicators
  rw [scored_exact]
  generalize scoredIndicators (fun k => (f k).exact) = s
  dsimp only
  have htotal : (Arithmetic.exact ℚ).sum ((Arithmetic.exact ℚ).ofRat 0)
      (s.map fun p => (Arithmetic.exact ℚ).ofRat (indicatorWeights p.1)) =
        Blend.total (fun p => indicatorWeights p.1) s := zero_add _
  have hweighted : (Arithmetic.exact ℚ).sum ((Arithmetic.exact ℚ).ofRat 0)
      (s.map fun p => (Arithmetic.exact ℚ).mul p.2 ((Arithmetic.exact ℚ).ofRat (indicatorWeights p.1))) =
        Blend.blend (fun p => indicatorWeights p.1) Prod.snd s := by
    refine (zero_add _).trans (congrArg List.sum (List.map_congr_left fun p _ => ?_))
    exact mul_comm _ _
  have hlt : (Arithmetic.exact ℚ).lt ((Arithmetic.exact ℚ).ofRat 0)
      (Blend.total (fun p => indicatorWeights p.1) s) = true ↔
        0 < Blend.total (fun p => indicatorWeights p.1) s := decide_eq_true_iff
  simp only [htotal, hweighted, clamp_exact, List.isEmpty_iff, hlt]
  rfl

/-- In exact arithmetic, the analysis is the one of `Analysis/Technical`. -/
theorem analyzeTechnical_exact (signals : Analysis.Signals Frame) (frame : Frame) :
    (analyzeTechnical (.exact ℚ) ⟨signals.bars, signals.signal⟩ frame).exact =
      Analysis.analyzeTechnical signals frame := by
  unfold analyzeTechnical Analysis.analyzeTechnical
  dsimp only
  split_ifs
  · rfl
  · have hresult : (fun k => (calcIndicator (.exact ℚ) ⟨signals.bars, signals.signal⟩ frame k).exact) =
        Analysis.calcIndicator signals frame := funext fun k => calcIndicator_exact signals frame k
    unfold TechnicalAnalysis.exact results
    dsimp only
    rw [compositeOf_exact, flagged_map, hresult, funext actionFor_exact, ← hresult]
    rfl

end Nivara.Analysis.Technical
