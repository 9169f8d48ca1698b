import Nivara.Lib.Blend
import Nivara.Lib.Keyed

/-!
# Technical analysis

`analyze_technical` (`analysis/technical.py`): six indicators of a price series, each a signal in
`[-1, 1]`, and their blend over the indicators with enough data.

* Arithmetic is exact.
* A frame is a price series as `_ensure_ohlcv` leaves it. The signals that are computed with pandas
  are a parameter, as is the number of bars.
* The six fields of an analysis are a function, and so is a dictionary of all six; its items stand in
  the order of `indicators`.

Results:

* `clampSignal_mem`, `blendIndicators_mem`: the composite is in `[-1, 1]`.
* `analyzeTechnical_value`: an indicator with enough data has a value and a reading.
-/

namespace Nivara.Analysis

/-! ## Model -/

/-- The keys of `_WEIGHTS`. -/
inductive Indicator
  | rsi
  | macd
  | maAlignment
  | bollinger
  | volume
  | atr
  deriving DecidableEq, Repr

def Indicator.name : Indicator → String
  | .rsi => "rsi"
  | .macd => "macd"
  | .maAlignment => "ma_alignment"
  | .bollinger => "bollinger"
  | .volume => "volume"
  | .atr => "atr"

/-- The indicators, in the order of the dictionaries. -/
def indicators : List Indicator := [.rsi, .macd, .maAlignment, .bollinger, .volume, .atr]

theorem mem_indicators (k : Indicator) : k ∈ indicators := by
  cases k <;> decide

/-- `_WEIGHTS`. -/
def indicatorWeights : Indicator → ℚ
  | .rsi => 20 / 100
  | .macd => 20 / 100
  | .maAlignment => 25 / 100
  | .bollinger => 15 / 100
  | .volume => 10 / 100
  | .atr => 10 / 100

/-- `_MIN_BARS`. -/
def minBars : Indicator → ℕ
  | .rsi => 14
  | .macd => 35
  | .maAlignment => 200
  | .bollinger => 20
  | .volume => 20
  | .atr => 14

/-- `_MIN_BARS_FOR_ANY_ANALYSIS`. -/
def minBarsForAnyAnalysis : ℕ := 30

/-- `IndicatorResult`. -/
structure IndicatorResult where
  value : Option ℚ
  raw : Option ℚ
  insufficientData : Bool
  deriving DecidableEq, Repr

/-- The action of an analysis. -/
inductive TechnicalAction
  | strongSell
  | sell
  | hold
  | buy
  | strongBuy
  deriving DecidableEq, Repr

/-- `TechnicalAnalysis`. -/
structure TechnicalAnalysis where
  result : Indicator → IndicatorResult
  compositeScore : Option ℚ
  action : Option TechnicalAction
  barsAnalyzed : ℕ
  insufficientDataFlags : List Indicator

/-- `_clamp` with its defaults. -/
def clampSignal (value : ℚ) : ℚ := max (-1) (min 1 value)

/-- `_action_for` over `_ACTION_THRESHOLDS`. -/
def technicalActionFor (score : ℚ) : TechnicalAction :=
  if score < -(6 / 10) then .strongSell
  else if score < -(2 / 10) then .sell
  else if score < 2 / 10 then .hold
  else if score < 6 / 10 then .buy
  else .strongBuy

/-- `_insufficient`. -/
def insufficient : IndicatorResult := ⟨none, none, true⟩

/-- The price series of the engine, and what pandas computes of one. -/
structure Signals (Frame : Type) where
  /-- `len(frame)`. -/
  bars : Frame → ℕ
  /-- The signal and the raw reading of an indicator; `none` for an exception or a `NaN`. -/
  signal : Frame → Indicator → Option (ℚ × ℚ)

/-- The indicators with a value. -/
def scoredIndicators (result : Indicator → IndicatorResult) : List (Indicator × ℚ) :=
  Keyed.entries indicators fun k => if (result k).insufficientData then none else (result k).value

/-- `composite` (lines 395–401, and 529–535 for a cached analysis). -/
def blendIndicators (result : Indicator → IndicatorResult) : Option ℚ :=
  let scored := scoredIndicators result
  if scored = [] then none
  else
    let totalW := Blend.total (fun p => indicatorWeights p.1) scored
    let weighted := Blend.blend (fun p => indicatorWeights p.1) Prod.snd scored
    if 0 < totalW then some (clampSignal (weighted / totalW)) else none

variable {Frame : Type} (signals : Signals Frame)

/-- `_calc`. -/
def calcIndicator (frame : Frame) (k : Indicator) : IndicatorResult :=
  if signals.bars frame < minBars k then insufficient
  else
    match signals.signal frame k with
    | none => insufficient
    | some (signal, raw) => ⟨some signal, some raw, false⟩

/-- `analyze_technical`. -/
def analyzeTechnical (frame : Frame) : TechnicalAnalysis :=
  if signals.bars frame < minBarsForAnyAnalysis then
    { result := fun _ => insufficient
      compositeScore := none
      action := none
      barsAnalyzed := signals.bars frame
      insufficientDataFlags := indicators }
  else
    let result := calcIndicator signals frame
    let composite := blendIndicators result
    { result := result
      compositeScore := composite
      action := composite.map technicalActionFor
      barsAnalyzed := signals.bars frame
      insufficientDataFlags := indicators.filter fun k => (result k).insufficientData }

/-! ## Scores -/

variable {signals} {frame : Frame} {result : Indicator → IndicatorResult} {k : Indicator}

theorem clampSignal_mem (value : ℚ) : -1 ≤ clampSignal value ∧ clampSignal value ≤ 1 :=
  ⟨le_max_left _ _, max_le (by norm_num) (min_le_left _ _)⟩

theorem blendIndicators_mem {composite : ℚ} (h : blendIndicators result = some composite) :
    -1 ≤ composite ∧ composite ≤ 1 := by
  unfold blendIndicators at h
  dsimp only at h
  split_ifs at h
  obtain rfl := Option.some.inj h
  exact clampSignal_mem _

/-- An indicator of an analysis is flagged, or has a value and a reading. -/
theorem analyzeTechnical_value (signals : Signals Frame) (frame : Frame) (k : Indicator) :
    ((analyzeTechnical signals frame).result k).insufficientData = true ∨
      ∃ value raw, (analyzeTechnical signals frame).result k = ⟨some value, some raw, false⟩ := by
  unfold analyzeTechnical
  split_ifs
  · exact .inl rfl
  · dsimp only [calcIndicator]
    split_ifs
    · exact .inl rfl
    · rcases signals.signal frame k with _ | ⟨value, raw⟩
      · exact .inl rfl
      · exact .inr ⟨value, raw, rfl⟩

end Nivara.Analysis
