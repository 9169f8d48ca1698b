import Nivara.Analysis.TechnicalArithmetic
import Nivara.Lib.TimeSeries

/-!
# The six technical signals

`_ensure_ohlcv` and the indicator calculators of `analysis/technical.py` (lines 135–318), over an
ordered field with a square root.

* Arithmetic is exact. What pandas computes of a series is in `Lib/TimeSeries`.
* A row has a gap for a value that is missing or no number. In which order `sort_index` puts the rows is
  a parameter, a function of their index.
* A signal is `none` for an exception or a `NaN`, which `_calc` treats alike.
-/

namespace Nivara.Analysis.Technical

open TimeSeries

variable {ι K : Type} [Field K] [LinearOrder K]

/-! ## The frame -/

/-- A row of the frame that is passed in. -/
structure Row (ι K : Type) where
  index : ι
  open_ : Option K
  high : Option K
  low : Option K
  close : Option K
  volume : Option K

/-- A row without gaps. -/
structure Bar (K : Type) where
  open_ : K
  high : K
  low : K
  close : K
  volume : K

def Row.bar (r : Row ι K) : Option (Bar K) := do
  return ⟨← r.open_, ← r.high, ← r.low, ← r.close, ← r.volume⟩

/-- `_ensure_ohlcv`; `argsort` gives the places of the rows in the order of their index. -/
def ensureOhlcv (argsort : List ι → List ℕ) (rows : List (Row ι K)) : List (Bar K) :=
  let out := (argsort (rows.map Row.index)).filterMap fun i => rows[i]?
  out.filterMap Row.bar

/-! ## The signals -/

/-- `_clamp`. -/
def clampTo (low high value : K) : K := max low (min high value)

/-- `latest`, the RSI. -/
def rsiReading (latestGain latestLoss : K) : K :=
  if latestLoss = 0 ∧ latestGain = 0 then 50
  else if latestLoss = 0 then 100
  else if latestGain = 0 then 0
  else
    let rs := latestGain / latestLoss
    100 - 100 / (1 + rs)

/-- `_rsi_signal`. -/
def rsiSignal (close : Series K) : Option (K × K) := do
  let delta := diff close
  let gain := clipLower delta
  let loss := neg (clipUpper delta)
  let avgGain := ewmMean (1 / 14) 14 gain
  let avgLoss := ewmMean (1 / 14) 14 loss
  let latestGain ← last avgGain
  let latestLoss ← last avgLoss
  let latest := rsiReading latestGain latestLoss
  return (clampTo (-1) 1 ((50 - latest) / 20), latest)

/-- `_macd_signal`. -/
def macdSignal (close : Series K) : Option (K × K) := do
  let emaFast := ewmSpanMean 12 close
  let emaSlow := ewmSpanMean 26 close
  let macd := zip2 (· - ·) emaFast emaSlow
  let signalLine := ewmSpanMean 9 macd
  let histogram := zip2 (· - ·) macd signalLine
  let latestHist ← last histogram
  let latestClose ← last close
  if latestClose = 0 then return (0, latestHist)
  else
    let scaled := latestHist / (latestClose * (1 / 100))
    return (clampTo (-1) 1 (scaled / 3), latestHist)

/-- `a > b`, which a `NaN` makes false. -/
def greater : Option K → Option K → Bool
  | some a, some b => decide (b < a)
  | _, _ => false

/-- `_ma_alignment_signal`. -/
def maAlignmentSignal (close : Series K) : Option (K × K) := do
  let sma20 := last (rolling 20 mean close)
  let sma50 := last (rolling 50 mean close)
  let sma200 := last (rolling 200 mean close)
  let comparisons : List K := [
    if greater sma20 sma50 then 1 else -1,
    if greater sma50 sma200 then 1 else -1,
    if greater sma20 sma200 then 1 else -1]
  return (clampTo (-1) 1 (comparisons.sum / 3), ← sma20)

/-- `_bollinger_signal`. -/
def bollingerSignal (sqrt : K → K) (close : Series K) : Option (K × K) := do
  let ma := rolling 20 mean close
  let sd := rolling 20 (std sqrt) close
  let upper := zip2 (fun m s => m + 2 * s) ma sd
  let lower := zip2 (fun m s => m - 2 * s) ma sd
  let latestClose ← last close
  let latestUpper ← last upper
  let latestLower ← last lower
  if latestUpper = latestLower then return (0, 1 / 2)
  else
    let pctB := (latestClose - latestLower) / (latestUpper - latestLower)
    return (clampTo (-1) 1 (1 - 2 * pctB), pctB)

/-- `_volume_signal`. -/
def volumeSignal (volume close : Series K) : Option (K × K) := do
  let avgVol ← last (rolling 20 mean volume)
  let latestVol ← last volume
  if avgVol ≤ 0 then return (0, 1)
  else
    let relVol := latestVol / avgVol
    let ret := (← last close) - (← last close.dropLast)
    let direction : K := if 0 < ret then 1 else if ret < 0 then -1 else 0
    let magnitude := clampTo 0 1 ((relVol - 1) / 2)
    return (clampTo (-1) 1 (direction * magnitude), relVol)

/-- `tr`, the true range. -/
def trueRange (high low close : Series K) : Series K :=
  let prevClose := shift close
  let distance (s t : Series K) : Series K := zip2 (fun a b => |a - b|) s t
  maxColumns (maxColumns (distance high low) (distance high prevClose)) (distance low prevClose)

/-- `_atr_signal`. -/
def atrSignal (high low close : Series K) : Option (K × K) := do
  let atr := ewmMean (1 / 14) 14 (trueRange high low close)
  let latestAtr ← last atr
  let latestClose ← last close
  if latestClose = 0 then return (0, latestAtr)
  else
    let atrPct := latestAtr / latestClose
    let signal :=
      if atrPct ≤ 15 / 1000 then clampTo (-1) 1 (3 / 10 - atrPct / (15 / 1000) * (3 / 10))
      else clampTo (-1) 1 (-((atrPct - 15 / 1000) / (15 / 1000)))
    return (signal, atrPct)

/-- The six calls of `_calc`. -/
def ohlcvSignals (sqrt : K → K) (argsort : List ι → List ℕ) : Signals (List (Row ι K)) K where
  bars rows := (ensureOhlcv argsort rows).length
  signal rows name :=
    let frame := ensureOhlcv argsort rows
    let close := ofValues (frame.map Bar.close)
    let high := ofValues (frame.map Bar.high)
    let low := ofValues (frame.map Bar.low)
    let vol := ofValues (frame.map Bar.volume)
    match name with
    | .rsi => rsiSignal close
    | .macd => macdSignal close
    | .maAlignment => maAlignmentSignal close
    | .bollinger => bollingerSignal sqrt close
    | .volume => volumeSignal vol close
    | .atr => atrSignal high low close

/-- Thirty-five closes that rise by one. -/
example : (rsiSignal (ofValues ((List.range 35).map fun i => (100 + i : ℚ)))) = some (-1, 100) := by
  decide +kernel

end Nivara.Analysis.Technical
