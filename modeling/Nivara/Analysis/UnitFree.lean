import Nivara.Analysis.TechnicalSignals

/-!
# Technical signals have no unit

Two runs of `analyze_technical` in exact arithmetic: on a frame, and on the same frame with all prices
and all volumes in another unit, as a split adjustment of the whole window leaves it.

Results:

* `rsiSignal_scale`, …, `atrSignal_scale`: each of the six signals is the same in both runs.
* `compositeOf_congr`: the composite depends on the signals and the flags alone.
* `analyzeTechnical_scale`: so the two analyses agree.
-/

namespace Nivara.Analysis.Technical

open TimeSeries

variable {ι K : Type}

/-! ## What is to hold -/

/-- The row in other units. -/
def Row.scale [Mul K] (c d : K) (r : Row ι K) : Row ι K where
  index := r.index
  open_ := r.open_.map (c * ·)
  high := r.high.map (c * ·)
  low := r.low.map (c * ·)
  close := r.close.map (c * ·)
  volume := r.volume.map (d * ·)

/-- The two analyses have the same signals, flags, composite and action. -/
structure SameVerdict (a a' : TechnicalAnalysis K) : Prop where
  value : ∀ k, (a'.result k).value = (a.result k).value
  insufficientData : ∀ k, (a'.result k).insufficientData = (a.result k).insufficientData
  compositeScore : a'.compositeScore = a.compositeScore
  action : a'.action = a.action
  barsAnalyzed : a'.barsAnalyzed = a.barsAnalyzed
  insufficientDataFlags : a'.insufficientDataFlags = a.insufficientDataFlags

/-! ## The frame -/

section Frame

variable [Field K] {c d : K}

/-- The bar in other units. -/
def Bar.scale (c d : K) (b : Bar K) : Bar K :=
  ⟨c * b.open_, c * b.high, c * b.low, c * b.close, d * b.volume⟩

theorem Row.bar_scale (r : Row ι K) : (r.scale c d).bar = r.bar.map (Bar.scale c d) := by
  obtain ⟨index, open_, high, low, close, volume⟩ := r
  cases open_ <;> cases high <;> cases low <;> cases close <;> cases volume <;> rfl

/-- The rows are sorted by their index and lose those with gaps, in every unit. -/
theorem ensureOhlcv_scale (argsort : List ι → List ℕ) (rows : List (Row ι K)) :
    ensureOhlcv argsort (rows.map (Row.scale c d)) = (ensureOhlcv argsort rows).map (Bar.scale c d) := by
  have hindex : (rows.map (Row.scale c d)).map Row.index = rows.map Row.index := by
    rw [List.map_map]
    rfl
  have hrows : ∀ i, (rows.map (Row.scale c d))[i]? = rows[i]?.map (Row.scale c d) := fun i =>
    List.getElem?_map
  unfold ensureOhlcv
  simp only [hindex, hrows]
  rw [List.map_filterMap, List.filterMap_filterMap, List.filterMap_filterMap]
  apply List.filterMap_congr
  intro i _
  rcases rows[i]? with _ | r
  · rfl
  · exact r.bar_scale

/-- A column of the frame is in the unit of its values. -/
theorem column_scale {e : K} {column : Bar K → K} (h : ∀ b : Bar K, column (b.scale c d) = e * column b)
    (frame : List (Bar K)) :
    ofValues ((frame.map (Bar.scale c d)).map column) = scale e (ofValues (frame.map column)) := by
  rw [← ofValues_scale, List.map_map, List.map_map]
  exact congrArg ofValues (List.map_congr_left fun b _ => h b)

end Frame

/-! ## The signals -/

section Signals

/-- What is bound to a value in another unit. -/
theorem bind_scale {β : Type} [Mul K] (c : K) (x : Option K) (f : K → Option β) :
    ((x.map (c * ·)).bind f) = x.bind fun a => f (c * a) := by
  cases x <;> rfl

/-- Signals of two readings are the same when they are so for each value of the readings. -/
theorem map_fst_bind₂ {x y : Option K} {f g : K → K → Option (K × K)}
    (h : ∀ a b, (f a b).map Prod.fst = (g a b).map Prod.fst) :
    (x.bind fun a => y.bind fun b => f a b).map Prod.fst =
      (x.bind fun a => y.bind fun b => g a b).map Prod.fst := by
  rcases x with _ | a
  · rfl
  · rcases y with _ | b
    · rfl
    · exact h a b

variable [Field K] {c d : K}

/-- A ratio has no unit. -/
theorem ratio_scale (hc : c ≠ 0) (a b : K) : c * a / (c * b) = a / b := mul_div_mul_left a b hc

variable [LinearOrder K]

theorem rsiReading_scale (hc : c ≠ 0) (gain loss : K) :
    rsiReading (c * gain) (c * loss) = rsiReading gain loss := by
  unfold rsiReading
  simp only [mul_eq_zero, hc, false_or, ratio_scale hc]

theorem bollingerSignal_scale (hc : c ≠ 0) {sqrt : K → K} (hsqrt : ∀ x, sqrt (c ^ 2 * x) = c * sqrt x)
    (close : Series K) : bollingerSignal sqrt (scale c close) = bollingerSignal sqrt close := by
  have hupper : ∀ s t : Series K, zip2 (fun m s => m + 2 * s) (scale c s) (scale c t) =
      scale c (zip2 (fun m s => m + 2 * s) s t) := zip2_scale fun a b => by ring
  have hlower : ∀ s t : Series K, zip2 (fun m s => m - 2 * s) (scale c s) (scale c t) =
      scale c (zip2 (fun m s => m - 2 * s) s t) := zip2_scale fun a b => by ring
  unfold bollingerSignal
  simp only [rolling_scale mean_scale, rolling_scale (std_scale hsqrt), hupper, hlower, last_scale,
    Option.bind_eq_bind, bind_scale, mul_right_inj' hc, ← mul_sub, ratio_scale hc]

variable [IsStrictOrderedRing K]

theorem rsiSignal_scale (hc : 0 < c) (close : Series K) : rsiSignal (scale c close) = rsiSignal close := by
  unfold rsiSignal
  simp only [diff_scale, clipLower_scale hc.le, clipUpper_scale hc.le, neg_scale, ewmMean_scale, last_scale,
    Option.bind_eq_bind, bind_scale, rsiReading_scale hc.ne']

theorem macdSignal_scale (hc : 0 < c) (close : Series K) :
    (macdSignal (scale c close)).map Prod.fst = (macdSignal close).map Prod.fst := by
  unfold macdSignal
  simp only [ewmSpanMean_scale, sub_scale, last_scale, Option.bind_eq_bind, bind_scale]
  refine map_fst_bind₂ fun latestHist latestClose => ?_
  simp only [mul_eq_zero, hc.ne', false_or]
  split_ifs
  · rfl
  · rw [mul_assoc, ratio_scale hc.ne']
    rfl

theorem greater_scale (hc : 0 < c) (a b : Option K) :
    greater (a.map (c * ·)) (b.map (c * ·)) = greater a b := by
  cases a with
  | none => rfl
  | some a =>
    cases b with
    | none => rfl
    | some b => exact decide_eq_decide.mpr (mul_lt_mul_iff_right₀ hc)

theorem maAlignmentSignal_scale (hc : 0 < c) (close : Series K) :
    (maAlignmentSignal (scale c close)).map Prod.fst = (maAlignmentSignal close).map Prod.fst := by
  unfold maAlignmentSignal
  simp only [rolling_scale mean_scale, last_scale, greater_scale hc, Option.bind_eq_bind, bind_scale,
    Option.map_bind]
  rfl

theorem volumeSignal_scale (hc : 0 < c) (hd : 0 < d) (volume close : Series K) :
    volumeSignal (scale d volume) (scale c close) = volumeSignal volume close := by
  have hnonpos : ∀ a : K, d * a ≤ 0 ↔ a ≤ 0 := fun a => smul_nonpos_iff_nonpos_of_pos_left hd
  have hneg : ∀ a : K, c * a < 0 ↔ a < 0 := by
    intro a
    rw [← neg_pos, ← mul_neg, mul_pos_iff_of_pos_left hc, neg_pos]
  unfold volumeSignal
  simp only [rolling_scale mean_scale, dropLast_scale, last_scale, Option.bind_eq_bind, bind_scale,
    hnonpos, hneg, ratio_scale hd.ne', ← mul_sub, mul_pos_iff_of_pos_left hc]

theorem trueRange_scale (hc : 0 < c) (high low close : Series K) :
    trueRange (scale c high) (scale c low) (scale c close) = scale c (trueRange high low close) := by
  have hdistance : ∀ s t : Series K, zip2 (fun a b => |a - b|) (scale c s) (scale c t) =
      scale c (zip2 (fun a b => |a - b|) s t) := by
    refine zip2_scale fun a b => ?_
    rw [← mul_sub, abs_mul, abs_of_pos hc]
  unfold trueRange
  simp only [shift_scale, hdistance, maxColumns_scale hc.le]

theorem atrSignal_scale (hc : 0 < c) (high low close : Series K) :
    (atrSignal (scale c high) (scale c low) (scale c close)).map Prod.fst =
      (atrSignal high low close).map Prod.fst := by
  unfold atrSignal
  simp only [trueRange_scale hc, ewmMean_scale, last_scale, Option.bind_eq_bind, bind_scale]
  refine map_fst_bind₂ fun latestAtr latestClose => ?_
  simp only [mul_eq_zero, hc.ne', false_or]
  by_cases hzero : latestClose = 0
  · rw [if_pos hzero, if_pos hzero]
    rfl
  · rw [if_neg hzero, if_neg hzero, ratio_scale hc.ne']

/-- Each of the six signals is the same in other units. -/
theorem ohlcvSignals_scale (hc : 0 < c) (hd : 0 < d) {sqrt : K → K}
    (hsqrt : ∀ x, sqrt (c ^ 2 * x) = c * sqrt x) (argsort : List ι → List ℕ) (rows : List (Row ι K))
    (k : Indicator) :
    ((ohlcvSignals sqrt argsort).signal (rows.map (Row.scale c d)) k).map Prod.fst =
      ((ohlcvSignals sqrt argsort).signal rows k).map Prod.fst := by
  let frame := ensureOhlcv argsort rows
  let scaled := frame.map (Bar.scale c d)
  have hclose : ofValues (scaled.map Bar.close) = _ := column_scale (fun _ => rfl) frame
  have hhigh : ofValues (scaled.map Bar.high) = _ := column_scale (fun _ => rfl) frame
  have hlow : ofValues (scaled.map Bar.low) = _ := column_scale (fun _ => rfl) frame
  have hvol : ofValues (scaled.map Bar.volume) = _ := column_scale (fun _ => rfl) frame
  unfold ohlcvSignals
  dsimp only
  rw [ensureOhlcv_scale, hclose, hhigh, hlow, hvol]
  cases k with
  | rsi => exact congrArg _ (rsiSignal_scale hc _)
  | macd => exact macdSignal_scale hc _
  | maAlignment => exact maAlignmentSignal_scale hc _
  | bollinger => exact congrArg _ (bollingerSignal_scale hc.ne' hsqrt _)
  | volume => exact congrArg _ (volumeSignal_scale hc hd _ _)
  | atr => exact atrSignal_scale hc _ _ _

end Signals

/-! ## The analysis -/

/-- The same value and the same flag. -/
def IndicatorResult.SameSignal {F : Type} (r r' : IndicatorResult F) : Prop :=
  r'.value = r.value ∧ r'.insufficientData = r.insufficientData

/-- The composite depends on the signals and the flags alone. -/
theorem compositeOf_congr {F : Type} (ar : Arithmetic F) {f f' : Indicator → IndicatorResult F}
    (h : ∀ k, (f k).SameSignal (f' k)) (ks : List Indicator) :
    compositeOf ar (ks.map fun k => (k, f' k)) = compositeOf ar (ks.map fun k => (k, f k)) := by
  have hscored : scored (ks.map fun k => (k, f' k)) = scored (ks.map fun k => (k, f k)) := by
    unfold scored
    rw [List.filterMap_map, List.filterMap_map]
    apply List.filterMap_congr
    intro k _
    obtain ⟨hvalue, hflag⟩ := h k
    show (if (f' k).insufficientData then none else (f' k).value.map _) =
      if (f k).insufficientData then none else (f k).value.map _
    rw [hvalue, hflag]
  unfold compositeOf
  rw [hscored]

theorem flagged_congr {F : Type} {f f' : Indicator → IndicatorResult F}
    (h : ∀ k, (f k).SameSignal (f' k)) (ks : List Indicator) :
    flagged (ks.map fun k => (k, f' k)) = flagged (ks.map fun k => (k, f k)) := by
  rw [flagged_map, flagged_map]
  exact List.filter_congr fun k _ => by rw [(h k).2]

section

variable [Field K] [LinearOrder K] {Frame : Type}

/-- In exact arithmetic, an indicator has the value and the flag that its signal gives it. -/
theorem calcIndicator_congr {signals : Signals Frame K} {frame frame' : Frame}
    (hbars : signals.bars frame' = signals.bars frame) {k : Indicator}
    (hsignal : (signals.signal frame' k).map Prod.fst = (signals.signal frame k).map Prod.fst) :
    (calcIndicator (.exact K) signals frame k).SameSignal (calcIndicator (.exact K) signals frame' k) := by
  unfold calcIndicator
  rw [hbars]
  split_ifs
  · exact ⟨rfl, rfl⟩
  · rcases h : signals.signal frame k with _ | ⟨signal, raw⟩ <;>
      rcases h' : signals.signal frame' k with _ | ⟨signal', raw'⟩ <;> rw [h, h'] at hsignal
    · exact ⟨rfl, rfl⟩
    · cases hsignal
    · cases hsignal
    · exact ⟨hsignal, rfl⟩

/-- Two runs on frames of one length whose signals agree. -/
theorem sameVerdict_of_signals {signals : Signals Frame K} {frame frame' : Frame}
    (hbars : signals.bars frame' = signals.bars frame)
    (hsignal : ∀ k, (signals.signal frame' k).map Prod.fst = (signals.signal frame k).map Prod.fst) :
    SameVerdict (analyzeTechnical (.exact K) signals frame)
      (analyzeTechnical (.exact K) signals frame') := by
  have hsame : ∀ k, (calcIndicator (.exact K) signals frame k).SameSignal
      (calcIndicator (.exact K) signals frame' k) := fun k => calcIndicator_congr hbars (hsignal k)
  have hcomposite := compositeOf_congr (.exact K) hsame indicators
  have hflags := flagged_congr hsame indicators
  unfold analyzeTechnical results
  rw [hbars]
  split_ifs
  · exact ⟨fun _ => rfl, fun _ => rfl, rfl, rfl, rfl, rfl⟩
  · dsimp only
    rw [hcomposite, hflags]
    exact ⟨fun k => (hsame k).1, fun k => (hsame k).2, rfl, rfl, rfl, rfl⟩

end

/-- In real arithmetic, other units of the prices and of the volumes leave the signals, the flags, the
    composite and the action as they are. -/
theorem analyzeTechnical_scale (argsort : List ι → List ℕ) (rows : List (Row ι ℝ)) (c d : ℝ) (hc : 0 < c)
    (hd : 0 < d) :
    SameVerdict (analyzeTechnical (.exact ℝ) (ohlcvSignals Real.sqrt argsort) rows)
      (analyzeTechnical (.exact ℝ) (ohlcvSignals Real.sqrt argsort) (rows.map (Row.scale c d))) := by
  have hsqrt : ∀ x, Real.sqrt (c ^ 2 * x) = c * Real.sqrt x := by
    intro x
    rw [Real.sqrt_mul (sq_nonneg c), Real.sqrt_sq hc.le]
  refine sameVerdict_of_signals ?_ (ohlcvSignals_scale hc hd hsqrt argsort rows)
  show (ensureOhlcv argsort (rows.map (Row.scale c d))).length = (ensureOhlcv argsort rows).length
  rw [ensureOhlcv_scale, List.length_map]

/-- A year of bars, as they are and after a split of one for two. -/
noncomputable def sampleRows : List (Row ℕ ℝ) :=
  let number : ℕ → Option ℝ := fun n => some n
  (List.range 252).map fun i =>
    ⟨i, number (100 + i), number (102 + i), number (99 + i), number (101 + i), number 1000⟩

theorem analyzeTechnical_scale_sample :
    let signals : Signals (List (Row ℕ ℝ)) ℝ := ohlcvSignals Real.sqrt fun index => List.range index.length
    SameVerdict (analyzeTechnical (.exact ℝ) signals sampleRows)
      (analyzeTechnical (.exact ℝ) signals (sampleRows.map (Row.scale (1 / 2) 2))) :=
  analyzeTechnical_scale (fun index => List.range index.length) sampleRows (1 / 2) 2 (by norm_num)
    (by norm_num)

end Nivara.Analysis.Technical
