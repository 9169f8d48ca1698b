import Mathlib

/-!
# Time series with gaps

Series over an ordered field and what pandas computes of them: differences, rolling aggregates and
exponentially weighted means. A gap (`NaN`) is `none`.

* `ewmMean` is the recursion with `adjust=False` and `ignore_na=False`: a gap lets the weight of what
  was before it decay.
* `rolling` wants a full window of observations.

Results:

* `ewmMean_scale`, `rolling_scale`, `zip2_scale`: in another unit of the values, each of them gives the
  same series in that unit.
* `last_scale`: and so does the last value.
-/

namespace Nivara.TimeSeries

variable {K : Type} [Field K]

abbrev Series (K : Type) := List (Option K)

/-- A series without gaps. -/
def ofValues (xs : List K) : Series K := xs.map some

/-- The last value, if there is one. -/
def last (s : Series K) : Option K := s.getLast?.join

/-- Two series, value by value. -/
def zip2 (f : K → K → K) (s t : Series K) : Series K := List.zipWith (Option.map₂ f) s t

/-- `shift(1)`. -/
def shift (s : Series K) : Series K := (none :: s).dropLast

/-- `diff()`. -/
def diff (s : Series K) : Series K := zip2 (· - ·) s (shift s)

/-- `-s`. -/
def neg (s : Series K) : Series K := s.map (Option.map (- ·))

/-! ## Means -/

def mean (w : List K) : K := w.sum / w.length

/-- `std(ddof=0)`. -/
def std (sqrt : K → K) (w : List K) : K := sqrt (mean (w.map fun x => (x - mean w) ^ 2))

/-- `rolling(n)` with an aggregate of a full window. -/
def rolling (n : ℕ) (aggregate : List K → K) (s : Series K) : Series K :=
  (List.range s.length).map fun i =>
    let window := ((s.take (i + 1)).drop (i + 1 - n)).reduceOption
    if window.length < n then none else some (aggregate window)

/-- The state of an exponentially weighted mean. -/
structure EwmState (K : Type) where
  /-- The mean so far. -/
  weighted : Option K
  /-- The weight of it. -/
  oldWt : K
  /-- The number of observations. -/
  nobs : ℕ

/-- The next value. -/
def EwmState.step (alpha : K) (s : EwmState K) (cur : Option K) : EwmState K :=
  match s.weighted, cur with
  | some weighted, some x =>
    let oldWt := s.oldWt * (1 - alpha)
    ⟨some ((oldWt * weighted + alpha * x) / (oldWt + alpha)), 1, s.nobs + 1⟩
  | some weighted, none => ⟨some weighted, s.oldWt * (1 - alpha), s.nobs⟩
  | none, some x => ⟨some x, s.oldWt, s.nobs + 1⟩
  | none, none => s

/-- What is put out for a value. -/
def EwmState.output (minPeriods : ℕ) (s : EwmState K) : Option K :=
  if s.nobs < minPeriods then none else s.weighted

/-- The state after each of the values. -/
def ewmStates (alpha : K) : EwmState K → Series K → List (EwmState K)
  | _, [] => []
  | state, cur :: s =>
    let state := state.step alpha cur
    state :: ewmStates alpha state s

/-- `ewm(alpha, adjust=False, min_periods=…).mean()`. -/
def ewmMean (alpha : K) (minPeriods : ℕ) (s : Series K) : Series K :=
  (ewmStates alpha ⟨none, 1, 0⟩ s).map (EwmState.output minPeriods)

/-- `ewm(span, adjust=False).mean()`. -/
def ewmSpanMean (span : ℕ) (s : Series K) : Series K := ewmMean ((2 : ℕ) / ((span + 1 : ℕ) : K)) 1 s

section Clip

variable [LinearOrder K]

/-- `clip(lower=0)`. -/
def clipLower (s : Series K) : Series K := s.map (Option.map (max 0))

/-- `clip(upper=0)`. -/
def clipUpper (s : Series K) : Series K := s.map (Option.map (min 0))

/-- The maximum of two columns, row by row, over what is there. -/
def maxColumns (s t : Series K) : Series K := List.zipWith (Option.merge max) s t

end Clip

/-! ## Another unit -/

/-- The series in another unit of the values. -/
def scale (c : K) (s : Series K) : Series K := s.map (Option.map (c * ·))

variable {c : K}

@[simp] theorem length_scale (s : Series K) : (scale c s).length = s.length := List.length_map ..

theorem ofValues_scale (xs : List K) : ofValues (xs.map (c * ·)) = scale c (ofValues xs) := by
  unfold ofValues scale
  rw [List.map_map, List.map_map]
  rfl

theorem last_scale (s : Series K) : last (scale c s) = (last s).map (c * ·) := by
  unfold last scale
  rw [List.getLast?_map]
  rcases s.getLast? with _ | x <;> rfl

/-- An operation that keeps the unit. -/
theorem zip2_scale {f : K → K → K} (hf : ∀ a b, f (c * a) (c * b) = c * f a b) (s t : Series K) :
    zip2 f (scale c s) (scale c t) = scale c (zip2 f s t) := by
  unfold zip2 scale
  rw [List.zipWith_map, List.map_zipWith]
  congr 1
  funext a b
  cases a with
  | none => rfl
  | some a =>
    cases b with
    | none => rfl
    | some b => exact congrArg some (hf a b)

/-- The difference of two series. -/
theorem sub_scale (s t : Series K) : zip2 (· - ·) (scale c s) (scale c t) = scale c (zip2 (· - ·) s t) :=
  zip2_scale (fun a b => (mul_sub c a b).symm) s t

theorem dropLast_scale (s : Series K) : (scale c s).dropLast = scale c s.dropLast := List.map_dropLast.symm

theorem shift_scale (s : Series K) : shift (scale c s) = scale c (shift s) := by
  unfold shift scale
  rw [List.map_dropLast, List.map_cons]
  rfl

theorem diff_scale (s : Series K) : diff (scale c s) = scale c (diff s) := by
  unfold diff
  rw [shift_scale, sub_scale]

/-- A map of the values that keeps the unit. -/
theorem map_scale {f : K → K} (hf : ∀ a, f (c * a) = c * f a) (s : Series K) :
    (scale c s).map (Option.map f) = scale c (s.map (Option.map f)) := by
  unfold scale
  rw [List.map_map, List.map_map]
  apply List.map_congr_left
  intro a _
  cases a with
  | none => rfl
  | some a => exact congrArg some (hf a)

theorem neg_scale (s : Series K) : neg (scale c s) = scale c (neg s) :=
  map_scale (fun a => (mul_neg c a).symm) s

theorem mean_scale (w : List K) : mean (w.map (c * ·)) = c * mean w := by
  unfold mean
  rw [List.sum_map_mul_left, List.map_id', List.length_map, mul_div_assoc]

/-- A deviation has the unit of the values, when the square root takes it out of the variance. -/
theorem std_scale {sqrt : K → K} (hsqrt : ∀ x, sqrt (c ^ 2 * x) = c * sqrt x) (w : List K) :
    std sqrt (w.map (c * ·)) = c * std sqrt w := by
  unfold std
  rw [← hsqrt]
  congr 1
  have hsquare : (w.map (c * ·)).map (fun x => (x - mean (w.map (c * ·))) ^ 2) =
      (w.map fun x => (x - mean w) ^ 2).map (c ^ 2 * ·) := by
    rw [mean_scale, List.map_map, List.map_map]
    apply List.map_congr_left
    intro x _
    show (c * x - c * mean w) ^ 2 = c ^ 2 * (x - mean w) ^ 2
    ring
  rw [hsquare, mean_scale]

theorem reduceOption_scale (s : Series K) : (scale c s).reduceOption = s.reduceOption.map (c * ·) := by
  unfold scale
  exact List.reduceOption_map ..

theorem rolling_scale {aggregate : List K → K} (h : ∀ w, aggregate (w.map (c * ·)) = c * aggregate w)
    (n : ℕ) (s : Series K) : rolling n aggregate (scale c s) = scale c (rolling n aggregate s) := by
  unfold rolling
  rw [length_scale]
  conv_rhs => rw [scale, List.map_map]
  apply List.map_congr_left
  intro i _
  have hwindow : (((scale c s).take (i + 1)).drop (i + 1 - n)).reduceOption =
      ((s.take (i + 1)).drop (i + 1 - n)).reduceOption.map (c * ·) := by
    rw [← reduceOption_scale]
    unfold scale
    rw [List.map_drop, List.map_take]
  dsimp only [Function.comp_apply]
  rw [hwindow, List.length_map]
  split_ifs
  · rfl
  · exact congrArg some (h _)

/-- A state in another unit. -/
def EwmState.scale (c : K) (s : EwmState K) : EwmState K := { s with weighted := s.weighted.map (c * ·) }

theorem EwmState.step_scale (alpha : K) (s : EwmState K) (cur : Option K) :
    (s.scale c).step alpha (cur.map (c * ·)) = (s.step alpha cur).scale c := by
  obtain ⟨weighted, oldWt, nobs⟩ := s
  cases weighted with
  | none => cases cur <;> rfl
  | some weighted =>
    cases cur with
    | none => rfl
    | some x =>
      have hmean : (oldWt * (1 - alpha) * (c * weighted) + alpha * (c * x)) /
          (oldWt * (1 - alpha) + alpha) =
            c * ((oldWt * (1 - alpha) * weighted + alpha * x) / (oldWt * (1 - alpha) + alpha)) := by ring
      exact congrArg (fun y => EwmState.mk (some y) 1 (nobs + 1)) hmean

theorem EwmState.output_scale (minPeriods : ℕ) (s : EwmState K) :
    (s.scale c).output minPeriods = (s.output minPeriods).map (c * ·) := by
  unfold EwmState.output
  show (if s.nobs < minPeriods then none else s.weighted.map (c * ·)) = _
  split_ifs <;> rfl

/-- The states of a run, in another unit. -/
theorem ewmStates_scale (alpha : K) (state : EwmState K) (s : Series K) :
    ewmStates alpha (state.scale c) (scale c s) = (ewmStates alpha state s).map (EwmState.scale c) := by
  induction s generalizing state with
  | nil => rfl
  | cons cur s ih =>
    show (state.scale c).step alpha (cur.map (c * ·)) ::
      ewmStates alpha ((state.scale c).step alpha (cur.map (c * ·))) (scale c s) = _
    rw [EwmState.step_scale, ih]
    rfl

theorem ewmMean_scale (alpha : K) (minPeriods : ℕ) (s : Series K) :
    ewmMean alpha minPeriods (scale c s) = scale c (ewmMean alpha minPeriods s) := by
  have hstates : ewmStates alpha ⟨none, 1, 0⟩ (scale c s) = _ := ewmStates_scale alpha ⟨none, 1, 0⟩ s
  unfold ewmMean
  rw [hstates, scale, List.map_map, List.map_map]
  apply List.map_congr_left
  intro state _
  exact EwmState.output_scale minPeriods state

theorem ewmSpanMean_scale (span : ℕ) (s : Series K) :
    ewmSpanMean span (scale c s) = scale c (ewmSpanMean span s) := ewmMean_scale ..

section Clip

variable [LinearOrder K] [IsStrictOrderedRing K]

theorem clipLower_scale (hc : 0 ≤ c) (s : Series K) : clipLower (scale c s) = scale c (clipLower s) := by
  refine map_scale (fun a => ?_) s
  rw [mul_max_of_nonneg _ _ hc, mul_zero]

theorem clipUpper_scale (hc : 0 ≤ c) (s : Series K) : clipUpper (scale c s) = scale c (clipUpper s) := by
  refine map_scale (fun a => ?_) s
  rw [mul_min_of_nonneg _ _ hc, mul_zero]

theorem maxColumns_scale (hc : 0 ≤ c) (s t : Series K) :
    maxColumns (scale c s) (scale c t) = scale c (maxColumns s t) := by
  unfold maxColumns scale
  rw [List.zipWith_map, List.map_zipWith]
  congr 1
  funext a b
  cases a with
  | none => cases b <;> rfl
  | some a =>
    cases b with
    | none => rfl
    | some b => exact congrArg some (mul_max_of_nonneg a b hc).symm

end Clip

end Nivara.TimeSeries
