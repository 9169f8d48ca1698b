import Nivara.Analysis.RiskMeter
import Nivara.Lib.OrderStatistics

/-!
# Value at risk

`compute_var` (`analysis/risk.py`, lines 193–220): the losses at the fifth and the first percentile of
the latest returns.

* Arithmetic is exact, and a return is a finite double.
* Of a series of returns only the values are read.

Results:

* `percentile_mono`, `percentile_le_percentile`, `percentile_of_perm`: the percentile in its rank, in
  the values and in their order.
* `computeVar_historical`: what the two losses depend on, and between which bounds they lie.
-/

namespace Nivara.Analysis

/-! ## Percentiles -/

/-- A percentile is the value at a rank of the sorted values. -/
theorem percentile_eq_interpolate (q : ℚ) (xs : List ℚ) :
    percentile q xs =
      OrderStatistics.interpolate (xs.insertionSort (· ≤ ·)) (q / 100 * (xs.length - 1)) := rfl

theorem percentile_of_perm {xs ys : List ℚ} (h : xs.Perm ys) (q : ℚ) :
    percentile q xs = percentile q ys := by
  rw [percentile_eq_interpolate, percentile_eq_interpolate, OrderStatistics.sort_eq_of_perm h, h.length_eq]

/-- Lower values have a lower percentile. -/
theorem percentile_le_percentile {xs ys : List ℚ} (h : List.Forall₂ (· ≤ ·) xs ys) (q : ℚ) :
    percentile q xs ≤ percentile q ys := by
  rw [percentile_eq_interpolate, percentile_eq_interpolate, h.length_eq]
  exact OrderStatistics.interpolate_le_interpolate (OrderStatistics.insertionSort_le_insertionSort h) _

/-- A higher percentile is a higher value. -/
theorem percentile_mono {q q' : ℚ} {xs : List ℚ} (h0 : 0 ≤ q) (hle : q ≤ q') (h100 : q' ≤ 100)
    (hxs : xs ≠ []) :
    percentile q xs ≤ percentile q' xs := by
  have hlen : (0 : ℚ) ≤ xs.length - 1 := by
    have hpos : 1 ≤ xs.length := List.length_pos_iff.mpr hxs
    exact sub_nonneg.mpr (by exact_mod_cast hpos)
  rw [percentile_eq_interpolate, percentile_eq_interpolate]
  apply OrderStatistics.interpolate_mono (List.pairwise_insertionSort _ _)
  · positivity
  · exact mul_le_mul_of_nonneg_right (by linarith) hlen
  · rw [List.length_insertionSort]
    calc
      q' / 100 * (xs.length - 1) ≤ 1 * ((xs.length : ℚ) - 1) :=
        mul_le_mul_of_nonneg_right (by linarith) hlen
      _ = xs.length - 1 := one_mul _

/-- The percentile 0 is the smallest value. -/
theorem percentile_zero {xs : List ℚ} (hxs : xs ≠ []) :
    percentile 0 xs ∈ xs ∧ ∀ x ∈ xs, percentile 0 xs ≤ x := by
  have hsorted : (xs.insertionSort (· ≤ ·)).Pairwise (· ≤ ·) := List.pairwise_insertionSort _ _
  have hmem : ∀ x, x ∈ xs.insertionSort (· ≤ ·) ↔ x ∈ xs := fun x => List.mem_insertionSort _
  have hzero : percentile 0 xs = (xs.insertionSort (· ≤ ·)).getD 0 0 := by
    rw [percentile_eq_interpolate, zero_div, zero_mul, OrderStatistics.interpolate_zero]
  rw [hzero]
  cases hs : xs.insertionSort (· ≤ ·) with
  | nil =>
    exact absurd ((List.length_insertionSort _ xs).symm.trans (congrArg List.length hs)) (by simpa using hxs)
  | cons smallest rest =>
    rw [hs] at hsorted hmem
    refine ⟨(hmem smallest).mp List.mem_cons_self, fun x hx => ?_⟩
    rcases List.mem_cons.mp ((hmem x).mpr hx) with rfl | hrest
    · exact le_rfl
    · exact (List.pairwise_cons.mp hsorted).1 x hrest

namespace Risk

/-! ## Model -/

/-- `_MIN_RETURNS_FOR_VAR`. -/
def minReturnsForVar : ℕ := 30

/-- The status of a `VaR`. -/
inductive VarStatus
  | empty
  | insufficientData
  | ok
  deriving DecidableEq, Repr

/-- `VaR`. -/
structure VaR where
  status : VarStatus
  var95 : Option ℚ
  var99 : Option ℚ
  lookbackDays : ℕ
  deriving DecidableEq, Repr

/-- `compute_var`. -/
def computeVar (returns : List ℚ) (lookback : ℕ) : VaR :=
  if returns = [] then ⟨.empty, none, none, 0⟩
  else
    let windowed := returns.rtake lookback
    let n := windowed.length
    if n < minReturnsForVar then ⟨.insufficientData, none, none, n⟩
    else
      let pct5 := percentile 5 windowed
      let pct1 := percentile 1 windowed
      ⟨.ok, some (max 0 (-pct5)), some (max 0 (-pct1)), n⟩

/-! ## The window -/

/-- The losses of a window. -/
def lossAt (q : ℚ) (window : List ℚ) : ℚ := max 0 (-percentile q window)

theorem length_rtake (returns : List ℚ) (lookback : ℕ) :
    (returns.rtake lookback).length = min lookback returns.length := by
  unfold List.rtake
  rw [List.length_drop]
  omega

/-- With enough returns the result is that of the window. -/
theorem computeVar_of_window {returns : List ℚ} {lookback : ℕ}
    (h : minReturnsForVar ≤ (returns.rtake lookback).length) :
    computeVar returns lookback =
      ⟨.ok, some (lossAt 5 (returns.rtake lookback)), some (lossAt 1 (returns.rtake lookback)),
        (returns.rtake lookback).length⟩ := by
  have hne : returns ≠ [] := by
    rintro rfl
    rw [List.rtake_nil] at h
    exact absurd h (by decide)
  unfold computeVar
  rw [if_neg hne]
  dsimp only
  rw [if_neg (not_lt.mpr h)]
  rfl

/-- Lower returns have higher losses. -/
theorem lossAt_anti {window window' : List ℚ} (h : List.Forall₂ (· ≤ ·) window' window) (q : ℚ) :
    lossAt q window ≤ lossAt q window' :=
  max_le_max le_rfl (neg_le_neg (percentile_le_percentile h q))

/-! ## Historical simulation -/

/-- What the value at risk of `returns` is: it lies between 0 and the largest loss of the window, is
    the same for any series that ends in a window of the same returns, and not lower for one that
    ends in a window of lower returns. -/
structure Historical (returns : List ℚ) (lookback : ℕ) (var95 var99 : ℚ) : Prop where
  result : computeVar returns lookback =
    ⟨.ok, some var95, some var99, (returns.rtake lookback).length⟩
  nonneg : 0 ≤ var95
  ordered : var95 ≤ var99
  le_worst : ∃ smallest ∈ returns.rtake lookback,
    (∀ r ∈ returns.rtake lookback, smallest ≤ r) ∧ var99 ≤ max 0 (-smallest)
  same : ∀ returns', (returns'.rtake lookback).Perm (returns.rtake lookback) →
    computeVar returns' lookback = computeVar returns lookback
  lowered : ∀ returns', List.Forall₂ (· ≤ ·) (returns'.rtake lookback) (returns.rtake lookback) →
    ∃ var95' var99',
      computeVar returns' lookback =
        ⟨.ok, some var95', some var99', (returns.rtake lookback).length⟩ ∧
      var95 ≤ var95' ∧ var99 ≤ var99'

/-- For every look-back of at least 30 days and at least 30 returns. -/
theorem computeVar_historical (returns : List ℚ) (lookback : ℕ) (hlookback : 30 ≤ lookback)
    (hreturns : 30 ≤ returns.length) : ∃ var95 var99, Historical returns lookback var95 var99 := by
  have hwindow : minReturnsForVar ≤ (returns.rtake lookback).length := by
    rw [length_rtake]
    exact le_min hlookback hreturns
  have hne : returns.rtake lookback ≠ [] := List.length_pos_iff.mp (lt_of_lt_of_le (by decide) hwindow)
  obtain ⟨hmem, hsmallest⟩ := percentile_zero hne
  refine ⟨lossAt 5 (returns.rtake lookback), lossAt 1 (returns.rtake lookback), ?_⟩
  constructor
  · exact computeVar_of_window hwindow
  · exact le_max_left _ _
  · exact max_le_max le_rfl (neg_le_neg (percentile_mono (by norm_num) (by norm_num) (by norm_num) hne))
  · refine ⟨_, hmem, hsmallest, max_le_max le_rfl (neg_le_neg ?_)⟩
    exact percentile_mono le_rfl (by norm_num) (by norm_num) hne
  · intro returns' hperm
    have hlength := hperm.length_eq
    rw [computeVar_of_window (hlength ▸ hwindow), computeVar_of_window hwindow, hlength]
    unfold lossAt
    rw [percentile_of_perm hperm, percentile_of_perm hperm]
  · intro returns' hle
    have hlength := hle.length_eq
    refine ⟨_, _, ?_, lossAt_anti hle 5, lossAt_anti hle 1⟩
    rw [computeVar_of_window (hlength ▸ hwindow), hlength]

/-- Thirty returns, of which one is a loss of a tenth. -/
theorem computeVar_historical_sample :
    ∃ var95 var99, Historical (-(1 / 10) :: List.replicate 29 (1 / 100)) 252 var95 var99 :=
  computeVar_historical _ 252 (by decide) (by decide)

end Risk

end Nivara.Analysis
