import Nivara.Analysis.RiskMeter
import Nivara.Lib.Drawdown
import Nivara.Lib.Frames

/-!
# The drawdown of a portfolio

The portfolio value of `compute_drawdown` (`analysis/risk_meter.py`, lines 218–275) on close series with
different calendars, and its drawdown before it is rounded.

* Arithmetic is exact, and the union of the indexes is sorted.

Results:

* `totalSeries_eq`: the portfolio value at a time is the sum of the newest values up to then.
* `portfolioDrawdown_le`: its drawdown does not exceed that of every holding.
* `portfolioDrawdown_scale_weights`, `portfolioDrawdown_scale_prices`: it has no unit.
* `computeDrawdown_bounds`: the three together.
-/

namespace Nivara.Analysis

open Drawdown (drawdown drawdown_nonneg drawdown_le_one drawdown_sum_le mul_le_last)
open AsOf (distinct_of_sorted)
open Frames (valueAt valueAt_mem valueAt_last forwardFill_eq transpose_map)
open Herfindahl (magnitude)

/-! ## Model -/

/-- A close series of `load_close_series_bulk`: not empty, of positive closes, in the order of time. -/
structure CloseSeries (s : Series) : Prop where
  nonempty : s ≠ []
  positive : ∀ e ∈ s, 0 < e.2
  ascending : s.Pairwise (·.1 < ·.1)

/-- `frames`: the series of the weighted holdings, rebased and weighted. -/
def frames (weights : Dict String ℚ) (priceSeries : Dict String Series) : List Series :=
  priceSeries.items.filterMap fun e =>
    let w := |(weights.get e.1).getD 0|
    if w ≤ 0 then none else normalised e.2 (w / magnitude weights.values)

/-- `portfolio_value`. -/
def portfolioValue (weights : Dict String ℚ) (priceSeries : Dict String Series) : List ℚ :=
  (totalSeries (frames weights priceSeries)).map Prod.snd

/-- `dd`, where there is one. -/
def portfolioDrawdown (weights : Dict String ℚ) (priceSeries : Dict String Series) : Option ℚ :=
  if priceSeries.items = [] ∨ magnitude weights.values ≤ 0 then none
  else if portfolioValue weights priceSeries = [] then none
  else some (drawdown (portfolioValue weights priceSeries))

/-- The score shows the drawdown. -/
theorem computeDrawdown_score (weights : Dict String ℚ) (priceSeries : Dict String Series) :
    (computeDrawdown weights priceSeries).score =
      (portfolioDrawdown weights priceSeries).map fun dd => roundTo 1 (min 1 (dd / (40 / 100)) * 100) := by
  unfold computeDrawdown portfolioDrawdown portfolioValue frames
  dsimp only
  split_ifs with hempty hvalue
  · rfl
  · rw [hvalue]
    rfl
  · split
    case h_1 heq => exact absurd heq hvalue
    case h_2 first values heq =>
      rw [heq]
      rfl

/-! ## The portfolio value -/

variable {weights : Dict String ℚ} {priceSeries : Dict String Series} {series : List Series} {s : Series}

theorem mem_unionIndex {t : Portfolio.Instant} :
    t ∈ unionIndex series ↔ ∃ s ∈ series, ∃ e ∈ s, e.1 = t := by
  unfold unionIndex
  rw [List.mem_insertionSort, List.mem_dedup, List.mem_flatMap]
  simp only [List.mem_map]

theorem unionIndex_pairwise (series : List Series) : (unionIndex series).Pairwise (· < ·) := by
  have hle := List.pairwise_insertionSort (· ≤ ·) (series.flatMap fun s => s.map Prod.fst).dedup
  have hnodup := (List.perm_insertionSort (· ≤ ·) _).nodup_iff.mpr
    (List.nodup_dedup (series.flatMap fun s => s.map Prod.fst))
  exact (hle.and hnodup).imp fun h => lt_of_le_of_ne h.1 h.2

/-- The total at a time is the sum of the newest values up to then. -/
theorem totalSeries_eq (hne : series ≠ []) (hseries : ∀ s ∈ series, s.Pairwise (·.1 < ·.1)) :
    (totalSeries series).map Prod.snd =
      (unionIndex series).map fun t => (series.map fun s => (valueAt s t).getD 0).sum := by
  have hcolumn : ∀ s ∈ series, ffill (reindex (unionIndex series) s) =
      (unionIndex series).map (valueAt s) :=
    fun s hs => forwardFill_eq (distinct_of_sorted (hseries s hs)) (unionIndex_pairwise series)
      fun e he => mem_unionIndex.mpr ⟨s, hs, e, he, rfl⟩
  have hrows : rows (series.map fun s => ffill (reindex (unionIndex series) s)) =
      (unionIndex series).map fun t => series.map fun s => valueAt s t := by
    rw [List.map_congr_left hcolumn]
    exact transpose_map _ _ hne
  unfold totalSeries
  dsimp only
  rw [hrows, List.map_map, List.map_snd_zip (by simp)]
  exact List.map_congr_left fun t _ => congrArg List.sum List.map_map

/-! ## Frames -/

/-- A rebased close series is the series in another unit. -/
theorem exists_normalised (h : CloseSeries s) {weight : ℚ} (hweight : 0 < weight) :
    ∃ c : ℚ, 0 < c ∧ normalised s weight = some (s.map fun e => (e.1, e.2 * c)) := by
  cases s with
  | nil => exact absurd rfl h.nonempty
  | cons e s =>
    obtain ⟨t, base⟩ := e
    have hbase : 0 < base := h.positive _ List.mem_cons_self
    refine ⟨weight / base, div_pos hweight hbase, (if_neg hbase.not_ge).trans (congrArg some ?_)⟩
    refine List.map_congr_left fun x _ => Prod.ext rfl ?_
    exact (div_mul_eq_mul_div x.2 base weight).trans (mul_div_assoc x.2 weight base)

/-- Prices in another unit are rebased to the same series. -/
theorem normalised_scale {c : ℚ} (hc : 0 < c) (s : Series) (weight : ℚ) :
    normalised (s.map fun e => (e.1, c * e.2)) weight = normalised s weight := by
  cases s with
  | nil => rfl
  | cons e s =>
    have hbase : c * e.2 ≤ 0 ↔ e.2 ≤ 0 := smul_nonpos_iff_nonpos_of_pos_left hc
    unfold normalised
    rw [List.map_cons]
    dsimp only
    refine if_congr hbase rfl (congrArg some ?_)
    change ((e :: s).map fun e => (e.1, c * e.2)).map (fun x => (x.1, x.2 / (c * e.2) * weight)) = _
    rw [List.map_map]
    refine List.map_congr_left fun x _ => Prod.ext rfl ?_
    exact congrArg (· * weight) (mul_div_mul_left x.2 e.2 hc.ne')

/-- The portfolio of the bound: nonnegative weights, one of them positive on a series. -/
structure Holdings (weights : Dict String ℚ) (priceSeries : Dict String Series) : Prop where
  series : ∀ e ∈ priceSeries.items, CloseSeries e.2
  nonneg : ∀ w ∈ weights.values, 0 ≤ w
  held : ∃ e ∈ priceSeries.items, 0 < (weights.get e.1).getD 0

theorem get_nonneg (h : Holdings weights priceSeries) (symbol : String) :
    0 ≤ (weights.get symbol).getD 0 := by
  cases hget : weights.get symbol with
  | none => exact le_rfl
  | some w => exact h.nonneg w (Dict.mem_values_of_get hget)

theorem magnitude_pos (h : Holdings weights priceSeries) : 0 < magnitude weights.values := by
  obtain ⟨e, -, hw⟩ := h.held
  cases hget : weights.get e.1 with
  | none =>
    rw [hget] at hw
    exact absurd hw (lt_irrefl _)
  | some w =>
    rw [hget] at hw
    have hle := Herfindahl.abs_le_magnitude (Dict.mem_values_of_get hget)
    exact (abs_pos.mpr hw.ne').trans_le hle

/-- The frames are the series of the positively weighted holdings, each in another unit. -/
theorem mem_frames (h : Holdings weights priceSeries) {f : Series} (hf : f ∈ frames weights priceSeries) :
    ∃ e ∈ priceSeries.items, 0 < (weights.get e.1).getD 0 ∧
      ∃ c : ℚ, 0 < c ∧ f = e.2.map fun x => (x.1, x.2 * c) := by
  obtain ⟨e, he, hnormalised⟩ := List.mem_filterMap.mp hf
  dsimp only at hnormalised
  rw [abs_of_nonneg (get_nonneg h e.1)] at hnormalised
  split_ifs at hnormalised with hw
  have hpos := not_le.mp hw
  obtain ⟨c, hc, hf⟩ := exists_normalised (h.series e he) (div_pos hpos (magnitude_pos h))
  exact ⟨e, he, hpos, c, hc, Option.some.inj (hnormalised.symm.trans hf)⟩

theorem frames_ne_nil (h : Holdings weights priceSeries) : frames weights priceSeries ≠ [] := by
  obtain ⟨e, he, hw⟩ := h.held
  obtain ⟨c, -, hf⟩ := exists_normalised (h.series e he) (div_pos hw (magnitude_pos h))
  have hframe : (fun e : String × Series =>
      let w := |(weights.get e.1).getD 0|
      if w ≤ 0 then none else normalised e.2 (w / magnitude weights.values)) e =
        some (e.2.map fun x => (x.1, x.2 * c)) := by
    dsimp only
    rw [abs_of_nonneg hw.le, if_neg hw.not_ge]
    exact hf
  exact List.ne_nil_of_mem (List.mem_filterMap.mpr ⟨e, he, hframe⟩)

/-! ## The bound -/

/-- Lowered by the drawdown of its holding, a frame is at no time above its last value. -/
theorem mul_valueAt_le {c d : ℚ} {t last : Portfolio.Instant} (hs : CloseSeries s) (hc : 0 < c)
    (hd : drawdown (s.map Prod.snd) ≤ d) (hd1 : d ≤ 1) (hlast : ∀ e ∈ s, e.1 ≤ last) :
    (1 - d) * (valueAt (s.map fun e => (e.1, e.2 * c)) t).getD 0 ≤
      (valueAt (s.map fun e => (e.1, e.2 * c)) last).getD 0 := by
  have hpositive : ∀ x ∈ s.map Prod.snd, 0 < x := List.forall_mem_map.mpr hs.positive
  have hne : s.map Prod.snd ≠ [] := by simpa using hs.nonempty
  have hvalue : valueAt (s.map fun e => (e.1, e.2 * c)) last = some ((s.map Prod.snd).getLast hne * c) := by
    have hscaled : (s.map fun e => (e.1, e.2 * c)) ≠ [] := by simpa using hs.nonempty
    have hascending : (s.map fun e => (e.1, e.2 * c)).Pairwise (·.1 < ·.1) :=
      List.pairwise_map.mpr hs.ascending
    have htimes : ∀ x ∈ s.map fun e => (e.1, e.2 * c), x.1 ≤ last := List.forall_mem_map.mpr hlast
    rw [valueAt_last hascending hscaled htimes, List.getLast_map, List.getLast_map]
  rw [hvalue, Option.getD_some]
  cases hvalue : valueAt (s.map fun e => (e.1, e.2 * c)) t with
  | none =>
    rw [Option.getD_none, mul_zero]
    exact (mul_pos (hpositive _ (List.getLast_mem hne)) hc).le
  | some x =>
    have hmem := valueAt_mem hvalue
    rw [List.map_map] at hmem
    obtain ⟨e, he, rfl⟩ := List.mem_map.mp hmem
    have hle := mul_le_last hne hpositive hd hd1 e.2 (List.mem_map_of_mem he)
    rw [Option.getD_some, Function.comp_apply, ← mul_assoc]
    exact mul_le_mul_of_nonneg_right hle hc.le

/-- Some positively weighted holding has the largest drawdown. -/
theorem exists_largest (h : Holdings weights priceSeries) :
    ∃ e ∈ priceSeries.items, 0 < (weights.get e.1).getD 0 ∧ ∀ e' ∈ priceSeries.items,
      0 < (weights.get e'.1).getD 0 → drawdown (e'.2.map Prod.snd) ≤ drawdown (e.2.map Prod.snd) := by
  obtain ⟨e₀, he₀, hw₀⟩ := h.held
  let held := (priceSeries.items.filter fun e => 0 < (weights.get e.1).getD 0).toFinset
  have hmem : ∀ e, e ∈ held ↔ e ∈ priceSeries.items ∧ 0 < (weights.get e.1).getD 0 := by simp [held]
  obtain ⟨e, he, hmax⟩ :=
    held.exists_max_image (fun e => drawdown (e.2.map Prod.snd)) ⟨e₀, (hmem e₀).mpr ⟨he₀, hw₀⟩⟩
  obtain ⟨he, hw⟩ := (hmem e).mp he
  exact ⟨e, he, hw, fun e' he' hw' => hmax e' ((hmem e').mpr ⟨he', hw'⟩)⟩

/-- The drawdown of the portfolio is at most that of some holding. -/
theorem portfolioDrawdown_le (h : Holdings weights priceSeries) :
    ∃ dd, portfolioDrawdown weights priceSeries = some dd ∧ 0 ≤ dd ∧ ∃ e ∈ priceSeries.items,
      0 < (weights.get e.1).getD 0 ∧ dd ≤ drawdown (e.2.map Prod.snd) := by
  obtain ⟨e, he, hw, hlargest⟩ := exists_largest h
  have hascending : ∀ f ∈ frames weights priceSeries, f.Pairwise (·.1 < ·.1) := by
    intro f hf
    obtain ⟨e, he, -, c, -, rfl⟩ := mem_frames h hf
    exact List.pairwise_map.mpr (h.series e he).ascending
  have hvalue := totalSeries_eq (frames_ne_nil h) hascending
  have hindex : unionIndex (frames weights priceSeries) ≠ [] := by
    obtain ⟨f, hf⟩ := List.exists_mem_of_ne_nil _ (frames_ne_nil h)
    obtain ⟨e, he, -, c, -, rfl⟩ := mem_frames h hf
    obtain ⟨x, hx⟩ := List.exists_mem_of_ne_nil _ (h.series e he).nonempty
    exact List.ne_nil_of_mem (mem_unionIndex.mpr ⟨_, hf, _, List.mem_map_of_mem hx, rfl⟩)
  have hvalue_ne : portfolioValue weights priceSeries ≠ [] := by
    unfold portfolioValue
    rw [hvalue]
    simpa using hindex
  refine ⟨drawdown (portfolioValue weights priceSeries), ?_, drawdown_nonneg _, e, he, hw, ?_⟩
  · unfold portfolioDrawdown
    rw [if_neg, if_neg hvalue_ne]
    exact fun hguard => hguard.elim (List.ne_nil_of_mem he) (magnitude_pos h).not_ge
  · unfold portfolioValue
    rw [hvalue]
    refine drawdown_sum_le hindex (drawdown_nonneg _) fun f hf t _ => ?_
    have hlast : ∀ x ∈ f, x.1 ≤ (unionIndex (frames weights priceSeries)).getLast hindex := by
      intro x hx
      exact Frames.le_getLast (unionIndex_pairwise _) hindex x.1 (mem_unionIndex.mpr ⟨f, hf, x, hx, rfl⟩)
    obtain ⟨e', he', hw', c, hc, rfl⟩ := mem_frames h hf
    refine mul_valueAt_le (h.series e' he') hc (hlargest e' he' hw') ?_
      fun x hx => hlast (x.1, x.2 * c) (List.mem_map_of_mem hx)
    exact drawdown_le_one (List.forall_mem_map.mpr (h.series e he).positive)

/-! ## Units -/

theorem portfolioDrawdown_congr {weights' : Dict String ℚ} {priceSeries' : Dict String Series}
    (hempty : priceSeries'.items = [] ↔ priceSeries.items = [])
    (hmagnitude : magnitude weights'.values ≤ 0 ↔ magnitude weights.values ≤ 0)
    (hframes : frames weights' priceSeries' = frames weights priceSeries) :
    portfolioDrawdown weights' priceSeries' = portfolioDrawdown weights priceSeries := by
  unfold portfolioDrawdown portfolioValue
  rw [hframes]
  exact if_congr (or_congr hempty hmagnitude) rfl rfl

theorem magnitude_mapValues {c : ℚ} (hc : 0 < c) (weights : Dict String ℚ) :
    magnitude (weights.mapValues fun _ w => c * w).values = c * magnitude weights.values := by
  have hvalues : (weights.mapValues fun _ w => c * w).values = weights.values.map (c * ·) := by
    unfold Dict.mapValues Dict.values
    rw [List.map_map, List.map_map]
    rfl
  rw [hvalues, Herfindahl.magnitude_scale, abs_of_pos hc]

/-- All weights in another unit. -/
theorem portfolioDrawdown_scale_weights {c : ℚ} (hc : 0 < c) (weights : Dict String ℚ)
    (priceSeries : Dict String Series) :
    portfolioDrawdown (weights.mapValues fun _ w => c * w) priceSeries =
      portfolioDrawdown weights priceSeries := by
  refine portfolioDrawdown_congr Iff.rfl ?_ ?_
  · rw [magnitude_mapValues hc]
    exact smul_nonpos_iff_nonpos_of_pos_left hc
  · unfold frames
    congr 1
    funext e
    have hget : ((weights.mapValues fun _ w => c * w).get e.1).getD 0 = c * (weights.get e.1).getD 0 := by
      rw [Dict.get_mapValues]
      cases weights.get e.1 with
      | none => exact (mul_zero c).symm
      | some w => rfl
    dsimp only
    rw [hget, magnitude_mapValues hc, abs_mul, abs_of_pos hc, mul_div_mul_left _ _ hc.ne']
    exact if_congr (smul_nonpos_iff_nonpos_of_pos_left hc) rfl rfl

/-- The prices of one holding in another unit. -/
def scalePrices (symbol : String) (c : ℚ) (priceSeries : Dict String Series) : Dict String Series :=
  priceSeries.mapValues fun key s => if key = symbol then s.map fun e => (e.1, c * e.2) else s

theorem portfolioDrawdown_scale_prices {c : ℚ} (hc : 0 < c) (symbol : String) (weights : Dict String ℚ)
    (priceSeries : Dict String Series) :
    portfolioDrawdown weights (scalePrices symbol c priceSeries) =
      portfolioDrawdown weights priceSeries := by
  refine portfolioDrawdown_congr ?_ Iff.rfl ?_
  · exact List.map_eq_nil_iff
  · unfold frames scalePrices Dict.mapValues
    dsimp only
    rw [List.filterMap_map]
    congr 1
    funext e
    rw [Function.comp_apply]
    dsimp only
    split_ifs
    · rfl
    · exact normalised_scale hc _ _
    · rfl

/-- The drawdown that the score shows is from 0 to the largest of the positively weighted holdings, and
    has no unit. -/
theorem computeDrawdown_bounds (h : Holdings weights priceSeries) :
    ∃ dd, (computeDrawdown weights priceSeries).score = some (roundTo 1 (min 1 (dd / (40 / 100)) * 100)) ∧
      portfolioDrawdown weights priceSeries = some dd ∧
      0 ≤ dd ∧
      (∃ e ∈ priceSeries.items, 0 < (weights.get e.1).getD 0 ∧ dd ≤ drawdown (e.2.map Prod.snd)) ∧
      ∀ c : ℚ, 0 < c →
        portfolioDrawdown (weights.mapValues fun _ w => c * w) priceSeries = some dd ∧
          ∀ symbol, portfolioDrawdown weights (scalePrices symbol c priceSeries) = some dd := by
  obtain ⟨dd, hdd, hnonneg, hle⟩ := portfolioDrawdown_le h
  refine ⟨dd, ?_, hdd, hnonneg, hle, fun c hc => ⟨?_, fun symbol => ?_⟩⟩
  · rw [computeDrawdown_score, hdd, Option.map_some]
  · rw [portfolioDrawdown_scale_weights hc, hdd]
  · rw [portfolioDrawdown_scale_prices hc, hdd]

/-- Two holdings, neither with a close on the other's first and last day. -/
theorem computeDrawdown_bounds_sample :
    let weights : Dict String ℚ := ⟨[("AAPL", 1), ("TCS", 3)], by decide⟩
    let priceSeries : Dict String Series :=
      ⟨[("AAPL", [(1, 10), (3, 12), (6, 9)]), ("TCS", [(2, 5), (4, 4)])], by decide⟩
    ∃ dd, portfolioDrawdown weights priceSeries = some dd ∧ 0 ≤ dd ∧ ∃ e ∈ priceSeries.items,
      0 < (weights.get e.1).getD 0 ∧ dd ≤ drawdown (e.2.map Prod.snd) := by
  have h : Holdings ⟨[("AAPL", 1), ("TCS", 3)], by decide⟩
      ⟨[("AAPL", [(1, 10), (3, 12), (6, 9)]), ("TCS", [(2, 5), (4, 4)])], by decide⟩ :=
    { series := List.forall_mem_cons.mpr ⟨⟨by decide, by decide +kernel, by decide⟩,
        List.forall_mem_singleton.mpr ⟨by decide, by decide +kernel, by decide⟩⟩
      nonneg := by decide +kernel
      held := by decide +kernel }
  obtain ⟨dd, -, hdd, hnonneg, hle, -⟩ := computeDrawdown_bounds h
  exact ⟨dd, hdd, hnonneg, hle⟩

end Nivara.Analysis
