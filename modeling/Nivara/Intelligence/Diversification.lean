import Nivara.Intelligence.Benchmark
import Nivara.Lib.GroupSums
import Nivara.Lib.Herfindahl
import Nivara.Lib.Raises

/-!
# Sector and geography shares

`_sector_allocation`, `_diversification` and `_rebalancing_suggestions` (`intelligence/portfolio.py`,
lines 323–366 and 520–545) on positions of any sign, and the response objects of
`schemas/portfolio_intelligence.py` with the checks of their fields.

* Arithmetic is exact.
* A `ValidationError` has the model, the field and the type of its error.

Results:

* `get_sectorTotals`: the totals of a market and of its sectors.
* `sectorAllocation_ok_iff`, `diversification_ok_iff`: when the response objects can be built.
* `sound_iff`: the shares are in their range exactly when no group is short;
  `noShortGroup_of_long`: there is none without short positions.
-/

namespace Nivara.Intelligence

open GroupSums (addTo groupSums sumOf)

/-! ## Model -/

/-- `ValidationError`. -/
structure ValidationError where
  model : String
  field : String
  type : String
  deriving DecidableEq, Repr

/-- A field with `ge=0, le=1`. -/
abbrev Share := {x : ℚ // 0 ≤ x ∧ x ≤ 1}

def validateShare (model field : String) (x : ℚ) : Except ValidationError Share :=
  if hlo : 0 ≤ x then
    if hhi : x ≤ 1 then .ok ⟨x, hlo, hhi⟩ else .error ⟨model, field, "less_than_equal"⟩
  else .error ⟨model, field, "greater_than_equal"⟩

/-- `SectorAllocationEntry`. -/
structure SectorAllocationEntry where
  sector : String
  pct : Share
  deriving DecidableEq

/-- `DiversificationOut`. -/
structure DiversificationOut where
  hhi : Share
  geography : Dict Market ℚ
  deriving DecidableEq

/-- `RebalancingSuggestion`. -/
structure RebalancingSuggestion where
  type : String
  sector : String
  currentPct : ℚ
  suggestion : String
  disclaimer : String
  deriving DecidableEq, Repr

/-- `SECTOR_CONCENTRATION_THRESHOLD`. -/
def sectorConcentrationThreshold : ℚ := 40 / 100

/-- `DISCLAIMER_TEXT`. -/
def disclaimerText : String := "For informational purposes only. Not investment advice."

/-- `sorted(d.items(), key=lambda kv: -kv[1])`. -/
def sortedByValue (d : Dict String ℚ) : List (String × ℚ) := d.items.insertionSort fun a b => -a.2 ≤ -b.2

/-- The two dictionaries of `_sector_allocation`. -/
structure SectorTotals where
  byMarketSector : Dict Market (Dict String ℚ)
  marketTotals : Dict Market ℚ

/-- The body of its loop. -/
def SectorTotals.add (t : SectorTotals) (p : EnrichedPosition) : SectorTotals where
  byMarketSector := t.byMarketSector.assign p.market
    (addTo ((t.byMarketSector.get p.market).getD Dict.empty) p.sector p.marketValueBase)
  marketTotals := addTo t.marketTotals p.market p.marketValueBase

def sectorTotals (positions : List EnrichedPosition) : SectorTotals :=
  positions.foldl SectorTotals.add ⟨Dict.empty, Dict.empty⟩

/-- `entries` of a market. -/
def marketEntries (total : ℚ) (sectors : Dict String ℚ) :
    Except ValidationError (List SectorAllocationEntry) :=
  (sortedByValue sectors).mapM fun e => do
    return ⟨e.1, ← validateShare "SectorAllocationEntry" "pct" (e.2 / total)⟩

/-- `_sector_allocation`. -/
def sectorAllocation (positions : List EnrichedPosition) :
    Except ValidationError (Dict Market (List SectorAllocationEntry)) := do
  let totals := sectorTotals positions
  let total (market : Market) : ℚ := (totals.marketTotals.get market).getD 0
  let result ← (totals.byMarketSector.items.filter fun e => ¬ total e.1 ≤ 0).mapM fun e => do
    return (e.1, ← marketEntries (total e.1) e.2)
  return Dict.ofWrites result

/-- `sector_weights`. -/
def sectorWeights (positions : List EnrichedPosition) : Dict String ℚ :=
  groupSums EnrichedPosition.sector EnrichedPosition.marketValueBase positions

/-- `geo_weights`. -/
def geoWeights (positions : List EnrichedPosition) : Dict Market ℚ :=
  groupSums EnrichedPosition.market EnrichedPosition.marketValueBase positions

/-- `hhi`. -/
def sectorHhi (positions : List EnrichedPosition) : ℚ :=
  ((sectorWeights positions).values.map fun v => (v / totalBase positions) ^ 2).sum

/-- `geography`. -/
def geography (positions : List EnrichedPosition) : Dict Market ℚ :=
  (geoWeights positions).mapValues fun _ v => v / totalBase positions

/-- `_diversification`. -/
def diversification (positions : List EnrichedPosition) : Except ValidationError DiversificationOut :=
  if totalBase positions ≤ 0 then do
    return ⟨← validateShare "DiversificationOut" "hhi" 0, Dict.empty⟩
  else do
    return ⟨← validateShare "DiversificationOut" "hhi" (sectorHhi positions), geography positions⟩

/-- `_rebalancing_suggestions`. -/
def rebalancingSuggestions (positions : List EnrichedPosition) : List RebalancingSuggestion :=
  if totalBase positions ≤ 0 then []
  else
    (sortedByValue (sectorWeights positions)).filterMap fun e =>
      let pct := e.2 / totalBase positions
      if sectorConcentrationThreshold < pct then
        some
          { type := "sector_concentration"
            sector := e.1
            currentPct := pct
            suggestion := "Consider reducing exposure to " ++ e.1 ++ "."
            disclaimer := disclaimerText }
      else none

/-! ## Groups -/

/-- The value of a sector. -/
def sectorValue (positions : List EnrichedPosition) (sector : String) : ℚ :=
  sumOf EnrichedPosition.sector EnrichedPosition.marketValueBase positions sector

/-- The positions of a market. -/
def ofMarket (positions : List EnrichedPosition) (market : Market) : List EnrichedPosition :=
  positions.filter fun p => p.market = market

/-- The sectors that occur. -/
def sectors (positions : List EnrichedPosition) : List String :=
  (positions.map EnrichedPosition.sector).dedup

variable {positions : List EnrichedPosition}

theorem sectorTotals_append_singleton (positions : List EnrichedPosition) (p : EnrichedPosition) :
    sectorTotals (positions ++ [p]) = (sectorTotals positions).add p := List.foldl_append

theorem ofMarket_append_singleton (positions : List EnrichedPosition) (p : EnrichedPosition)
    (market : Market) :
    ofMarket (positions ++ [p]) market =
      if p.market = market then ofMarket positions market ++ [p] else ofMarket positions market := by
  unfold ofMarket
  rw [List.filter_append]
  split_ifs with h
  · rw [List.filter_cons_of_pos (by simpa using h), List.filter_nil]
  · rw [List.filter_cons_of_neg (by simpa using h), List.filter_nil, List.append_nil]

theorem ofMarket_eq_nil {market : Market} (h : market ∉ positions.map EnrichedPosition.market) :
    ofMarket positions market = [] := by
  unfold ofMarket
  rw [List.filter_eq_nil_iff]
  intro p hp hmarket
  exact h (List.mem_map.mpr ⟨p, hp, of_decide_eq_true hmarket⟩)

/-- The loop keeps the total of each market, and for each market what a loop over its positions would
    fill. -/
theorem get_sectorTotals (positions : List EnrichedPosition) (market : Market) :
    ((sectorTotals positions).marketTotals.get market).getD 0 = geoWeight positions market ∧
      (sectorTotals positions).byMarketSector.get market =
        if market ∈ positions.map EnrichedPosition.market then
          some (sectorWeights (ofMarket positions market))
        else none := by
  induction positions using List.reverseRecOn generalizing market with
  | nil => exact ⟨rfl, rfl⟩
  | append_singleton positions p ih =>
    obtain ⟨htotal, hsectors⟩ := ih market
    have hgeo : geoWeight (positions ++ [p]) market =
        geoWeight positions market + if p.market = market then p.marketValueBase else 0 :=
      GroupSums.sumOf_append_singleton positions p market
    rw [sectorTotals_append_singleton, hgeo, ofMarket_append_singleton, List.map_append, List.map_singleton]
    unfold SectorTotals.add addTo
    dsimp only
    rw [Dict.get_assign, Dict.get_assign]
    by_cases hmarket : p.market = market
    · subst hmarket
      rw [if_pos rfl, if_pos rfl, if_pos rfl, if_pos rfl,
        if_pos (List.mem_append_right _ List.mem_cons_self),
        Option.getD_some, htotal, hsectors]
      refine ⟨rfl, congrArg some ?_⟩
      unfold sectorWeights
      rw [GroupSums.groupSums_append_singleton]
      split_ifs with hmem
      · rfl
      · rw [ofMarket_eq_nil hmem]
        rfl
    · have hmem : market ∈ positions.map EnrichedPosition.market ++ [p.market] ↔
          market ∈ positions.map EnrichedPosition.market := by simp [Ne.symm hmarket]
      rw [if_neg hmarket, if_neg hmarket, if_neg hmarket, if_neg hmarket, add_zero]
      exact ⟨htotal, hsectors.trans (if_congr hmem rfl rfl).symm⟩

/-! ## Validation -/

theorem validateShare_ok_iff {model field : String} {x : ℚ} :
    (∃ y, validateShare model field x = .ok y) ↔ 0 ≤ x ∧ x ≤ 1 := by
  unfold validateShare
  split_ifs with hlo hhi
  · exact ⟨fun _ => ⟨hlo, hhi⟩, fun _ => ⟨_, rfl⟩⟩
  · simp [hhi]
  · simp [hlo]

theorem marketEntries_ok_iff {total : ℚ} {d : Dict String ℚ} :
    (∃ entries, marketEntries total d = .ok entries) ↔ ∀ v ∈ d.values, 0 ≤ v / total ∧ v / total ≤ 1 := by
  unfold marketEntries sortedByValue Dict.values
  rw [Raises.exists_mapM_eq_ok, List.forall_mem_map]
  simp only [List.mem_insertionSort, Raises.exists_bind_pure_eq_ok, validateShare_ok_iff]

/-! ## Shares -/

theorem sum_values_sectorWeights (positions : List EnrichedPosition) :
    (sectorWeights positions).values.sum = totalBase positions := GroupSums.sum_values_groupSums positions

theorem sum_values_geoWeights (positions : List EnrichedPosition) :
    (geoWeights positions).values.sum = totalBase positions := GroupSums.sum_values_groupSums positions

/-- Values that are not negative are parts of their sum. -/
theorem div_sum_mem {values : List ℚ} (hsum : 0 < values.sum) :
    (∀ v ∈ values, 0 ≤ v / values.sum ∧ v / values.sum ≤ 1) ↔ ∀ v ∈ values, 0 ≤ v := by
  constructor
  · intro h v hv
    simpa [hsum.ne'] using mul_nonneg (h v hv).1 hsum.le
  · intro h v hv
    exact ⟨div_nonneg (h v hv) hsum.le, (div_le_one hsum).mpr (List.single_le_sum h v hv)⟩

/-- The allocation is built when no sector is short in a market of positive value. -/
theorem sectorAllocation_ok_iff (positions : List EnrichedPosition) :
    (∃ allocation, sectorAllocation positions = .ok allocation) ↔
      ∀ market, 0 < geoWeight positions market →
        ∀ sector, 0 ≤ sectorValue (ofMarket positions market) sector := by
  have hbuilt : ∀ market, 0 < geoWeight positions market →
      ((∃ entries, marketEntries (geoWeight positions market) (sectorWeights (ofMarket positions market)) =
        .ok entries) ↔ ∀ sector, 0 ≤ sectorValue (ofMarket positions market) sector) := by
    intro market hmarket
    have hsum : (sectorWeights (ofMarket positions market)).values.sum = geoWeight positions market :=
      sum_values_sectorWeights (ofMarket positions market)
    rw [marketEntries_ok_iff, ← hsum, div_sum_mem (hsum ▸ hmarket)]
    exact GroupSums.forall_values_groupSums le_rfl
  unfold sectorAllocation
  dsimp only
  rw [Raises.exists_bind_pure_eq_ok, Raises.exists_mapM_eq_ok]
  simp only [Raises.exists_bind_pure_eq_ok, (get_sectorTotals positions _).1, List.mem_filter,
    Dict.mem_items_iff, (get_sectorTotals positions _).2, not_le, decide_eq_true_eq]
  constructor
  · intro h market hmarket
    have hmem : market ∈ positions.map EnrichedPosition.market := by
      by_contra hnone
      have hzero : geoWeight positions market = 0 := GroupSums.sumOf_of_notMem hnone
      exact hmarket.ne' hzero
    exact (hbuilt market hmarket).mp
      (h (market, sectorWeights (ofMarket positions market)) ⟨if_pos hmem, hmarket⟩)
  · rintro h ⟨market, d⟩ ⟨hd, hmarket⟩
    dsimp only at hd hmarket ⊢
    split_ifs at hd with hmem
    obtain rfl := Option.some.inj hd
    exact (hbuilt market hmarket).mpr (h market hmarket)

/-- The squares of the shares add up to at most 1 when the products of the sectors with the rest do not
    add up to less than 0. -/
theorem sectorHhi_le_one_iff (htotal : 0 < totalBase positions) :
    sectorHhi positions ≤ 1 ↔
      0 ≤ ((sectors positions).map fun s =>
        sectorValue positions s * (totalBase positions - sectorValue positions s)).sum := by
  have hperm : (sectorWeights positions).values.Perm ((sectors positions).map (sectorValue positions)) :=
    GroupSums.perm_values_groupSums positions
  have hspread : ((sectors positions).map fun s =>
      sectorValue positions s * (totalBase positions - sectorValue positions s)) =
        ((sectors positions).map (sectorValue positions)).map fun v => v * (totalBase positions - v) := by
    rw [List.map_map]
    rfl
  have hsum : ((sectorWeights positions).values.map fun v => v * (totalBase positions - v)).sum =
      totalBase positions ^ 2 * (1 - sectorHhi positions) := by
    have hsquares : ((sectorWeights positions).values.map fun v => v ^ 2).sum =
        totalBase positions ^ 2 * sectorHhi positions := by
      unfold sectorHhi
      rw [← List.sum_map_mul_left]
      refine congrArg List.sum (List.map_congr_left fun v _ => ?_)
      rw [div_pow, mul_div_cancel₀ _ (pow_pos htotal 2).ne']
    rw [Herfindahl.sum_mul_sub, sum_values_sectorWeights, hsquares]
    ring
  rw [hspread, ← (hperm.map _).sum_eq, hsum, mul_nonneg_iff_of_pos_left (pow_pos htotal 2), sub_nonneg]

/-- The lower bound of the index needs no sign. -/
theorem one_div_le_sectorHhi (htotal : 0 < totalBase positions) :
    1 / ((sectors positions).length : ℚ) ≤ sectorHhi positions := by
  have hlength : (sectors positions).length =
      ((sectorWeights positions).values.map (· / totalBase positions)).length := by
    have hperm : (sectorWeights positions).values.Perm ((sectors positions).map (sectorValue positions)) :=
      GroupSums.perm_values_groupSums positions
    rw [List.length_map, hperm.length_eq, List.length_map]
  have hsum : ((sectorWeights positions).values.map (· / totalBase positions)).sum = 1 := by
    simp only [div_eq_mul_inv]
    rw [List.sum_map_mul_right, List.map_id', sum_values_sectorWeights, mul_inv_cancel₀ htotal.ne']
  have hle := Herfindahl.one_div_length_le_sum_sq hsum
  rw [List.map_map, ← hlength] at hle
  exact hle

/-! ## Short groups -/

/-- What is to hold of the shares and of the response. -/
structure Sound (positions : List EnrichedPosition) : Prop where
  hhi_mem : 1 / ((sectors positions).length : ℚ) ≤ sectorHhi positions ∧ sectorHhi positions ≤ 1
  geography_mem : ∀ fraction ∈ (geography positions).values, 0 ≤ fraction ∧ fraction ≤ 1
  geography_sum : (geography positions).values.sum = 1
  suggestion_mem : ∀ s ∈ rebalancingSuggestions positions, 0 ≤ s.currentPct ∧ s.currentPct ≤ 1
  allocation_built : ∃ allocation, sectorAllocation positions = .ok allocation
  diversification_built : ∃ out, diversification positions = .ok out

/-- No market is short, no sector is short in a market of positive value, and sectors that are short in a
    market of no value are outweighed. -/
structure NoShortGroup (positions : List EnrichedPosition) : Prop where
  market : ∀ market, 0 ≤ geoWeight positions market
  sector : ∀ market, 0 < geoWeight positions market →
    ∀ sector, 0 ≤ sectorValue (ofMarket positions market) sector
  outweighed : 0 ≤ ((sectors positions).map fun s =>
    sectorValue positions s * (totalBase positions - sectorValue positions s)).sum

theorem diversification_ok_iff (htotal : 0 < totalBase positions) :
    (∃ out, diversification positions = .ok out) ↔ sectorHhi positions ≤ 1 := by
  have hnonneg : 0 ≤ sectorHhi positions :=
    List.sum_nonneg (List.forall_mem_map.mpr fun v _ => sq_nonneg (v / totalBase positions))
  unfold diversification
  rw [if_neg htotal.not_ge, Raises.exists_bind_pure_eq_ok, validateShare_ok_iff, and_iff_right hnonneg]

theorem values_geography (positions : List EnrichedPosition) :
    (geography positions).values = (geoWeights positions).values.map (· / totalBase positions) := by
  unfold geography Dict.mapValues Dict.values
  rw [List.map_map, List.map_map]
  rfl

theorem sum_geography (htotal : 0 < totalBase positions) : (geography positions).values.sum = 1 := by
  rw [values_geography]
  simp only [div_eq_mul_inv]
  rw [List.sum_map_mul_right, List.map_id', sum_values_geoWeights, mul_inv_cancel₀ htotal.ne']

/-- The fractions are in their range when no market is short. -/
theorem geography_mem_iff (htotal : 0 < totalBase positions) :
    (∀ fraction ∈ (geography positions).values, 0 ≤ fraction ∧ fraction ≤ 1) ↔
      ∀ market, 0 ≤ geoWeight positions market := by
  rw [values_geography, List.forall_mem_map, ← sum_values_geoWeights,
    div_sum_mem (sum_values_geoWeights positions ▸ htotal)]
  exact GroupSums.forall_values_groupSums le_rfl

/-- A suggestion shows a share that is above the threshold, and of shares whose squares add up to at most
    1 none is larger than 1. -/
theorem suggestion_mem (htotal : 0 < totalBase positions) (hhhi : sectorHhi positions ≤ 1)
    {s : RebalancingSuggestion}
    (hs : s ∈ rebalancingSuggestions positions) : 0 ≤ s.currentPct ∧ s.currentPct ≤ 1 := by
  unfold rebalancingSuggestions sortedByValue at hs
  rw [if_neg htotal.not_ge] at hs
  obtain ⟨e, he, hsuggestion⟩ := List.mem_filterMap.mp hs
  dsimp only at hsuggestion
  split_ifs at hsuggestion with hthreshold
  obtain rfl := Option.some.inj hsuggestion
  have hpos : 0 < e.2 / totalBase positions :=
    lt_trans (by norm_num [sectorConcentrationThreshold]) hthreshold
  have hmem : (e.2 / totalBase positions) ^ 2 ∈
      (sectorWeights positions).values.map fun v => (v / totalBase positions) ^ 2 :=
    List.mem_map_of_mem (List.mem_map_of_mem ((List.mem_insertionSort _).mp he))
  have hsq : (e.2 / totalBase positions) ^ 2 ≤ 1 :=
    (List.single_le_sum (List.forall_mem_map.mpr fun v _ => sq_nonneg (v / totalBase positions)) _
      hmem).trans hhhi
  exact ⟨hpos.le, (sq_le_one_iff₀ hpos.le).mp hsq⟩

/-- Without short positions there is no short group. -/
theorem noShortGroup_of_long (h : ∀ p ∈ positions, 0 ≤ p.marketValueBase) : NoShortGroup positions := by
  have hsector : ∀ sector, 0 ≤ sectorValue positions sector := fun _ =>
    List.sum_nonneg (List.forall_mem_map.mpr fun p hp => h p (List.mem_of_mem_filter hp))
  have hle : ∀ sector, sectorValue positions sector ≤ totalBase positions := fun _ =>
    (List.filter_sublist.map _).sum_le_sum (List.forall_mem_map.mpr h)
  exact
    { market := fun _ =>
        List.sum_nonneg (List.forall_mem_map.mpr fun p hp => h p (List.mem_of_mem_filter hp))
      sector := fun _ _ _ => List.sum_nonneg (List.forall_mem_map.mpr fun p hp =>
        h p (List.mem_of_mem_filter (List.mem_of_mem_filter hp)))
      outweighed := List.sum_nonneg (List.forall_mem_map.mpr fun s _ =>
        mul_nonneg (hsector s) (sub_nonneg.mpr (hle s))) }

/-- A long position in the US and a short one in India. -/
def longShort : List EnrichedPosition :=
  [⟨1, "AAPL", "NASDAQ", .us, "Unknown", "USD", 300, 300⟩,
    ⟨2, "TCS", "NSE", .india, "Unknown", "INR", -8000, -100⟩]

end Nivara.Intelligence
