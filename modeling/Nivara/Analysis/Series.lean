import Nivara.CorporateActions.Service
import Nivara.Lib.Dict
import Nivara.Portfolio.Session

/-!
# Series of closes

`load_close_series_bulk` (`analysis/technical.py`, lines 597-645) and what the portfolio
engines do to its series with pandas.

* A double is read as the rational it stands for. A gap of a column (NaN) is `none`; a double
  that is not finite is not modelled, so a change from 0 is a gap.
* The union of several indexes is sorted.

Results:

* `loadCloseSeriesBulk_congr`: the series depend on the set of the instruments only.
-/

namespace Nivara.Analysis

open Portfolio (Instant)
open CorporateActions (PriceHistory)

/-! ## Columns -/

/-- A series: its values with their times, in order. -/
abbrev Series := List (Instant × ℚ)

/-- A column of a frame. -/
abbrev Column := List (Option ℚ)

/-- The index of `pd.concat(series, axis=1)`. -/
def unionIndex (series : List Series) : List Instant :=
  (series.flatMap fun s => s.map Prod.fst).dedup.insertionSort (· ≤ ·)

/-- The column of a series under an index. -/
def reindex (index : List Instant) (s : Series) : Column :=
  index.map fun t => (s.find? fun e => e.1 = t).map Prod.snd

/-- `ffill()`. -/
def ffill (c : Column) : Column := (c.scanl (fun last x => x.or last) none).tail

/-- `pct_change()`. -/
def pctChange (c : Column) : Column :=
  List.zipWith (fun previous current => do
    let p ← previous
    let x ← current
    if p = 0 then none else some (x / p - 1)) (none :: c) c

/-- The rows of a frame. -/
def rows (columns : List Column) : List (List (Option ℚ)) := columns.transpose

/-- `sum(axis=1)`: a gap counts as 0. -/
def sumRow (row : List (Option ℚ)) : ℚ := (row.map fun x => x.getD 0).sum

/-- `pd.concat(series, axis=1).ffill().sum(axis=1)`. -/
def totalSeries (series : List Series) : Series :=
  let index := unionIndex series
  index.zip ((rows (series.map fun s => ffill (reindex index s))).map sumRow)

example : totalSeries [[(1, 10), (3, 30)], [(2, 5)]] = [(1, 10), (2, 15), (3, 35)] := by decide +kernel

/-- `series.pct_change().dropna()`. -/
def returns (s : Series) : Series :=
  ((s.map Prod.fst).zip (pctChange (s.map fun e => some e.2))).filterMap fun e => e.2.map fun x => (e.1, x)

/-- `(series / base) * weight`, with the first value of the series as base; `none` when it is not
    positive. -/
def normalised (s : Series) (weight : ℚ) : Option Series :=
  match s with
  | [] => none
  | (_, base) :: _ => if base ≤ 0 then none else some (s.map fun e => (e.1, e.2 / base * weight))

/-! ## `load_close_series_bulk` -/

/-- The latest `bars` closes of one instrument, ascending. -/
def closeSeries (prices : List PriceHistory) (bars : ℕ) (instrumentId : UUID) : Series :=
  let newestFirst := (prices.filter fun r => r.instrumentId = instrumentId).insertionSort
    fun a b => b.timestamp ≤ a.timestamp
  (newestFirst.take bars).reverse.map fun r => (r.timestamp, r.close)

/-- `load_close_series_bulk`. -/
def loadCloseSeriesBulk (prices : List PriceHistory) (instrumentIds : List UUID) (bars : ℕ) : Dict UUID Series :=
  let selected := prices.filter fun r => r.instrumentId ∈ instrumentIds
  let groups := (selected.map PriceHistory.instrumentId).dedup.insertionSort (· ≤ ·)
  Dict.ofWrites (groups.map fun instrumentId => (instrumentId, closeSeries selected bars instrumentId))

/-- An instrument asked for twice changes nothing. -/
theorem loadCloseSeriesBulk_congr (prices : List PriceHistory) (bars : ℕ) {ids ids' : List UUID}
    (h : ∀ id, id ∈ ids ↔ id ∈ ids') :
    loadCloseSeriesBulk prices ids bars = loadCloseSeriesBulk prices ids' bars := by
  have hselected : prices.filter (fun r => r.instrumentId ∈ ids) =
      prices.filter fun r => r.instrumentId ∈ ids' := by
    apply List.filter_congr
    intro r _
    rw [decide_eq_decide]
    exact h r.instrumentId
  unfold loadCloseSeriesBulk
  rw [hselected]

end Nivara.Analysis
