import Nivara.Intelligence.Benchmark
import Nivara.Lib.AsOf

/-!
# The window of a benchmark

`_fetch_endpoints_sync` (`services/benchmark.py`, lines 147–169) takes the first and the last close of a
window that starts five days before the period of `get_return`, while `benchmark_return_in_base` looks
the rates up as of the two ends of the period.

* An instant is its number of microseconds since the epoch. The clock is read twice: `now` by
  `get_return`, and then `end` by the fetch.
* A close is the decimal that the `repr` of the float writes; a `NaN` is `none`.
* `Ticker.history` is a parameter, with what is documented of it: the bars from `start` on and before
  `end`, in their order.

Results:

* `endpoints_eq_ok_iff`: which bars are taken.
* `anchored_iff`: when they are the bars as of the two ends of the period.
* `fiveDaysEarly`: a series without a gap, whose return is that of a longer period.
-/

namespace Nivara.Intelligence

open AsOf
open Portfolio (Instant)

/-! ## Model -/

/-- A row of the daily bars. -/
structure DailyBar where
  date : Instant
  close : Option ℚ
  deriving DecidableEq, Repr

/-- A `yfinance.Ticker` with the bars that its source has. -/
structure Ticker where
  bars : List DailyBar
  bars_sorted : bars.Pairwise fun a b => a.date < b.date
  history : (start stop : Instant) → List DailyBar
  history_eq : ∀ start stop, history start stop = bars.filter fun bar => start ≤ bar.date ∧ bar.date < stop

/-- What `_fetch_endpoints_sync` raises. -/
inductive FetchError
  | runtimeError (message : String)
  deriving DecidableEq, Repr

/-- `df["Close"].dropna()`. -/
def dropna (df : List DailyBar) : List (Instant × ℚ) :=
  df.filterMap fun bar => bar.close.map fun close => (bar.date, close)

/-- A day in microseconds. -/
def oneDay : ℤ := 86400000000

/-- The first and the last close of the window. -/
def Ticker.endpoints (ticker : Ticker) (symbol : BenchmarkSymbol) (periodDays : ℕ) (stop : Instant) :
    Except FetchError ((Instant × ℚ) × (Instant × ℚ)) :=
  let start := stop - (periodDays + 5) * oneDay
  let df := ticker.history start stop
  if df = [] then .error (.runtimeError ("no OHLCV returned for " ++ symbol.text))
  else
    match dropna df with
    | first :: second :: rest => .ok (first, (second :: rest).getLast (List.cons_ne_nil _ _))
    | closeSeries =>
      .error (.runtimeError s!"insufficient bars ({closeSeries.length}) for {symbol.text}")

/-- `_fetch_endpoints_sync`. -/
def Ticker.fetchEndpointsSync (ticker : Ticker) (symbol : BenchmarkSymbol) (periodDays : ℕ)
    (stop : Instant) : Except FetchError (ℚ × ℚ) :=
  (ticker.endpoints symbol periodDays stop).map fun (first, last) => (first.2, last.2)

/-- `get_return` on a cache miss. -/
def Ticker.getReturn (ticker : Ticker) (symbol : BenchmarkSymbol) (periodDays : ℕ) (now stop : Instant) :
    BenchmarkReturn :=
  Intelligence.getReturn (ticker.fetchEndpointsSync symbol periodDays stop).toOption symbol periodDays now

/-! ## Properties -/

/-- The closes of the source. -/
def Ticker.closes (ticker : Ticker) : List (Instant × ℚ) := dropna ticker.bars

/-- The closes of a return are those at or before the two ends of its period, at which the rates are looked
    up. -/
structure Anchored (ticker : Ticker) (symbol : BenchmarkSymbol) (periodDays : ℕ) (now stop : Instant)
    (first last : Instant × ℚ) : Prop where
  start : ∀ bar, asOf Prod.fst (ticker.getReturn symbol periodDays now stop).periodStart ticker.closes =
    some bar → first = bar
  stop : ∀ bar, asOf Prod.fst (ticker.getReturn symbol periodDays now stop).periodEnd ticker.closes =
    some bar → last = bar

/-! ## The bars of the window -/

section Window

variable {ticker : Ticker} {symbol : BenchmarkSymbol} {periodDays : ℕ} {now stop : Instant}
  {first last : Instant × ℚ}

theorem closes_sorted (ticker : Ticker) : ticker.closes.Pairwise fun a b => a.1 < b.1 := by
  unfold Ticker.closes dropna
  rw [List.pairwise_filterMap]
  refine ticker.bars_sorted.imp fun {a b} h x hx y hy => ?_
  obtain ⟨_, -, rfl⟩ := Option.map_eq_some_iff.mp hx
  obtain ⟨_, -, rfl⟩ := Option.map_eq_some_iff.mp hy
  exact h

/-- The closes of the window are those of the source in it. -/
theorem dropna_history (ticker : Ticker) (start stop : Instant) :
    dropna (ticker.history start stop) = window Prod.fst start stop ticker.closes := by
  rw [ticker.history_eq]
  unfold Ticker.closes dropna window
  induction ticker.bars with
  | nil => rfl
  | cons bar bars ih =>
    rw [List.filter_cons]
    cases hclose : bar.close with
    | none =>
      split_ifs
      · rw [List.filterMap_cons_none (by rw [hclose]; rfl),
          List.filterMap_cons_none (by rw [hclose]; rfl), ih]
      · rw [List.filterMap_cons_none (a := bar) (l := bars) (by rw [hclose]; rfl), ih]
    | some close =>
      rw [List.filterMap_cons_some (a := bar) (l := bars) (b := (bar.date, close)) (by rw [hclose]; rfl),
        List.filter_cons]
      split_ifs
      · rw [List.filterMap_cons_some (b := (bar.date, close)) (by rw [hclose]; rfl), ih]
      · exact ih

/-- The first and the last close are taken of a window that has two. -/
theorem endpoints_eq_ok_iff :
    ticker.endpoints symbol periodDays stop = .ok (first, last) ↔
      2 ≤ (window Prod.fst (stop - (periodDays + 5) * oneDay) stop ticker.closes).length ∧
        (window Prod.fst (stop - (periodDays + 5) * oneDay) stop ticker.closes).head? = some first ∧
        (window Prod.fst (stop - (periodDays + 5) * oneDay) stop ticker.closes).getLast? = some last := by
  unfold Ticker.endpoints
  dsimp only
  rw [← dropna_history]
  split_ifs with hempty
  · rw [hempty]
    exact iff_of_false (by simp) (by simp [dropna])
  rcases dropna (ticker.history (stop - (periodDays + 5) * oneDay) stop) with _ | ⟨a, _ | ⟨b, rest⟩⟩
  · simp
  · simp
  · simp [List.getLast?_eq_some_getLast]

end Window

/-! ## Main result -/

/-- A row that is to be the newest one, if there is one. -/
theorem forall_asOf_iff {rows : List (Instant × ℚ)} {t : Instant} {row : Instant × ℚ} :
    (∀ bar, asOf Prod.fst t rows = some bar → row = bar) ↔
      (∀ bar ∈ rows, t < bar.1) ∨ asOf Prod.fst t rows = some row := by
  rw [← asOf_eq_none_iff]
  cases asOf Prod.fst t rows with
  | none => simp
  | some bar => simp [eq_comm]

/-- The closes of a return are anchored at the ends of its period exactly when the window has fewer than
    two, so that there is no return, or else: one close, if any is old enough, lies from the start of the
    window to that of the period, and none lies between the two readings of the clock. -/
theorem anchored_iff (ticker : Ticker) (symbol : BenchmarkSymbol) (periodDays : ℕ) (now stop : Instant) :
    (∀ first last, ticker.endpoints symbol periodDays stop = .ok (first, last) →
        Anchored ticker symbol periodDays now stop first last) ↔
      (window Prod.fst (stop - (periodDays + 5) * oneDay) stop ticker.closes).length < 2 ∨
        ((∀ bar ∈ ticker.closes, now - periodDays * oneDay < bar.1) ∨
            (ticker.closes.filter fun bar => stop - (periodDays + 5) * oneDay ≤ bar.1 ∧
              bar.1 ≤ now - periodDays * oneDay).length = 1) ∧
          ((∀ bar ∈ ticker.closes, now < bar.1) ∨ ∀ bar ∈ ticker.closes, bar.1 ≤ now ↔ bar.1 < stop) := by
  have hsorted := closes_sorted ticker
  have hstart : (ticker.getReturn symbol periodDays now stop).periodStart = now - periodDays * oneDay := by
    unfold Ticker.getReturn getReturn
    cases (ticker.fetchEndpointsSync symbol periodDays stop).toOption <;> rfl
  have hend : (ticker.getReturn symbol periodDays now stop).periodEnd = now := by
    unfold Ticker.getReturn getReturn
    cases (ticker.fetchEndpointsSync symbol periodDays stop).toOption <;> rfl
  rcases Nat.lt_or_ge (window Prod.fst (stop - (periodDays + 5) * oneDay) stop ticker.closes).length 2 with
    hfew | htwo
  · refine iff_of_true (fun first last h => ?_) (.inl hfew)
    exact absurd (endpoints_eq_ok_iff.mp h).1 (not_le.mpr hfew)
  rw [or_iff_right (not_lt.mpr htwo)]
  have hne : window Prod.fst (stop - (periodDays + 5) * oneDay) stop ticker.closes ≠ [] :=
    List.ne_nil_of_length_pos (by omega)
  have hfirst := List.head?_eq_some_head hne
  have hlast := List.getLast?_eq_some_getLast hne
  have hok : ticker.endpoints symbol periodDays stop = .ok (_, _) :=
    endpoints_eq_ok_iff.mpr ⟨htwo, hfirst, hlast⟩
  have hparts : ∀ first last, Anchored ticker symbol periodDays now stop first last ↔
      (∀ bar, asOf Prod.fst (now - periodDays * oneDay) ticker.closes = some bar → first = bar) ∧
        ∀ bar, asOf Prod.fst now ticker.closes = some bar → last = bar := by
    intro first last
    rw [← hstart]
    nth_rewrite 3 [← hend]
    exact ⟨fun h => ⟨h.start, h.stop⟩, fun h => ⟨h.1, h.2⟩⟩
  rw [← asOf_eq_first_iff hsorted hfirst, ← asOf_eq_last_iff hsorted hlast, ← forall_asOf_iff,
    ← forall_asOf_iff, ← hparts]
  refine ⟨fun h => h _ _ hok, fun h first last hok' => ?_⟩
  cases hok.symm.trans hok'
  exact h

/-- A close for each day, one more than the day before. -/
def everyDay : Ticker where
  bars := (List.range 41).map fun i => ⟨i * oneDay, some (100 + i)⟩
  bars_sorted := by decide +kernel
  history start stop := ((List.range 41).map fun i => ⟨i * oneDay, some (100 + i)⟩).filter fun bar =>
    start ≤ bar.date ∧ bar.date < stop
  history_eq _ _ := rfl

/-- At noon of day 40, a return for 30 days starts with the close of day 6, and not with that of day 10. -/
theorem fiveDaysEarly :
    (everyDay.getReturn .sp500 30 (40 * oneDay + oneDay / 2) (40 * oneDay + oneDay / 2)).periodStart =
        10 * oneDay + oneDay / 2 ∧
      everyDay.endpoints .sp500 30 (40 * oneDay + oneDay / 2) =
        .ok ((6 * oneDay, 106), (40 * oneDay, 140)) ∧
      asOf Prod.fst (10 * oneDay + oneDay / 2) everyDay.closes = some (10 * oneDay, 110) ∧
      ¬ Anchored everyDay .sp500 30 (40 * oneDay + oneDay / 2) (40 * oneDay + oneDay / 2)
        (6 * oneDay, 106) (40 * oneDay, 140) := by
  have hstart : (everyDay.getReturn .sp500 30 (40 * oneDay + oneDay / 2)
      (40 * oneDay + oneDay / 2)).periodStart = 10 * oneDay + oneDay / 2 := by decide +kernel
  have hasOf : asOf Prod.fst (10 * oneDay + oneDay / 2) everyDay.closes = some (10 * oneDay, 110) := by
    decide +kernel
  refine ⟨hstart, by decide +kernel, hasOf, fun h => ?_⟩
  have hfirst := h.start (10 * oneDay, 110) (hstart ▸ hasOf)
  exact absurd hfirst (by decide +kernel)

end Nivara.Intelligence
