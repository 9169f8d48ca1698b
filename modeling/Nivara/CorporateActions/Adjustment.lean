import Nivara.CorporateActions.Service
import Nivara.Lib.Transition

/-!
# Adjusted prices

What the three functions should keep: the prices of a stored bar are the last ones
upserted for it, times the factors of the splits that have been applied since the
bar's day. Nothing in the tables says which bars a split has adjusted: a second
detection of a split is a new row without the marker, and an upsert overwrites.

* A `History` is the store with what has happened to it: the last prices upserted for
  each key, and the first applied detection of each (instrument, ex-date).

Results:

* `mem_upsert`: the rows of the table after an upsert.
* `adjusted_of_run`: in every run in which no applied split is applied again to a bar,
  no bar of an applied split is upserted, and no price is rounded, the stored prices
  are the raw ones times the factors.
-/

namespace Nivara.CorporateActions

open Transition

/-! ## Rows -/

/-- The `UPDATE` keeps the key and stores the scaled prices. -/
theorem PriceHistory.stored_of_adjust {factor : ℚ} {row row' : PriceHistory}
    (h : row.adjust factor = .ok row') :
    row'.key = row.key ∧ (row.ohlc.scale factor).stored = .ok row'.ohlc := by
  unfold PriceHistory.adjust at h
  obtain ⟨p, hp, h⟩ := Loop.of_bind_eq_ok h
  obtain ⟨volume, -, h⟩ := Loop.of_bind_eq_ok h
  cases h
  exact ⟨rfl, hp⟩

/-- An adjusted row has the scaled prices when the columns hold them. -/
theorem PriceHistory.of_adjust {factor : ℚ} {row row' : PriceHistory}
    (h : row.adjust factor = .ok row') :
    row'.key = row.key ∧ ((row.ohlc.scale factor).Fits → row'.ohlc = row.ohlc.scale factor) :=
  (PriceHistory.stored_of_adjust h).imp_right OHLC.stored_eq_ok

/-- The row of a bar has its prices when the columns hold them. -/
theorem OHLCVBar.of_toRow {instrumentId : UUID} {bar : OHLCVBar} {row : PriceHistory}
    (h : bar.toRow instrumentId = .ok row) :
    row.key = (instrumentId, bar.timestamp) ∧ (bar.ohlc.Fits → row.ohlc = bar.ohlc) := by
  unfold OHLCVBar.toRow at h
  obtain ⟨p, hp, h⟩ := Loop.of_bind_eq_ok h
  obtain ⟨volume, -, h⟩ := Loop.of_bind_eq_ok h
  cases h
  exact ⟨rfl, OHLC.stored_eq_ok hp⟩

/-! ## Histories -/

/-- `(instrument_id, ex_date)`. -/
def SplitDetection.key (d : SplitDetection) : UUID × Date := (d.instrumentId, d.exDate)

/-- The store and what has happened to it. -/
structure History where
  store : Store
  /-- The prices last upserted for a key. -/
  raw : UUID × Instant → Option OHLC
  /-- The splits that have been applied, one for each (instrument, ex-date). -/
  applied : List SplitDetection

/-- A call. -/
inductive Operation
  | detect (newId instrumentId : UUID) (exDate : Date) (factor : ℚ) (currency notes : Option String)
  | apply (d : SplitDetection) (userId : Option UUID)
  | upsert (instrumentId : UUID) (bars : List OHLCVBar)

namespace History

/-- The product of the factors of the applied splits that cover a bar. -/
def factorAt (historyDays : ℤ) (h : History) (key : UUID × Instant) : ℚ :=
  ((h.applied.filter fun d => d.Covers historyDays key).map SplitDetection.factor).prod

/-- A split is applied: its (instrument, ex-date) counts once. -/
def recordApplied (h : History) (d : SplitDetection) : List SplitDetection :=
  if h.applied.any fun e => e.key = d.key then h.applied else h.applied ++ [d]

/-- Bars are upserted. -/
def recordRaw (h : History) (instrumentId : UUID) (bars : List OHLCVBar) (key : UUID × Instant) :
    Option OHLC :=
  (Keyed.lastFor (bars.map fun bar => ((instrumentId, bar.timestamp), bar.ohlc)) key).or (h.raw key)

/-- One call. A call that raises changes nothing. -/
def step (historyDays : ℤ) (h : History) : Operation → History
  | .detect newId instrumentId exDate factor currency notes =>
    match detectFromAdjustmentFactor h.store newId instrumentId exDate factor currency notes with
    | .error _ => h
    | .ok (store, _) => { h with store := store }
  | .apply d userId =>
    match applySplit historyDays h.store d userId with
    | .error _ => h
    | .ok (store, _) =>
      { h with store := store, applied := if h.store.marked d then h.applied else h.recordApplied d }
  | .upsert instrumentId bars =>
    match upsertOhlcv h.store instrumentId bars with
    | .error _ => h
    | .ok (store, _) => { h with store := store, raw := h.recordRaw instrumentId bars }

/-- The stored prices are the last raw prices times the factors of the applied splits
    that cover the bar. -/
def Adjusted (historyDays : ℤ) (h : History) : Prop :=
  ∀ row ∈ h.store.prices, ∃ raw, h.raw row.key = some raw ∧
    row.ohlc = raw.scale (h.factorAt historyDays row.key)

/-- The condition on a call: a split that adjusts a bar has not been applied before,
    no bar is upserted whose applied factors make a difference, and the columns hold
    the prices that are written. -/
def KeepsAdjusted (historyDays : ℤ) (h : History) : Operation → Prop
  | .detect _ _ _ _ _ _ => True
  | .apply d _ => h.store.marked d = false →
    ∀ row ∈ h.store.prices, d.Covers historyDays row.key →
      (∀ e ∈ h.applied, e.key ≠ d.key) ∧ (row.ohlc.scale d.factor).Fits
  | .upsert instrumentId bars =>
    ∀ bar ∈ bars, h.factorAt historyDays (instrumentId, bar.timestamp) = 1 ∧ bar.ohlc.Fits

end History

instance (historyDays : ℤ) (h : History) (op : Operation) : Decidable (h.KeepsAdjusted historyDays op) :=
  match op with
  | .detect _ _ _ _ _ _ => inferInstanceAs (Decidable True)
  | .apply d _ => inferInstanceAs (Decidable (h.store.marked d = false →
      ∀ row ∈ h.store.prices, d.Covers historyDays row.key →
        (∀ e ∈ h.applied, e.key ≠ d.key) ∧ (row.ohlc.scale d.factor).Fits))
  | .upsert instrumentId bars => inferInstanceAs (Decidable (∀ bar ∈ bars,
      h.factorAt historyDays (instrumentId, bar.timestamp) = 1 ∧ bar.ohlc.Fits))

/-- No bar is stored and no split applied. -/
def History.initial (actions : List CorporateAction) (audit : List AuditLog) (cache : List String) :
    History := ⟨⟨[], actions, audit, cache⟩, fun _ => none, []⟩

variable {historyDays : ℤ} {h h' : History} {d : SplitDetection}

/-! ## One call -/

theorem upsertRow_eq (prices : List PriceHistory) (row : PriceHistory) :
    upsertRow prices row = Keyed.upsert PriceHistory.key row prices := rfl

theorem mem_upsertRow {prices : List PriceHistory} {row r : PriceHistory}
    (hr : r ∈ upsertRow prices row) : r = row ∨ (r ∈ prices ∧ row.key ≠ r.key) := by
  rw [upsertRow_eq, Keyed.mem_upsert] at hr
  exact hr.imp_right fun ⟨hold, hk⟩ => ⟨hold, Ne.symm hk⟩

/-- A row of the table after an upsert is a new one, or an old one with another key. -/
theorem mem_upsert {rows prices : List PriceHistory} {r : PriceHistory}
    (hr : r ∈ rows.foldl upsertRow prices) :
    r ∈ rows ∨ (r ∈ prices ∧ ∀ row ∈ rows, row.key ≠ r.key) := by
  induction rows generalizing prices with
  | nil => exact .inr ⟨hr, by simp⟩
  | cons row rows ih =>
    rcases ih hr with hmem | ⟨hmem, hne⟩
    · exact .inl (List.mem_cons_of_mem _ hmem)
    · rcases mem_upsertRow hmem with rfl | ⟨hold, hrow⟩
      · exact .inl (by simp)
      · exact .inr ⟨hold, by simpa using ⟨hrow, hne⟩⟩

/-- The factor of a bar once one more split is applied. -/
theorem History.factorAt_append (key : UUID × Instant) :
    History.factorAt historyDays { h with applied := h.applied ++ [d] } key =
      h.factorAt historyDays key * if d.Covers historyDays key then d.factor else 1 := by
  unfold History.factorAt
  rw [List.filter_append, List.map_append, List.prod_append]
  by_cases hc : d.Covers historyDays key <;> simp [hc]

/-- A bar that the split does not cover keeps its factor. -/
theorem History.factorAt_recordApplied {store : Store} {key : UUID × Instant}
    (hc : ¬ d.Covers historyDays key) :
    History.factorAt historyDays { h with store := store, applied := h.recordApplied d } key =
      h.factorAt historyDays key := by
  unfold History.recordApplied
  split_ifs
  · rfl
  · exact (History.factorAt_append key).trans (by rw [if_neg hc, mul_one])

/-- A bar that a new split covers gets its factor. -/
theorem History.factorAt_recordApplied_of_covers {store : Store} {key : UUID × Instant}
    (hc : d.Covers historyDays key) (hnew : ∀ e ∈ h.applied, e.key ≠ d.key) :
    History.factorAt historyDays { h with store := store, applied := h.recordApplied d } key =
      h.factorAt historyDays key * d.factor := by
  have hany : ¬ (h.applied.any fun e => e.key = d.key) := by
    simpa using hnew
  unfold History.recordApplied
  rw [if_neg hany]
  exact (History.factorAt_append key).trans (by rw [if_pos hc])

/-- `apply_split` keeps the prices adjusted. -/
theorem History.Adjusted.apply (hadj : h.Adjusted historyDays) {userId : Option UUID}
    (hcond : h.KeepsAdjusted historyDays (.apply d userId)) :
    (h.step historyDays (.apply d userId)).Adjusted historyDays := by
  cases hres : applySplit historyDays h.store d userId with
  | error e => simpa only [History.step, hres] using hadj
  | ok result =>
    obtain ⟨store, n⟩ := result
    simp only [History.step, hres]
    obtain ⟨row, hrow, ⟨happ, rfl, rfl⟩ | ⟨happ, prices, hprices, rfl⟩⟩ := applySplit_cases hres
    · have hmarked : h.store.marked d = true := by simp [Store.marked, hrow, happ]
      simp only [hmarked, if_true]
      exact hadj
    · have hmarked : h.store.marked d = false := by simp [Store.marked, hrow, happ]
      simp only [hmarked, Bool.false_eq_true, if_false]
      intro r' hr'
      obtain ⟨-, hforall⟩ := adjustPrices_eq_ok hprices
      obtain ⟨r, hr, hrr'⟩ := Loop.exists_mem_of_forall₂ hforall hr'
      obtain ⟨raw, hraw, hohlc⟩ := hadj r hr
      by_cases hc : d.Covers historyDays r.key
      · obtain ⟨hnew, hfits⟩ := hcond hmarked r hr hc
        rw [if_pos hc] at hrr'
        obtain ⟨hkey, hscaled⟩ := PriceHistory.of_adjust hrr'
        refine ⟨raw, by rw [hkey]; exact hraw, ?_⟩
        rw [hscaled hfits, hohlc, OHLC.scale_scale, hkey,
          History.factorAt_recordApplied_of_covers hc hnew]
      · rw [if_neg hc] at hrr'
        cases hrr'
        exact ⟨raw, hraw, by rw [hohlc, History.factorAt_recordApplied hc]⟩

/-- What a new row holds: the prices of its bar, which are the last upserted for its
    key. -/
theorem History.recordRaw_of_mem {instrumentId : UUID} {bars : List OHLCVBar} {rows : List PriceHistory}
    (hforall : List.Forall₂ (fun bar row => bar.toRow instrumentId = .ok row) bars rows)
    (hnd : (rows.map PriceHistory.key).Nodup) {bar : OHLCVBar} (hbar : bar ∈ bars) :
    h.recordRaw instrumentId bars (instrumentId, bar.timestamp) = some bar.ohlc := by
  have hkeys : (bars.map fun bar => ((instrumentId, bar.timestamp), bar.ohlc)).map Prod.fst =
      rows.map PriceHistory.key := by
    rw [List.map_map]
    clear hnd hbar
    induction hforall with
    | nil => rfl
    | cons hrow _ ih => rw [List.map_cons, List.map_cons, ih, (OHLCVBar.of_toRow hrow).1]; rfl
  have hmem : ((instrumentId, bar.timestamp), bar.ohlc) ∈
      bars.map fun bar => ((instrumentId, bar.timestamp), bar.ohlc) := List.mem_map.mpr ⟨bar, hbar, rfl⟩
  unfold History.recordRaw
  rw [Keyed.lastFor_of_mem (by rw [hkeys]; exact hnd) hmem]
  rfl

/-- A key that no new row has keeps its raw prices. -/
theorem History.recordRaw_of_ne {instrumentId : UUID} {bars : List OHLCVBar} {rows : List PriceHistory}
    (hforall : List.Forall₂ (fun bar row => bar.toRow instrumentId = .ok row) bars rows)
    {key : UUID × Instant} (hne : ∀ row ∈ rows, row.key ≠ key) :
    h.recordRaw instrumentId bars key = h.raw key := by
  have hnone : Keyed.lastFor (bars.map fun bar => ((instrumentId, bar.timestamp), bar.ohlc)) key = none := by
    rw [Keyed.lastFor_eq_none, List.map_map]
    intro hmem
    obtain ⟨bar, hbar, hkey⟩ := List.mem_map.mp hmem
    obtain ⟨row, hrow, hto⟩ := Loop.exists_mem_of_forall₂ hforall.flip hbar
    exact hne row hrow ((OHLCVBar.of_toRow hto).1.trans hkey)
  unfold History.recordRaw
  rw [hnone]
  rfl

/-- `upsert_ohlcv` keeps the prices adjusted. -/
theorem History.Adjusted.upsert (hadj : h.Adjusted historyDays) {instrumentId : UUID}
    {bars : List OHLCVBar} (hcond : h.KeepsAdjusted historyDays (.upsert instrumentId bars)) :
    (h.step historyDays (.upsert instrumentId bars)).Adjusted historyDays := by
  cases hres : upsertOhlcv h.store instrumentId bars with
  | error e => simpa only [History.step, hres] using hadj
  | ok result =>
    obtain ⟨store, n⟩ := result
    simp only [History.step, hres]
    unfold upsertOhlcv at hres
    split_ifs at hres with hbars
    · cases hres
      subst hbars
      exact hadj
    · obtain ⟨rows, hrows, hres⟩ := Loop.of_bind_eq_ok hres
      split_ifs at hres with hnd
      cases hres
      have hforall := Loop.forall₂_of_mapM (of_mapError_eq_ok hrows)
      intro r hr
      rcases mem_upsert hr with hnew | ⟨hold, hne⟩
      · obtain ⟨bar, hbar, hto⟩ := Loop.exists_mem_of_forall₂ hforall hnew
        obtain ⟨hkey, hohlc⟩ := OHLCVBar.of_toRow hto
        obtain ⟨hone, hfits⟩ := hcond bar hbar
        refine ⟨bar.ohlc, ?_, ?_⟩
        · rw [hkey]
          exact History.recordRaw_of_mem hforall hnd hbar
        · have hfactor : History.factorAt historyDays { h with
              store := { h.store with prices := rows.foldl upsertRow h.store.prices }
              raw := h.recordRaw instrumentId bars } r.key = 1 := by
            rw [hkey]
            exact hone
          rw [hfactor, OHLC.scale_one]
          exact hohlc hfits
      · obtain ⟨raw, hraw, hohlc⟩ := hadj r hold
        exact ⟨raw, (History.recordRaw_of_ne hforall hne).trans hraw, hohlc⟩

/-- `detect_from_adjustment_factor` changes no price. -/
theorem detectFromAdjustmentFactor_prices {s s' : Store} {newId instrumentId : UUID} {exDate : Date}
    {factor : ℚ} {currency notes : Option String} {detection : Option SplitDetection}
    (hres : detectFromAdjustmentFactor s newId instrumentId exDate factor currency notes =
      .ok (s', detection)) : s'.prices = s.prices := by
  unfold detectFromAdjustmentFactor at hres
  split_ifs at hres
  · cases hres
    rfl
  · obtain ⟨ratio, -, hres⟩ := Loop.of_bind_eq_ok hres
    cases hres
    rfl

/-- One call keeps the prices adjusted. -/
theorem History.Adjusted.step (hadj : h.Adjusted historyDays) {op : Operation}
    (hcond : h.KeepsAdjusted historyDays op) : (h.step historyDays op).Adjusted historyDays := by
  cases op with
  | detect newId instrumentId exDate factor currency notes =>
    cases hres : detectFromAdjustmentFactor h.store newId instrumentId exDate factor currency notes with
    | error e => simpa only [History.step, hres] using hadj
    | ok result =>
      obtain ⟨store, detection⟩ := result
      simp only [History.step, hres]
      intro row hrow
      exact hadj row (detectFromAdjustmentFactor_prices hres ▸ hrow)
  | apply d userId => exact hadj.apply hcond
  | upsert instrumentId bars => exact hadj.upsert hcond

/-! ## Runs -/

/-- In every run whose calls meet the condition, from a store without bars: the prices
    of each stored bar are the last raw ones times the factors of the splits that have
    been applied and cover it. -/
theorem adjusted_of_run (actions : List CorporateAction) (audit : List AuditLog) (cache : List String)
    (hrun : Run (fun h op h' => h.step historyDays op = h') (fun h op => h.KeepsAdjusted historyDays op)
      (History.initial actions audit cache) h) : h.Adjusted historyDays := by
  refine hrun.invariant ?_ fun _ _ _ hadj hcond hstep => hstep ▸ hadj.step hcond
  intro row hrow
  cases hrow

/-- The bar of the day before a 2-for-1 split. -/
def upsertBar : Operation := .upsert 1 [⟨Date.midnight 739715, 100, 104, 96, 102, 1000⟩]

/-- The split is detected as the action `id`. -/
def detectSplit (id : UUID) : Operation := .detect id 1 739716 (1 / 2) none none

def applyDetected (id : UUID) : Operation := .apply ⟨1, 739716, 1 / 2, id⟩ none

/-- The states of a run from empty tables. -/
def after (ops : List Operation) : History := ops.foldl (History.step 730) (History.initial [] [] [])

/-- A split that is detected once and applied. -/
theorem adjusted_of_run_sample : (after [upsertBar, detectSplit 7, applyDetected 7]).Adjusted 730 := by
  have h₁ : Run (fun h op h' => History.step 730 h op = h') (fun h op => h.KeepsAdjusted 730 op)
      (after []) (after [upsertBar]) := .tail upsertBar .refl (by decide +kernel) rfl
  have h₂ : Run (fun h op h' => History.step 730 h op = h') (fun h op => h.KeepsAdjusted 730 op)
      (after []) (after [upsertBar, detectSplit 7]) := .tail (detectSplit 7) h₁ (by decide +kernel) rfl
  exact adjusted_of_run [] [] [] (.tail (applyDetected 7) h₂ (by decide +kernel) rfl)

/-- The split is detected and applied a second time: the bar that opened at 100 opens
    at 25. -/
theorem repeated_detection_adjusts_twice :
    ¬ ∀ h, Run (fun h op h' => History.step 730 h op = h') Unconditional (History.initial [] [] []) h →
      h.Adjusted 730 := by
  intro hall
  have h₁ : Run (fun h op h' => History.step 730 h op = h') Unconditional
      (after []) (after [upsertBar]) := .tail upsertBar .refl trivial rfl
  have h₂ : Run (fun h op h' => History.step 730 h op = h') Unconditional
      (after []) (after [upsertBar, detectSplit 7, applyDetected 7]) :=
    .tail (applyDetected 7) (.tail (detectSplit 7) h₁ trivial rfl) trivial rfl
  have hadj := hall (after [upsertBar, detectSplit 7, applyDetected 7, detectSplit 8, applyDetected 8])
    (.tail (applyDetected 8) (.tail (detectSplit 8) h₂ trivial rfl) trivial rfl)
  obtain ⟨raw, hraw, hohlc⟩ := hadj ⟨1, Date.midnight 739715, 25, 26, 24, 51 / 2, 4000⟩ (by decide +kernel)
  have hbar : (after [upsertBar, detectSplit 7, applyDetected 7, detectSplit 8, applyDetected 8]).raw
      (1, Date.midnight 739715) = some ⟨100, 104, 96, 102⟩ := by decide +kernel
  have hraw : raw = ⟨100, 104, 96, 102⟩ := Option.some.inj (hraw.symm.trans hbar)
  subst hraw
  exact absurd hohlc (by decide +kernel)

end Nivara.CorporateActions
