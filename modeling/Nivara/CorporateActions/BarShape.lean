import Nivara.CorporateActions.Adjustment
import Nivara.Portfolio.Session

/-!
# The shape of an adjusted bar

What `apply_split` makes of a bar whose prices are positive, with the low at most and the high at
least the open and the close. Its factor is one that a detector has recorded:
`detect_from_adjustment_factor` records every factor but 1, and `detect_broker_position_anomaly`
(`services/corporate_actions.py`, lines 153–223) a quotient of two quantities with their signs.

* A `Desk` is the store with the detections that can be handed to `apply_split`: those that the first
  detector returns, and those that the rows of the table stand for.
* How a quantity is printed in the notes is a parameter.

Results:

* `OHLC.wellFormed_stored_iff`: which factors keep the shape of a bar.
* `applySplit_keepsShape_iff`: which calls keep the shape of every bar.
* `keepsShape_of_run`: in every run of such calls, every bar keeps its shape.
-/

namespace Nivara.CorporateActions

open Transition

/-! ## `detect_broker_position_anomaly` -/

/-- `observed.date()`. -/
def Instant.date (t : Instant) : Date := t / 86400000000 + 719163

/-- `Order`, with the time it was created at. -/
structure DatedOrder extends Portfolio.Order where
  createdAt : Instant

/-- `QtyAnomaly`. -/
structure QtyAnomaly where
  instrumentId : UUID
  brokerConnectionId : UUID
  observedAt : Instant
  previousQty : ℚ
  newQty : ℚ
  corporateActionId : UUID
  deriving DecidableEq, Repr

/-- `QTY_ANOMALY_TOLERANCE`. -/
def qtyAnomalyTolerance : ℚ := 1 / 10 ^ 8

/-- `FLAGGED_MARKER`. -/
def flaggedMarker : String := "[flagged:qty-anomaly]"

/-- `order_delta` (lines 176–190). -/
def orderDelta (orders : List DatedOrder) (brokerConnectionId instrumentId : UUID)
    (previousSyncedAt observed : Instant) : ℚ :=
  let covering := orders.filter fun o =>
    o.brokerConnectionId = brokerConnectionId ∧ o.instrumentId = instrumentId ∧
      (o.status = .filled ∨ o.status = .partiallyFilled) ∧ previousSyncedAt ≤ o.createdAt ∧
      o.createdAt ≤ observed
  covering.foldl (fun delta o => Decimal.add delta (if o.side = .buy then o.quantity else -o.quantity)) 0

/-- The arguments of `detect_broker_position_anomaly`. -/
structure PositionReport where
  brokerConnectionId : UUID
  instrumentId : UUID
  previousQty : ℚ
  newQty : ℚ
  previousSyncedAt : Instant
  observed : Instant

/-- `detect_broker_position_anomaly`. -/
def detectBrokerPositionAnomaly (text : ℚ → String) (orders : List DatedOrder) (s : Store) (newId : UUID)
    (r : PositionReport) : Except ServiceError (Store × Option QtyAnomaly) :=
  let positionDelta := Decimal.subtract r.newQty r.previousQty
  if |positionDelta| ≤ qtyAnomalyTolerance then .ok (s, none)
  else
    let delta := orderDelta orders r.brokerConnectionId r.instrumentId r.previousSyncedAt r.observed
    -- orders explain the change
    if |Decimal.subtract positionDelta delta| ≤ qtyAnomalyTolerance then .ok (s, none)
    else if s.actions.any fun a => a.id = newId then .error .uniqueViolation
    else
      let notes := s!"{flaggedMarker} prev={text r.previousQty} new={text r.newQty}"
      ((Decimal.numeric (if r.newQty ≠ 0 then Decimal.divide r.previousQty r.newQty else 1)).mapError
          .data).bind fun ratio =>
        .ok ({ s with actions :=
            s.actions ++ [⟨newId, r.instrumentId, r.observed.date, ratio, none, some notes⟩] },
          some ⟨r.instrumentId, r.brokerConnectionId, r.observed, r.previousQty, r.newQty, newId⟩)

/-! ## Detections and splits in turn -/

/-- The detection that a row of the table stands for. -/
def CorporateAction.detection (row : CorporateAction) : SplitDetection :=
  ⟨row.instrumentId, row.exDate, row.ratioOrAmount, row.id⟩

/-- The store, and the detections that have been recorded. -/
structure Desk where
  store : Store
  recorded : List SplitDetection

/-- A call. -/
inductive DeskCall
  | detect (newId instrumentId : UUID) (exDate : Date) (factor : ℚ) (currency notes : Option String)
  | anomaly (text : ℚ → String) (orders : List DatedOrder) (newId : UUID) (r : PositionReport)
  | apply (d : SplitDetection) (userId : Option UUID)

namespace Desk

/-- The store after a detector has run, with what it has recorded. -/
def record (desk : Desk) (store : Store) (returned : Option SplitDetection) : Desk where
  store := store
  recorded := desk.recorded ++ returned.toList ++
    (store.actions.drop desk.store.actions.length).map CorporateAction.detection

/-- One call. A call that raises changes nothing, and only what is recorded is applied. -/
def step (historyDays : ℤ) (desk : Desk) : DeskCall → Option Desk
  | .detect newId instrumentId exDate factor currency notes =>
    match detectFromAdjustmentFactor desk.store newId instrumentId exDate factor currency notes with
    | .error _ => some desk
    | .ok (store, detection) => some (desk.record store detection)
  | .anomaly text orders newId r =>
    match detectBrokerPositionAnomaly text orders desk.store newId r with
    | .error _ => some desk
    | .ok (store, _) => some (desk.record store none)
  | .apply d userId =>
    if d ∈ desk.recorded then
      match applySplit historyDays desk.store d userId with
      | .error _ => some desk
      | .ok (store, _) => some { desk with store := store }
    else none

end Desk

/-! ## The shape of a bar -/

/-- Positive prices, with the open and the close between the low and the high. -/
structure OHLC.WellFormed (p : OHLC) : Prop where
  low_pos : 0 < p.low
  low_le_open : p.low ≤ p.open_
  low_le_close : p.low ≤ p.close
  open_le_high : p.open_ ≤ p.high
  close_le_high : p.close ≤ p.high

instance (p : OHLC) : Decidable p.WellFormed :=
  decidable_of_iff (0 < p.low ∧ p.low ≤ p.open_ ∧ p.low ≤ p.close ∧ p.open_ ≤ p.high ∧ p.close ≤ p.high)
    ⟨fun ⟨h₁, h₂, h₃, h₄, h₅⟩ => ⟨h₁, h₂, h₃, h₄, h₅⟩, fun ⟨h₁, h₂, h₃, h₄, h₅⟩ => ⟨h₁, h₂, h₃, h₄, h₅⟩⟩

/-- The bars of a table, and what has become of them: each has its shape if it had it. -/
def KeepsShape (before after : List PriceHistory) : Prop :=
  List.Forall₂ (fun row row' => row'.key = row.key ∧ (row.ohlc.WellFormed → row'.ohlc.WellFormed))
    before after

/-- The condition on a call: the low of each bar that is adjusted, times the factor, is at least half
    a unit of the last decimal of its column. The factor is then positive. -/
def Desk.PositiveLows (historyDays : ℤ) (desk : Desk) : DeskCall → Prop
  | .apply d _ => desk.store.marked d = false →
    ∀ row ∈ desk.store.prices, d.Covers historyDays row.key → row.ohlc.WellFormed →
      1 / 2 ≤ row.low * d.factor * 10 ^ 8
  | _ => True

/-! ## One bar -/

variable {historyDays : ℤ} {d : SplitDetection} {s s' : Store} {p q : OHLC} {factor : ℚ}

/-- The columns hold a scaled bar in its shape exactly when its low is not rounded away. -/
theorem OHLC.wellFormed_stored_iff (hp : p.WellFormed) (h : (p.scale factor).stored = .ok q) :
    q.WellFormed ↔ 1 / 2 ≤ p.low * factor * 10 ^ 8 := by
  unfold OHLC.stored at h
  obtain ⟨open_, hopen, h⟩ := Loop.of_bind_eq_ok h
  obtain ⟨high, hhigh, h⟩ := Loop.of_bind_eq_ok h
  obtain ⟨low, hlow, h⟩ := Loop.of_bind_eq_ok h
  obtain ⟨close, hclose, h⟩ := Loop.of_bind_eq_ok h
  cases h
  have hpos : 0 < low ↔ 1 / 2 ≤ p.low * factor * 10 ^ 8 := Decimal.numeric_pos_iff hlow
  constructor
  · intro hq
    exact hpos.mp hq.low_pos
  · intro hhalf
    have hfactor : 0 ≤ factor := by
      by_contra hneg
      have hle : p.low * factor ≤ 0 := mul_nonpos_of_nonneg_of_nonpos hp.low_pos.le (not_le.mp hneg).le
      linarith
    have hmono : ∀ {x y : ℚ}, x ≤ y → x * factor ≤ y * factor := fun h => mul_le_mul_of_nonneg_right h hfactor
    exact
      { low_pos := hpos.mpr hhalf
        low_le_open := Decimal.numeric_mono hlow hopen (hmono hp.low_le_open)
        low_le_close := Decimal.numeric_mono hlow hclose (hmono hp.low_le_close)
        open_le_high := Decimal.numeric_mono hopen hhigh (hmono hp.open_le_high)
        close_le_high := Decimal.numeric_mono hclose hhigh (hmono hp.close_le_high) }

/-- What the `UPDATE` makes of a bar, as far as its shape goes. -/
theorem PriceHistory.wellFormed_adjust_iff {row row' : PriceHistory} (hrow : row.ohlc.WellFormed)
    (h : row.adjust factor = .ok row') :
    row'.key = row.key ∧ (row'.ohlc.WellFormed ↔ 1 / 2 ≤ row.low * factor * 10 ^ 8) :=
  (PriceHistory.stored_of_adjust h).imp_right (OHLC.wellFormed_stored_iff hrow)

/-! ## One call -/

theorem KeepsShape.refl (rows : List PriceHistory) : KeepsShape rows rows :=
  List.forall₂_same.mpr fun _ _ => ⟨rfl, id⟩

theorem KeepsShape.of_eq {rows rows' : List PriceHistory} (h : rows' = rows) : KeepsShape rows rows' := by
  rw [h]
  exact .refl _

theorem KeepsShape.trans {a b c : List PriceHistory} (hab : KeepsShape a b) (hbc : KeepsShape b c) :
    KeepsShape a c := by
  unfold KeepsShape at *
  induction hab generalizing c with
  | nil =>
    cases hbc
    exact .nil
  | cons hrow _ ih =>
    cases hbc with
    | cons hrow' hrows' =>
      exact .cons ⟨hrow'.1.trans hrow.1, fun h => hrow'.2 (hrow.2 h)⟩ (ih hrows')

/-- Rows that keep their shape exactly when they meet a condition. -/
theorem keepsShape_iff {P : PriceHistory → Prop} {rows rows' : List PriceHistory}
    (h : List.Forall₂ (fun row row' => row'.key = row.key ∧
      (row.ohlc.WellFormed → (row'.ohlc.WellFormed ↔ P row))) rows rows') :
    KeepsShape rows rows' ↔ ∀ row ∈ rows, row.ohlc.WellFormed → P row := by
  unfold KeepsShape
  induction h with
  | nil => simp
  | cons hrow _ ih =>
    rw [List.forall₂_cons, ih, List.forall_mem_cons]
    refine and_congr_left fun _ => ⟨fun ⟨_, h⟩ hshape => (hrow.2 hshape).mp (h hshape), fun h => ?_⟩
    exact ⟨hrow.1, fun hshape => (hrow.2 hshape).mpr (h hshape)⟩

/-- A call of `apply_split` keeps the shape of every bar exactly under the condition. -/
theorem applySplit_keepsShape_iff {userId : Option UUID} {n : ℕ}
    (h : applySplit historyDays s d userId = .ok (s', n)) :
    KeepsShape s.prices s'.prices ↔
      (s.marked d = false → ∀ row ∈ s.prices, d.Covers historyDays row.key → row.ohlc.WellFormed →
        1 / 2 ≤ row.low * d.factor * 10 ^ 8) := by
  obtain ⟨row, hrow, ⟨happ, hs, -⟩ | ⟨happ, prices, hprices, rfl⟩⟩ := applySplit_cases h
  · have hmarked : s.marked d = true := by simp [Store.marked, hrow, happ]
    rw [hs]
    exact iff_of_true (KeepsShape.refl s.prices) fun hfalse => absurd (hmarked.symm.trans hfalse) (by decide)
  · have hmarked : s.marked d = false := by simp [Store.marked, hrow, happ]
    obtain ⟨-, hforall⟩ := adjustPrices_eq_ok hprices
    have hiff : KeepsShape s.prices prices ↔ ∀ row ∈ s.prices, row.ohlc.WellFormed →
        d.Covers historyDays row.key → 1 / 2 ≤ row.low * d.factor * 10 ^ 8 := by
      refine keepsShape_iff (hforall.imp fun row row' hrow => ?_)
      by_cases hc : d.Covers historyDays row.key
      · rw [if_pos hc] at hrow
        refine ⟨(PriceHistory.of_adjust hrow).1, fun hshape => ?_⟩
        rw [(PriceHistory.wellFormed_adjust_iff hshape hrow).2]
        exact ⟨fun h _ => h, fun h => h hc⟩
      · rw [if_neg hc] at hrow
        cases hrow
        exact ⟨rfl, fun hshape => iff_of_true hshape fun h => absurd h hc⟩
    refine hiff.trans ⟨fun h _ row hmem hc hshape => h row hmem hshape hc, fun h row hmem hshape hc => ?_⟩
    exact h hmarked row hmem hc hshape

theorem detectBrokerPositionAnomaly_prices {text : ℚ → String} {orders : List DatedOrder} {newId : UUID}
    {r : PositionReport} {anomaly : Option QtyAnomaly}
    (h : detectBrokerPositionAnomaly text orders s newId r = .ok (s', anomaly)) : s'.prices = s.prices := by
  unfold detectBrokerPositionAnomaly at h
  dsimp only at h
  split at h
  · cases h
    rfl
  split at h
  · cases h
    rfl
  split at h
  · cases h
  · obtain ⟨ratio, -, h⟩ := Loop.of_bind_eq_ok h
    cases h
    rfl

/-- One call that meets the condition keeps the shape of every bar. -/
theorem Desk.keepsShape_step {desk desk' : Desk} {call : DeskCall}
    (hcond : desk.PositiveLows historyDays call) (hstep : desk.step historyDays call = some desk') :
    KeepsShape desk.store.prices desk'.store.prices := by
  cases call with
  | detect newId instrumentId exDate factor currency notes =>
    unfold Desk.step at hstep
    dsimp only at hstep
    split at hstep
    next => cases hstep; exact .refl _
    next store detection hdetect =>
      cases hstep
      exact .of_eq (detectFromAdjustmentFactor_prices hdetect)
  | anomaly text orders newId r =>
    unfold Desk.step at hstep
    dsimp only at hstep
    split at hstep
    next => cases hstep; exact .refl _
    next store detection hdetect =>
      cases hstep
      exact .of_eq (detectBrokerPositionAnomaly_prices hdetect)
  | apply d userId =>
    unfold Desk.step at hstep
    dsimp only at hstep
    split_ifs at hstep
    split at hstep
    next => cases hstep; exact .refl _
    next store n happly =>
      cases hstep
      exact (applySplit_keepsShape_iff happly).mpr hcond

/-! ## Runs -/

/-- In every run of detections and of splits with recorded factors that meet the condition: a bar
    with positive prices, the open and the close between the low and the high, stays one. -/
theorem keepsShape_of_run {start desk : Desk}
    (hrun : Run (fun desk call desk' => desk.step historyDays call = some desk')
      (fun desk call => desk.PositiveLows historyDays call) start desk) :
    KeepsShape start.store.prices desk.store.prices :=
  hrun.invariant (I := fun desk => KeepsShape start.store.prices desk.store.prices) (.refl _)
    fun _ _ _ h hcond hstep => h.trans (Desk.keepsShape_step hcond hstep)

/-- A bar of the day before a split, and no detection. -/
def barBeforeSplit : Desk := ⟨⟨[⟨1, Date.midnight 739715, 100, 104, 96, 102, 1000⟩], [], [], []⟩, []⟩

/-- A split with a factor is detected and applied. -/
def detectAndApply (factor : ℚ) : List DeskCall :=
  [.detect 7 1 739716 factor none none, .apply ⟨1, 739716, factor, 7⟩ none]

instance (historyDays : ℤ) (desk : Desk) (call : DeskCall) : Decidable (desk.PositiveLows historyDays call) :=
  match call with
  | .detect .. => isTrue trivial
  | .anomaly .. => isTrue trivial
  | .apply d _ => inferInstanceAs (Decidable (desk.store.marked d = false →
      ∀ row ∈ desk.store.prices, d.Covers historyDays row.key → row.ohlc.WellFormed →
        1 / 2 ≤ row.low * d.factor * 10 ^ 8))

theorem keepsShape_of_run_sample :
    ∃ desk, (detectAndApply (1 / 2)).foldlM (fun (desk : Desk) call =>
        if desk.PositiveLows 730 call then desk.step 730 call else none) barBeforeSplit = some desk ∧
      KeepsShape barBeforeSplit.store.prices desk.store.prices := by
  obtain ⟨desk, hdesk⟩ := Option.isSome_iff_exists.mp (show ((detectAndApply (1 / 2)).foldlM
    (fun (desk : Desk) call => if desk.PositiveLows 730 call then desk.step 730 call else none)
      barBeforeSplit).isSome by decide +kernel)
  exact ⟨desk, hdesk, keepsShape_of_run (Run.of_foldlM_guarded _ hdesk)⟩

/-- A factor of 0 is recorded and applied: every price of the bar is 0. -/
theorem zero_factor_applied :
    ¬ ∀ start desk, Run (fun desk call desk' => Desk.step 730 desk call = some desk') Unconditional start desk →
      KeepsShape start.store.prices desk.store.prices := by
  intro h
  obtain ⟨desk, hdesk⟩ := Option.isSome_iff_exists.mp (show ((detectAndApply 0).foldlM
    (fun (desk : Desk) call => desk.step 730 call) barBeforeSplit).isSome by decide +kernel)
  have hzero : desk.store.prices = [⟨1, Date.midnight 739715, 0, 0, 0, 0, 1000⟩] := by
    have heval : ((detectAndApply 0).foldlM (fun (desk : Desk) call => desk.step 730 call)
        barBeforeSplit).map (·.store.prices) = some [⟨1, Date.midnight 739715, 0, 0, 0, 0, 1000⟩] := by
      decide +kernel
    rw [hdesk] at heval
    exact Option.some.inj heval
  have hkeeps := h barBeforeSplit desk (Run.of_foldlM _ hdesk)
  rw [hzero] at hkeeps
  have hshape := (List.forall₂_cons.mp hkeeps).1.2 (by decide +kernel)
  exact absurd hshape (by decide +kernel)

end Nivara.CorporateActions
