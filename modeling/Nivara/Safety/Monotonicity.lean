import Nivara.Safety.ValidateAction

/-!
# The pre-trade checks and their inputs

The checks of `validate_action` (`safety/guardian.py`, lines 81–213 and 349–375) that compare amounts, in
an arithmetic that is a parameter: Python's default context rounds each result to 28 digits, exact
arithmetic does not.

* In the default context the checks are those of `Safety.ValidateAction`.
* An action passes the checks when it is allowed, or rejected as a duplicate only.

Results:

* `passes_iff`: when an action passes, in any arithmetic.
* `passes_of_safer`: in exact arithmetic, a smaller proposal, lower base values and a larger portfolio
  never make a check reject.
-/

namespace Nivara.Safety

/-! ## Model -/

/-- The operations of a context on `Decimal`s. -/
structure Arithmetic where
  multiply : ℚ → ℚ → ℚ
  divide : ℚ → ℚ → ℚ
  subtract : ℚ → ℚ → ℚ

/-- The default context. -/
def Arithmetic.context : Arithmetic := ⟨Decimal.multiply, Decimal.divide, Decimal.subtract⟩

/-- Without rounding. -/
def Arithmetic.exact : Arithmetic := ⟨fun a b => a * b, fun a b => a / b, fun a b => a - b⟩

section Model

variable (ar : Arithmetic)

/-- The decision of `validate_position_size`. -/
def positionSizeIn (instrumentId : UUID) (proposedValue portfolioValue maxPct : ℚ) : SafetyDecision :=
  if portfolioValue ≤ 0 then
    .reject "Portfolio value is zero; cannot evaluate position size." codePositionSize
      (.positionSize instrumentId proposedValue portfolioValue maxPct none)
  else if proposedValue > ar.multiply portfolioValue maxPct then
    let pctOfPortfolio := ar.divide proposedValue portfolioValue
    .reject ("Proposed position (" ++ Decimal.percent pctOfPortfolio ++ ") exceeds max allowed (" ++
      Decimal.percent maxPct ++ ").") codePositionSize
      (.positionSize instrumentId proposedValue portfolioValue maxPct (some pctOfPortfolio))
  else .allow

/-- The decision of a check of the loss from a base value. -/
def lossFromIn (base currentValue limitPct : ℚ) (code what : String) (details : ℚ → Details) :
    SafetyDecision :=
  if base ≤ 0 then .allow
  else if ar.subtract base currentValue ≤ 0 then .allow
  else
    let lossPct := ar.divide (ar.subtract base currentValue) base
    if lossPct ≥ limitPct then
      .reject (what ++ " (" ++ Decimal.percent lossPct ++ ") has breached limit (" ++
        Decimal.percent limitPct ++ ").") code (details lossPct)
    else .allow

/-- The decision of `check_daily_loss`. -/
def dailyLossIn (currentValue startOfDayValue limitPct : ℚ) : SafetyDecision :=
  lossFromIn ar startOfDayValue currentValue limitPct codeDailyLoss "Daily loss" fun lossPct =>
    .dailyLoss currentValue startOfDayValue lossPct limitPct

/-- The decision of `check_max_drawdown`. -/
def maxDrawdownIn (currentValue peakValue limitPct : ℚ) : SafetyDecision :=
  lossFromIn ar peakValue currentValue limitPct codeMaxDrawdown "Drawdown" fun drawdownPct =>
    .maxDrawdown currentValue peakValue drawdownPct limitPct

/-- `validate_action`. -/
def validateActionIn (a : Action) (s : SafetyStore) : SafetyDecision × SafetyStore :=
  if a.killSwitch && s.isActive a.userId then s.conclude a.userId killSwitchBlocked
  else
    andThen (s.conclude a.userId (positionSizeIn ar a.instrumentId a.proposedValue a.portfolioValue
      a.maxPositionPct)) fun s =>
    andThen (s.conclude a.userId (dailyLossIn ar a.portfolioValue a.startOfDayValue a.dailyLossPct)) fun s =>
    andThen (s.conclude a.userId (maxDrawdownIn ar a.portfolioValue a.peakValue a.maxDrawdownPct)) fun s =>
    andThen (checkDuplicateOrder a.userId a.symbol a.side a.qty a.windowSeconds a.now s) fun s =>
    (.allow, s)

/-- The action passes the checks before the duplicate check. -/
def Action.Passes (a : Action) (s : SafetyStore) : Prop :=
  (validateActionIn ar a s).1.allowed = true ∨ (validateActionIn ar a s).1.code = some codeDuplicateOrder

/-- A loss from `base` that is a share of at least `limitPct`. -/
def BreachedIn (base currentValue limitPct : ℚ) : Prop :=
  0 < base ∧ 0 < ar.subtract base currentValue ∧
    limitPct ≤ ar.divide (ar.subtract base currentValue) base

/-- The position is larger than allowed, or there is no portfolio. -/
def OversizedIn (proposedValue portfolioValue maxPct : ℚ) : Prop :=
  portfolioValue ≤ 0 ∨ ar.multiply portfolioValue maxPct < proposedValue

end Model

/-- In the default context, the checks are those of the guardian. -/
theorem validateActionIn_context (a : Action) (s : SafetyStore) :
    validateActionIn .context a s = validateAction a s := rfl

/-! ## When an action passes -/

variable {ar : Arithmetic}

theorem positionSizeIn_decides (instrumentId : UUID) (proposedValue portfolioValue maxPct : ℚ) :
    Decides codePositionSize (OversizedIn ar proposedValue portfolioValue maxPct)
      (positionSizeIn ar instrumentId proposedValue portfolioValue maxPct) := by
  unfold positionSizeIn
  split_ifs with hzero hlimit
  · exact .inl ⟨.inl hzero, _, _, rfl⟩
  · exact .inl ⟨.inr hlimit, _, _, rfl⟩
  · exact .inr ⟨by rintro (h | h) <;> contradiction, rfl⟩

theorem lossFromIn_decides (base currentValue limitPct : ℚ) (code what : String) (details : ℚ → Details) :
    Decides code (BreachedIn ar base currentValue limitPct)
      (lossFromIn ar base currentValue limitPct code what details) := by
  unfold lossFromIn
  simp only
  split_ifs with hbase hloss hlimit
  · exact .inr ⟨fun h => absurd hbase (not_le.mpr h.1), rfl⟩
  · exact .inr ⟨fun h => absurd hloss (not_le.mpr h.2.1), rfl⟩
  · exact .inl ⟨⟨not_le.mp hbase, not_le.mp hloss, hlimit⟩, _, _, rfl⟩
  · exact .inr ⟨fun h => absurd h.2.2 hlimit, rfl⟩

theorem not_passes_of_reject {a : Action} {s t : SafetyStore} {code reason : String} {details : Details}
    (hcode : code ≠ codeDuplicateOrder)
    (h : validateActionIn ar a s = (.reject reason code details, t)) : ¬ a.Passes ar s := by
  unfold Action.Passes
  rw [h]
  rintro (hallowed | hduplicate)
  · cases hallowed
  · exact hcode (Option.some.inj hduplicate)

/-- What the duplicate check decides passes. -/
theorem passes_of_duplicate {a : Action} {s : SafetyStore}
    (h : validateActionIn ar a s =
      andThen (checkDuplicateOrder a.userId a.symbol a.side a.qty a.windowSeconds a.now s)
        fun s => (.allow, s)) : a.Passes ar s := by
  unfold Action.Passes
  rw [h]
  cases hslot : SortedSet.zremrangebyscore (a.now - a.windowSeconds) (s.recentOrders a.userId)
      (slotMember a.symbol a.side a.qty) with
  | none =>
    rw [checkDuplicateOrder_of_free hslot]
    exact .inl rfl
  | some score =>
    rw [checkDuplicateOrder_of_taken hslot]
    exact .inr rfl

/-- An action passes when no kill switch is active, its size is allowed and no loss has breached its
    limit. -/
theorem passes_iff (a : Action) (s : SafetyStore) :
    a.Passes ar s ↔ ¬ (a.killSwitch && s.isActive a.userId) = true ∧
      ¬ OversizedIn ar a.proposedValue a.portfolioValue a.maxPositionPct ∧
      ¬ BreachedIn ar a.startOfDayValue a.portfolioValue a.dailyLossPct ∧
      ¬ BreachedIn ar a.peakValue a.portfolioValue a.maxDrawdownPct := by
  have hunfold : validateActionIn ar a s = validateActionIn ar a s := rfl
  conv_rhs at hunfold => unfold validateActionIn
  by_cases hkill : (a.killSwitch && s.isActive a.userId) = true
  · rw [if_pos hkill] at hunfold
    exact iff_of_false (not_passes_of_reject (by decide) hunfold) fun h => h.1 hkill
  rw [if_neg hkill] at hunfold
  rcases (positionSizeIn_decides ..).andThen s a.userId _ with
    ⟨hfails, reason, details, hcheck⟩ | ⟨hposition, hcheck⟩
  · exact iff_of_false (not_passes_of_reject (by decide) (hunfold.trans hcheck)) fun h => h.2.1 hfails
  rcases (lossFromIn_decides ..).andThen s a.userId _ with
    ⟨hfails, reason, details, hcheck'⟩ | ⟨hdaily, hcheck'⟩
  · exact iff_of_false (not_passes_of_reject (by decide) (hunfold.trans (hcheck.trans hcheck')))
      fun h => h.2.2.1 hfails
  rcases (lossFromIn_decides ..).andThen s a.userId _ with
    ⟨hfails, reason, details, hcheck''⟩ | ⟨hdrawdown, hcheck''⟩
  · exact iff_of_false
      (not_passes_of_reject (by decide) (hunfold.trans (hcheck.trans (hcheck'.trans hcheck''))))
      fun h => h.2.2.2 hfails
  · exact iff_of_true (passes_of_duplicate (hunfold.trans (hcheck.trans (hcheck'.trans hcheck''))))
      ⟨hkill, hposition, hdaily, hdrawdown⟩

/-! ## Exact arithmetic -/

/-- The other action proposes at most as much, from base values that are at most as high and with a
    portfolio that is at least as large. The rest is the same. -/
structure Action.Safer (a a' : Action) : Prop where
  proposedValue : a'.proposedValue ≤ a.proposedValue
  startOfDayValue : a'.startOfDayValue ≤ a.startOfDayValue
  peakValue : a'.peakValue ≤ a.peakValue
  portfolioValue : a.portfolioValue ≤ a'.portfolioValue
  rest : a' = { a with
    proposedValue := a'.proposedValue
    startOfDayValue := a'.startOfDayValue
    peakValue := a'.peakValue
    portfolioValue := a'.portfolioValue }

/-- A position that is allowed stays so when it is smaller, or the portfolio larger. -/
theorem not_oversized_mono {proposed proposed' portfolio portfolio' maxPct : ℚ} (hpct : 0 ≤ maxPct)
    (hproposed : proposed' ≤ proposed) (hportfolio : portfolio ≤ portfolio')
    (h : ¬ OversizedIn .exact proposed portfolio maxPct) :
    ¬ OversizedIn .exact proposed' portfolio' maxPct := by
  obtain ⟨hpos, hsize⟩ := not_or.mp h
  refine not_or.mpr ⟨fun hzero => hpos (hportfolio.trans hzero), fun hlt => hsize ?_⟩
  have hmax : portfolio * maxPct ≤ portfolio' * maxPct := mul_le_mul_of_nonneg_right hportfolio hpct
  exact hmax.trans_lt (lt_of_lt_of_le hlt hproposed)

/-- A loss is a smaller share of its base when the base is lower or more is left of it. -/
theorem loss_share_le {base base' current current' : ℚ} (hbase' : 0 < base') (hcurrent : 0 < current)
    (hbase : base' ≤ base) (hle : current ≤ current') :
    (base' - current') / base' ≤ (base - current) / base := by
  have hpos : 0 < base := hbase'.trans_le hbase
  rw [sub_div, sub_div, div_self hbase'.ne', div_self hpos.ne']
  have hleft : current / base ≤ current' / base' := div_le_div₀ (hcurrent.le.trans hle) hle hbase' hbase
  linarith

/-- A limit that no loss has breached is not breached when the base is lower or more is left of it. -/
theorem not_breached_mono {base base' current current' limitPct : ℚ} (hcurrent : 0 < current)
    (hbase : base' ≤ base) (hle : current ≤ current') (h : ¬ BreachedIn .exact base current limitPct) :
    ¬ BreachedIn .exact base' current' limitPct := by
  rintro ⟨hbase', hloss, hlimit⟩
  have hloss' : 0 < base' - current' := hloss
  refine h ⟨hbase'.trans_le hbase, ?_, hlimit.trans (loss_share_le hbase' hcurrent hbase hle)⟩
  show 0 < base - current
  linarith

/-- In exact arithmetic, an action that passes the checks passes them with a smaller proposal, lower
    base values, through zero, and a larger portfolio. -/
theorem passes_of_safer (a a' : Action) (s : SafetyStore) (hpct : 0 ≤ a.maxPositionPct)
    (hpasses : a.Passes .exact s) (hsafer : a.Safer a') : a'.Passes .exact s := by
  obtain ⟨hkill, hsize, hdaily, hdrawdown⟩ := (passes_iff a s).mp hpasses
  have hportfolio : 0 < a.portfolioValue := not_le.mp (not_or.mp hsize).1
  rw [passes_iff, hsafer.rest]
  exact ⟨hkill, not_oversized_mono hpct hsafer.proposedValue hsafer.portfolioValue hsize,
    not_breached_mono hportfolio hsafer.startOfDayValue hsafer.portfolioValue hdaily,
    not_breached_mono hportfolio hsafer.peakValue hsafer.portfolioValue hdrawdown⟩

/-- A loss of one per cent, and the same action after a start of day at zero. -/
theorem passes_of_safer_sample :
    let a : Action := { sampleAction with portfolioValue := 990 }
    Action.Passes .exact a sampleStore ∧ Action.Passes .exact { a with startOfDayValue := 0 } sampleStore := by
  intro a
  have hpasses : Action.Passes .exact a sampleStore := .inl (by decide +kernel)
  exact ⟨hpasses, passes_of_safer a { a with startOfDayValue := 0 } sampleStore (by decide +kernel) hpasses
    ⟨le_rfl, by decide +kernel, le_rfl, le_rfl, rfl⟩⟩

end Nivara.Safety
