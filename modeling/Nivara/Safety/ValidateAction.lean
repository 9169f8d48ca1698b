import Nivara.Common.Decimal
import Nivara.Lib.Transition
import Nivara.Safety.Guardian

/-!
# `SafetyGuardian.validate_action`

The checks of `safety/guardian.py` (lines 81–391) in turn, on the kill switches and the
recent orders in Redis and the rows of `audit_log`: the kill switch, the position size,
the daily loss, the drawdown, and the duplicate check, which claims the slot of the
order. The session of the database and Redis are available, and no time to live runs
out during the call.

Results:

* `checkDuplicateOrder_run`: `check_duplicate_order` on its own is a run of the calls in
  `Safety.Guardian` in which only that call takes steps.
* `validateAction_of_none`, `validateAction_of_some`: the first check that fails decides.
* `validateAction_atomic_iff`: a rejected action claims no slot and writes one row, with
  the code of the first check that fails; an allowed action writes none and claims one
  slot. This holds exactly when the window is positive or one of the checks before the
  duplicate check fails.
-/

namespace Nivara.Safety

open SortedSet Decimal Transition

/-! ## State -/

/-- The arguments of `validate_action`, and the reading of `time.time()` in the duplicate
    check. -/
structure Action where
  userId : UUID
  instrumentId : UUID
  symbol : String
  side : String
  qty : String
  proposedValue : ℚ
  portfolioValue : ℚ
  startOfDayValue : ℚ
  peakValue : ℚ
  maxPositionPct : ℚ := 1 / 10
  dailyLossPct : ℚ := 1 / 50
  maxDrawdownPct : ℚ := 1 / 10
  windowSeconds : ℤ := 60
  /-- A `KillSwitchService` is supplied. -/
  killSwitch : Bool := false
  now : ℚ

/-- A row of `audit_log`. -/
structure AuditRow where
  userId : UUID
  violation : Violation
  deriving DecidableEq

structure SafetyStore where
  /-- `safety:kill_switch:{user_id}`. -/
  killSwitch : UUID → Option String
  /-- `safety:recent_orders:{user_id}`. -/
  recentOrders : UUID → ZSet String ℚ
  audit : List AuditRow

/-- `KillSwitchService.is_active`. -/
def SafetyStore.isActive (s : SafetyStore) (userId : UUID) : Bool := (s.killSwitch userId).isSome

/-- `_record_violation`. -/
def SafetyStore.recordViolation (s : SafetyStore) (userId : UUID) (decision : SafetyDecision) :
    SafetyStore :=
  { s with audit := s.audit ++ [⟨userId, ⟨"safety.violation", decision⟩⟩] }

/-- The end of a check: a rejection is recorded. -/
def SafetyStore.conclude (s : SafetyStore) (userId : UUID) (decision : SafetyDecision) :
    SafetyDecision × SafetyStore :=
  (decision, if decision.allowed then s else s.recordViolation userId decision)

/-! ## The checks -/

def killSwitchBlocked : SafetyDecision :=
  .reject "Kill switch is active — all automation blocked." codeKillSwitch .empty

/-- The decision of `validate_position_size`. -/
def positionSize (instrumentId : UUID) (proposedValue portfolioValue maxPct : ℚ) : SafetyDecision :=
  if portfolioValue ≤ 0 then
    .reject "Portfolio value is zero; cannot evaluate position size." codePositionSize
      (.positionSize instrumentId proposedValue portfolioValue maxPct none)
  else if proposedValue > multiply portfolioValue maxPct then
    let pctOfPortfolio := divide proposedValue portfolioValue
    .reject ("Proposed position (" ++ percent pctOfPortfolio ++ ") exceeds max allowed (" ++
      percent maxPct ++ ").") codePositionSize
      (.positionSize instrumentId proposedValue portfolioValue maxPct (some pctOfPortfolio))
  else .allow

/-- The decision of a check of the loss from a base value. -/
def lossFrom (base currentValue limitPct : ℚ) (code what : String) (details : ℚ → Details) :
    SafetyDecision :=
  if base ≤ 0 then .allow
  else if subtract base currentValue ≤ 0 then .allow
  else
    let lossPct := divide (subtract base currentValue) base
    if lossPct ≥ limitPct then
      .reject (what ++ " (" ++ percent lossPct ++ ") has breached limit (" ++ percent limitPct ++ ").")
        code (details lossPct)
    else .allow

/-- The decision of `check_daily_loss`. -/
def dailyLoss (currentValue startOfDayValue limitPct : ℚ) : SafetyDecision :=
  lossFrom startOfDayValue currentValue limitPct codeDailyLoss "Daily loss" fun lossPct =>
    .dailyLoss currentValue startOfDayValue lossPct limitPct

/-- The decision of `check_max_drawdown`. -/
def maxDrawdown (currentValue peakValue limitPct : ℚ) : SafetyDecision :=
  lossFrom peakValue currentValue limitPct codeMaxDrawdown "Drawdown" fun drawdownPct =>
    .maxDrawdown currentValue peakValue drawdownPct limitPct

def validatePositionSize (userId instrumentId : UUID) (proposedValue portfolioValue maxPct : ℚ)
    (s : SafetyStore) : SafetyDecision × SafetyStore :=
  s.conclude userId (positionSize instrumentId proposedValue portfolioValue maxPct)

def checkDailyLoss (userId : UUID) (currentValue startOfDayValue limitPct : ℚ) (s : SafetyStore) :
    SafetyDecision × SafetyStore :=
  s.conclude userId (dailyLoss currentValue startOfDayValue limitPct)

def checkMaxDrawdown (userId : UUID) (currentValue peakValue limitPct : ℚ) (s : SafetyStore) :
    SafetyDecision × SafetyStore :=
  s.conclude userId (maxDrawdown currentValue peakValue limitPct)

/-- `check_duplicate_order`. -/
def checkDuplicateOrder (userId : UUID) (symbol side qty : String) (window : ℤ) (now : ℚ)
    (s : SafetyStore) : SafetyDecision × SafetyStore :=
  let member := slotMember symbol side qty
  let trimmed := zremrangebyscore (now - window) (s.recentOrders userId)
  let (recentOrders, added) := zaddNx member now trimmed
  let recentOrders := expire (window * 2) recentOrders
  let s := { s with recentOrders := Function.update s.recentOrders userId recentOrders }
  if added then (.allow, s)
  else s.conclude userId (duplicateDecision symbol side qty window now (recentOrders member))

/-- `if not decision.allowed: return decision`, and otherwise the rest. -/
def andThen (r : SafetyDecision × SafetyStore) (rest : SafetyStore → SafetyDecision × SafetyStore) :
    SafetyDecision × SafetyStore :=
  if !r.1.allowed then r else rest r.2

/-- `validate_action`. -/
def validateAction (a : Action) (s : SafetyStore) : SafetyDecision × SafetyStore :=
  if a.killSwitch && s.isActive a.userId then s.conclude a.userId killSwitchBlocked
  else
    andThen (validatePositionSize a.userId a.instrumentId a.proposedValue a.portfolioValue
      a.maxPositionPct s) fun s =>
    andThen (checkDailyLoss a.userId a.portfolioValue a.startOfDayValue a.dailyLossPct s) fun s =>
    andThen (checkMaxDrawdown a.userId a.portfolioValue a.peakValue a.maxDrawdownPct s) fun s =>
    andThen (checkDuplicateOrder a.userId a.symbol a.side a.qty a.windowSeconds a.now s) fun s =>
    (.allow, s)

/-! ## What is to hold -/

/-- A loss from `base` that is a share of at least `limitPct`. -/
def Breached (base currentValue limitPct : ℚ) : Prop :=
  0 < base ∧ 0 < subtract base currentValue ∧ limitPct ≤ divide (subtract base currentValue) base

/-- The checks before the duplicate check, in their order: the code of each, and when it
    fails. -/
def Action.checks (a : Action) (s : SafetyStore) : List (String × Prop) :=
  [(codeKillSwitch, a.killSwitch ∧ s.killSwitch a.userId ≠ none),
    (codePositionSize,
      a.portfolioValue ≤ 0 ∨ multiply a.portfolioValue a.maxPositionPct < a.proposedValue),
    (codeDailyLoss, Breached a.startOfDayValue a.portfolioValue a.dailyLossPct),
    (codeMaxDrawdown, Breached a.peakValue a.portfolioValue a.maxDrawdownPct)]

/-- The first check of the list that fails has this code. -/
def FirstFailing (code : String) : List (String × Prop) → Prop
  | [] => False
  | (c, fails) :: rest => (fails ∧ code = c) ∨ (¬ fails ∧ FirstFailing code rest)

/-- The user's entries that are within the window. -/
def Action.recent (a : Action) (s : SafetyStore) : ZSet String ℚ :=
  zremrangebyscore (a.now - a.windowSeconds) (s.recentOrders a.userId)

/-- The member of the order. -/
def Action.member (a : Action) : String := slotMember a.symbol a.side a.qty

/-- From `s` the action is decided with `d`, and leaves `t`. -/
structure Action.DecidedAtomically (a : Action) (s : SafetyStore) (d : SafetyDecision)
    (t : SafetyStore) : Prop where
  /-- A rejection by another check than the duplicate check. -/
  rejected : d.allowed = false → d.code ≠ some codeDuplicateOrder →
    t.recentOrders = s.recentOrders ∧ ∃ code, FirstFailing code (a.checks s) ∧
      d.code = some code ∧ t.audit = s.audit ++ [⟨a.userId, ⟨"safety.violation", d⟩⟩]
  /-- The action is allowed: the slot was free, and is claimed. -/
  allowed : d.allowed = true →
    (∀ code, ¬ FirstFailing code (a.checks s)) ∧ t.audit = s.audit ∧ a.recent s a.member = none ∧
      t.recentOrders = Function.update s.recentOrders a.userId
        (Function.update (a.recent s) a.member (some a.now))
  /-- A rejection by the duplicate check: the slot is taken. -/
  duplicate : d.allowed = false → d.code = some codeDuplicateOrder →
    (∀ code, ¬ FirstFailing code (a.checks s)) ∧ a.recent s a.member ≠ none ∧
      t.audit = s.audit ++ [⟨a.userId, ⟨"safety.violation", d⟩⟩] ∧
      t.recentOrders = Function.update s.recentOrders a.userId (a.recent s)
  killSwitch : t.killSwitch = s.killSwitch

/-! ## The checks before the duplicate check -/

/-- What a decision says about a check: it is a rejection with the check's code when the
    check fails, and nothing otherwise. -/
def Decides (code : String) (fails : Prop) (d : SafetyDecision) : Prop :=
  (fails ∧ ∃ reason details, d = .reject reason code details) ∨ (¬ fails ∧ d = .allow)

theorem positionSize_decides (instrumentId : UUID) (proposedValue portfolioValue maxPct : ℚ) :
    Decides codePositionSize (portfolioValue ≤ 0 ∨ multiply portfolioValue maxPct < proposedValue)
      (positionSize instrumentId proposedValue portfolioValue maxPct) := by
  unfold positionSize
  split_ifs with hzero hlimit
  · exact .inl ⟨.inl hzero, _, _, rfl⟩
  · exact .inl ⟨.inr hlimit, _, _, rfl⟩
  · exact .inr ⟨by rintro (h | h) <;> contradiction, rfl⟩

theorem lossFrom_decides (base currentValue limitPct : ℚ) (code what : String)
    (details : ℚ → Details) :
    Decides code (Breached base currentValue limitPct)
      (lossFrom base currentValue limitPct code what details) := by
  unfold lossFrom
  simp only
  split_ifs with hbase hloss hlimit
  · exact .inr ⟨fun h => absurd hbase (not_le.mpr h.1), rfl⟩
  · exact .inr ⟨fun h => absurd hloss (not_le.mpr h.2.1), rfl⟩
  · exact .inl ⟨⟨not_le.mp hbase, not_le.mp hloss, hlimit⟩, _, _, rfl⟩
  · exact .inr ⟨fun h => absurd h.2.2 hlimit, rfl⟩

/-! ## The duplicate check -/

/-- The user's recent orders become `z`. -/
def SafetyStore.setRecentOrders (s : SafetyStore) (userId : UUID) (z : ZSet String ℚ) : SafetyStore :=
  { s with recentOrders := Function.update s.recentOrders userId z }

section

variable {userId : UUID} {symbol side qty : String} {window : ℤ} {now : ℚ} {s : SafetyStore}

/-- A free slot is claimed. -/
theorem checkDuplicateOrder_of_free
    (h : zremrangebyscore (now - window) (s.recentOrders userId) (slotMember symbol side qty) = none) :
    checkDuplicateOrder userId symbol side qty window now s =
      (.allow, s.setRecentOrders userId (expire (window * 2) (Function.update
        (zremrangebyscore (now - window) (s.recentOrders userId)) (slotMember symbol side qty)
          (some now)))) := by
  unfold checkDuplicateOrder
  simp only [zaddNx_of_not_mem h]
  rfl

/-- When the slot is taken, the rejection is recorded. -/
theorem checkDuplicateOrder_of_taken {score : ℚ}
    (h : zremrangebyscore (now - window) (s.recentOrders userId) (slotMember symbol side qty) =
      some score) :
    checkDuplicateOrder userId symbol side qty window now s =
      (s.setRecentOrders userId (expire (window * 2)
        (zremrangebyscore (now - window) (s.recentOrders userId)))).conclude userId
          (duplicateDecision symbol side qty window now (expire (window * 2)
            (zremrangebyscore (now - window) (s.recentOrders userId)) (slotMember symbol side qty))) := by
  unfold checkDuplicateOrder
  simp only [zaddNx_of_mem h]
  rfl

end

/-! ## The first failing check -/

/-- A check that fails ends the validation and its rejection is recorded; one that does
    not leaves everything to the rest. -/
theorem Decides.andThen {code : String} {fails : Prop} {d : SafetyDecision} (h : Decides code fails d)
    (s : SafetyStore) (userId : UUID) (rest : SafetyStore → SafetyDecision × SafetyStore) :
    (fails ∧ ∃ reason details, andThen (s.conclude userId d) rest = (.reject reason code details,
      s.recordViolation userId (.reject reason code details))) ∨
    (¬ fails ∧ andThen (s.conclude userId d) rest = rest s) := by
  rcases h with ⟨hfails, reason, details, rfl⟩ | ⟨hfails, rfl⟩
  · exact .inl ⟨hfails, reason, details, rfl⟩
  · exact .inr ⟨hfails, rfl⟩

/-- The first check that fails decides, and its rejection is recorded. -/
theorem validateAction_cases (a : Action) (s : SafetyStore) :
    (∃ code reason details, FirstFailing code (a.checks s) ∧ code ≠ codeDuplicateOrder ∧
      validateAction a s = (.reject reason code details,
        s.recordViolation a.userId (.reject reason code details))) ∨
    ((∀ code, ¬ FirstFailing code (a.checks s)) ∧ validateAction a s =
      checkDuplicateOrder a.userId a.symbol a.side a.qty a.windowSeconds a.now s) := by
  have hkill : (a.killSwitch && s.isActive a.userId) = true ↔
      a.killSwitch ∧ s.killSwitch a.userId ≠ none := by
    unfold SafetyStore.isActive
    rw [Bool.and_eq_true, Option.isSome_iff_ne_none]
  unfold validateAction
  by_cases hactive : a.killSwitch ∧ s.killSwitch a.userId ≠ none
  · rw [if_pos (hkill.mpr hactive)]
    exact .inl ⟨_, _, _, .inl ⟨hactive, rfl⟩, by decide, rfl⟩
  rw [if_neg (mt hkill.mp hactive)]
  rcases (positionSize_decides ..).andThen s a.userId _ with
    ⟨hfails, reason, details, hcheck⟩ | ⟨hposition, hcheck⟩
  · exact .inl ⟨_, reason, details, .inr ⟨hactive, .inl ⟨hfails, rfl⟩⟩, by decide, hcheck⟩
  rcases (lossFrom_decides ..).andThen s a.userId _ with
    ⟨hfails, reason, details, hcheck'⟩ | ⟨hdaily, hcheck'⟩
  · exact .inl ⟨_, reason, details, .inr ⟨hactive, .inr ⟨hposition, .inl ⟨hfails, rfl⟩⟩⟩, by decide,
      hcheck.trans hcheck'⟩
  rcases (lossFrom_decides ..).andThen s a.userId _ with
    ⟨hfails, reason, details, hcheck''⟩ | ⟨hdrawdown, hcheck''⟩
  · exact .inl ⟨_, reason, details,
      .inr ⟨hactive, .inr ⟨hposition, .inr ⟨hdaily, .inl ⟨hfails, rfl⟩⟩⟩⟩, by decide,
      hcheck.trans (hcheck'.trans hcheck'')⟩
  refine .inr ⟨fun code h => ?_, hcheck.trans (hcheck'.trans (hcheck''.trans ?_))⟩
  · simp only [Action.checks, FirstFailing, hactive, hposition, hdaily, hdrawdown, false_and,
      not_false_eq_true, true_and, or_self] at h
  · cases hslot : a.recent s a.member with
    | none =>
      rw [checkDuplicateOrder_of_free hslot]
      rfl
    | some score =>
      rw [checkDuplicateOrder_of_taken hslot]
      rfl

/-! ## Atomicity -/

/-- A rejection by a check before the duplicate check. -/
theorem Action.decidedAtomically_of_reject (a : Action) (s : SafetyStore) {code : String}
    (hfirst : FirstFailing code (a.checks s)) (hcode : code ≠ codeDuplicateOrder) (reason : String)
    (details : Details) :
    a.DecidedAtomically s (.reject reason code details)
      (s.recordViolation a.userId (.reject reason code details)) where
  rejected _ _ := ⟨rfl, code, hfirst, rfl, rfl⟩
  allowed h := absurd h Bool.false_ne_true
  duplicate _ h := absurd (Option.some.inj h) hcode
  killSwitch := rfl

/-- The duplicate check with a positive window. -/
theorem Action.decidedAtomically_of_window (a : Action) (s : SafetyStore)
    (hwindow : 0 < a.windowSeconds) (hnone : ∀ code, ¬ FirstFailing code (a.checks s)) :
    a.DecidedAtomically s
      (checkDuplicateOrder a.userId a.symbol a.side a.qty a.windowSeconds a.now s).1
      (checkDuplicateOrder a.userId a.symbol a.side a.qty a.windowSeconds a.now s).2 := by
  have hexpire : ∀ z : ZSet String ℚ, expire (a.windowSeconds * 2) z = z := fun z => if_pos (by omega)
  cases hslot : a.recent s a.member with
  | none =>
    rw [checkDuplicateOrder_of_free hslot, hexpire]
    exact {
      rejected := fun h => absurd h.symm Bool.false_ne_true
      allowed := fun _ => ⟨hnone, rfl, hslot, rfl⟩
      duplicate := fun h => absurd h.symm Bool.false_ne_true
      killSwitch := rfl }
  | some score =>
    have htaken : a.recent s a.member ≠ none := by
      rw [hslot]
      exact Option.some_ne_none score
    rw [checkDuplicateOrder_of_taken hslot, hexpire]
    exact {
      rejected := fun _ h => absurd rfl h
      allowed := fun h => absurd h Bool.false_ne_true
      duplicate := fun _ _ => ⟨hnone, htaken, rfl, rfl⟩
      killSwitch := rfl }

/-- With a window that is not positive, `EXPIRE` deletes the user's recent orders, the
    slot that has just been claimed or was taken included. -/
theorem Action.not_decidedAtomically (a : Action) (s : SafetyStore) (hwindow : ¬ 0 < a.windowSeconds) :
    ¬ a.DecidedAtomically s
      (checkDuplicateOrder a.userId a.symbol a.side a.qty a.windowSeconds a.now s).1
      (checkDuplicateOrder a.userId a.symbol a.side a.qty a.windowSeconds a.now s).2 := by
  intro h
  have hexpire : ∀ z : ZSet String ℚ, expire (a.windowSeconds * 2) z = fun _ => none :=
    fun z => if_neg (by omega)
  have hgone : ∀ z, (s.setRecentOrders a.userId fun _ => none).recentOrders =
      Function.update s.recentOrders a.userId z → z a.member = none := by
    intro z hz
    have hempty : (s.setRecentOrders a.userId fun _ => none).recentOrders a.userId = fun _ => none :=
      Function.update_self ..
    have hself := congrFun hz a.userId
    rw [hempty, Function.update_self] at hself
    exact (congrFun hself a.member).symm
  cases hslot : a.recent s a.member with
  | none =>
    rw [checkDuplicateOrder_of_free hslot, hexpire] at h
    obtain ⟨-, -, -, hclaimed⟩ := h.allowed rfl
    have hself := hgone _ hclaimed
    rw [Function.update_self] at hself
    cases hself
  | some score =>
    rw [checkDuplicateOrder_of_taken hslot, hexpire] at h
    obtain ⟨-, htaken, -, htrimmed⟩ := h.duplicate rfl rfl
    exact htaken (hgone _ htrimmed)

/-- A rejected action claims no slot and writes one row, with the code of the first check
    that fails; an allowed action writes none and claims one slot; exactly when the window
    is positive or a check before the duplicate check fails. -/
theorem validateAction_atomic_iff (a : Action) (s : SafetyStore) :
    a.DecidedAtomically s (validateAction a s).1 (validateAction a s).2 ↔
      0 < a.windowSeconds ∨ ∃ code, FirstFailing code (a.checks s) := by
  rcases validateAction_cases a s with ⟨code, reason, details, hfirst, hcode, heq⟩ | ⟨hnone, heq⟩
  · rw [heq]
    exact ⟨fun _ => .inr ⟨code, hfirst⟩,
      fun _ => a.decidedAtomically_of_reject s hfirst hcode reason details⟩
  · rw [heq]
    constructor
    · intro h
      by_contra hcon
      rw [not_or] at hcon
      exact a.not_decidedAtomically s hcon.1 h
    · rintro (hwindow | ⟨code, hfirst⟩)
      · exact a.decidedAtomically_of_window s hwindow hnone
      · exact absurd hfirst (hnone code)

/-- An action within all limits, with a window of no seconds. -/
def sampleAction : Action where
  userId := 1
  instrumentId := 2
  symbol := "AAPL"
  side := "buy"
  qty := "10"
  proposedValue := 50
  portfolioValue := 1000
  startOfDayValue := 1000
  peakValue := 1000
  windowSeconds := 0
  now := 100

/-- No orders and no rows. -/
def sampleStore : SafetyStore := ⟨fun _ => none, fun _ _ => none, []⟩

/-- The action is allowed, and no slot is claimed. -/
theorem slot_expired_at_once :
    ¬ ∀ (a : Action) (s : SafetyStore), a.DecidedAtomically s (validateAction a s).1 (validateAction a s).2 := by
  intro h
  have hallowed : (validateAction sampleAction sampleStore).1.allowed = true := by decide +kernel
  have hgone : (validateAction sampleAction sampleStore).2.recentOrders 1 "AAPL|buy|10" = none := by
    decide +kernel
  obtain ⟨-, -, -, hclaimed⟩ := (h sampleAction sampleStore).allowed hallowed
  have hslot := congrFun (congrFun hclaimed 1) "AAPL|buy|10"
  rw [hgone] at hslot
  revert hslot
  decide +kernel

/-! ## The duplicate check among other calls -/

variable {ι : Type} [DecidableEq ι]

section

variable {order : ι → Order} {now : ι → ℚ} {window : ℤ} {i : ι} {g : GuardianState ι}

theorem GuardianState.step_of_call {c : Call} (h : g.calls i = c) :
    g.step order now window i = g.advance order now window i c := by
  unfold GuardianState.step
  rw [h]

theorem GuardianState.step_zadd_of_free (h : g.calls i = .zadd)
    (hfree : g.recentOrders (orderMember (order i)) = none) :
    g.step order now window i = some (GuardianState.goto { g with
      recentOrders := Function.update g.recentOrders (orderMember (order i)) (some (now i)) } i
        (.expire true)) := by
  rw [GuardianState.step_of_call h]
  unfold GuardianState.advance
  simp only [zaddNx_of_not_mem hfree]

theorem GuardianState.step_zadd_of_taken {score : ℚ} (h : g.calls i = .zadd)
    (htaken : g.recentOrders (orderMember (order i)) = some score) :
    g.step order now window i = some (g.goto i (.expire false)) := by
  rw [GuardianState.step_of_call h]
  unfold GuardianState.advance
  simp only [zaddNx_of_mem htaken]

theorem GuardianState.step_expire {added : Bool} (h : g.calls i = .expire added) :
    g.step order now window i = some (GuardianState.goto { g with
      recentOrders := expire (window * 2) g.recentOrders } i
        (if added then .returned .allow else .zscore)) :=
  GuardianState.step_of_call h

end

/-- `check_duplicate_order` is the run of its call in which no other call takes a step:
    the decision, the recent orders and the rows are the same. -/
theorem checkDuplicateOrder_run (order : ι → Order) (now : ι → ℚ) (window : ℤ) (i : ι)
    (g : GuardianState ι) (s : SafetyStore) (userId : UUID) (hi : g.calls i = .trim)
    (horders : s.recentOrders userId = g.recentOrders) :
    let result := checkDuplicateOrder userId (order i).symbol (order i).side.value (order i).quantity
      window (now i) s
    ∃ g' rows, Run (fun g j g' => j = i ∧ g.step order now window j = some g') Unconditional g g' ∧
      g'.calls i = .returned result.1 ∧ result.2.recentOrders userId = g'.recentOrders ∧
      g'.audit = g.audit ++ rows ∧ result.2.audit = s.audit ++ rows.map (AuditRow.mk userId) := by
  intro result
  have htrim : g.step order now window i = some (GuardianState.goto
      { g with recentOrders := zremrangebyscore (now i - window) g.recentOrders } i .zadd) :=
    GuardianState.step_of_call hi
  have hself : ∀ (g : GuardianState ι) c, (g.goto i c).calls i = c :=
    fun g c => GuardianState.goto_calls_self g i c
  have hupdate : ∀ z, (s.setRecentOrders userId z).recentOrders userId = z :=
    fun z => Function.update_self ..
  cases hslot : zremrangebyscore (now i - window) g.recentOrders (orderMember (order i)) with
  | none =>
    have hresult : result = _ := checkDuplicateOrder_of_free (by rw [horders]; exact hslot)
    rw [hresult, horders]
    refine ⟨_, [], .tail i (.tail i (.tail i .refl trivial ⟨rfl, htrim⟩) trivial
      ⟨rfl, GuardianState.step_zadd_of_free (hself ..) hslot⟩) trivial
      ⟨rfl, GuardianState.step_expire (hself ..)⟩, hself .., hupdate _,
      (List.append_nil _).symm, (List.append_nil _).symm⟩
  | some score =>
    have hresult : result = _ := checkDuplicateOrder_of_taken (by rw [horders]; exact hslot)
    rw [hresult, horders]
    refine ⟨_, [⟨"safety.violation", _⟩], .tail i (.tail i (.tail i (.tail i .refl trivial ⟨rfl, htrim⟩)
      trivial ⟨rfl, GuardianState.step_zadd_of_taken (hself ..) hslot⟩) trivial
      ⟨rfl, GuardianState.step_expire (hself ..)⟩) trivial
      ⟨rfl, GuardianState.step_of_call (hself ..)⟩, hself .., hupdate _, rfl, rfl⟩

end Nivara.Safety
