import Nivara.Common.Text
import Nivara.Lib.SortedSet

/-!
# `SafetyGuardian.check_duplicate_order`, one user

The calls of `safety/guardian.py` (lines 225–283) on the user's sorted set of recent
orders, as a transition system: each Redis command is one step.

* A call captures `time.time()` before its first command. The readings and the scores
  are doubles, that is rationals, and `now - window_seconds` is exact: the window is an
  integer.
* The time to live that `EXPIRE` sets never runs out; one that is not positive deletes
  the key at once.
* An `Order` is what the member of the set is made of: the symbol, the side and
  `str(qty)`.

Results:

* `orderMember_injective`: the member determines the order.
-/

namespace Nivara.Safety

open SortedSet

/-! ## Orders -/

inductive OrderSide
  | buy
  | sell
  deriving DecidableEq, Repr

def OrderSide.value : OrderSide → String
  | .buy => "buy"
  | .sell => "sell"

/-- A proposed order. The text of a `Decimal` has digits, letters, signs and a point. -/
structure Order where
  symbol : String
  side : OrderSide
  quantity : String
  quantity_noBar : '|' ∉ quantity.toList
  deriving DecidableEq

/-- `_order_member`. -/
def slotMember (symbol side qty : String) : String := s!"{symbol}|{side}|{qty}"

/-- The member of an order. -/
def orderMember (o : Order) : String := slotMember o.symbol o.side.value o.quantity

theorem OrderSide.value_noBar (side : OrderSide) : '|' ∉ side.value.toList := by
  cases side <;> decide

/-- A symbol may have a bar, the other parts have none, so they can be read back from
    the end. -/
theorem orderMember_injective {o o' : Order} (h : orderMember o = orderMember o') : o = o' := by
  have hlist : (o.symbol.toList ++ '|' :: o.side.value.toList) ++ '|' :: o.quantity.toList =
      (o'.symbol.toList ++ '|' :: o'.side.value.toList) ++ '|' :: o'.quantity.toList := by
    simpa [orderMember, slotMember, toString] using congrArg String.toList h
  obtain ⟨hhead, hquantity⟩ := of_append_separator o.quantity_noBar o'.quantity_noBar hlist
  obtain ⟨hsymbol, hside⟩ := of_append_separator o.side.value_noBar o'.side.value_noBar hhead
  have hvalue : o.side = o'.side := by
    have htext := String.toList_inj.mp hside
    revert htext
    cases o.side <;> cases o'.side <;> decide
  obtain ⟨symbol, side, quantity, _⟩ := o
  obtain ⟨symbol', side', quantity', _⟩ := o'
  obtain rfl := String.toList_inj.mp hsymbol
  obtain rfl := String.toList_inj.mp hquantity
  obtain rfl : side = side' := hvalue
  rfl

/-! ## Decisions -/

def codePositionSize : String := "position_size_exceeded"
def codeDailyLoss : String := "daily_loss_exceeded"
def codeMaxDrawdown : String := "max_drawdown_exceeded"
def codeDuplicateOrder : String := "duplicate_order"
def codeKillSwitch : String := "kill_switch_active"

/-- The details of a duplicate; `qty` is the number's text. -/
structure DuplicateDetails where
  symbol : String
  side : String
  qty : String
  windowSeconds : ℤ
  lastSeenTs : ℚ
  deriving DecidableEq

/-- `details`; each `Decimal` is given as a float there. -/
inductive Details
  /-- `{}`, for the kill switch. -/
  | empty
  | positionSize (instrumentId : UUID) (proposedValue portfolioValue maxPct : ℚ)
      (pctOfPortfolio : Option ℚ)
  | dailyLoss (currentValue startOfDayValue lossPct limitPct : ℚ)
  | maxDrawdown (currentValue peakValue drawdownPct limitPct : ℚ)
  | duplicate (details : DuplicateDetails)
  deriving DecidableEq

structure SafetyDecision where
  allowed : Bool
  reason : Option String
  code : Option String
  details : Option Details
  deriving DecidableEq

/-- `SafetyDecision(allowed=True)`. -/
def SafetyDecision.allow : SafetyDecision := ⟨true, none, none, none⟩

/-- `SafetyDecision(allowed=False, reason=reason, code=code, details=details)`. -/
def SafetyDecision.reject (reason code : String) (details : Details) : SafetyDecision :=
  ⟨false, some reason, some code, some details⟩

/-- The rejection of `check_duplicate_order`; `existingScore` is what `ZSCORE` has
    returned. -/
def duplicateDecision (symbol side qty : String) (window : ℤ) (now : ℚ) (existingScore : Option ℚ) :
    SafetyDecision :=
  .reject s!"Duplicate order for {symbol} {side} {qty} within {window}s window." codeDuplicateOrder
    (.duplicate ⟨symbol, side, qty, window, existingScore.getD now⟩)

/-- The rejection of an order. -/
def duplicateOrder (o : Order) (window : ℤ) (now : ℚ) (existingScore : Option ℚ) : SafetyDecision :=
  duplicateDecision o.symbol o.side.value o.quantity window now existingScore

/-- The event of `_record_violation`. -/
structure Violation where
  eventType : String
  decision : SafetyDecision
  deriving DecidableEq

/-! ## Calls -/

/-- A call, by the command it sends next. -/
inductive Call
  /-- `ZREMRANGEBYSCORE`. -/
  | trim
  /-- `ZADD ... NX`. -/
  | zadd
  /-- `EXPIRE`; `added` is what `ZADD` has returned. -/
  | expire (added : Bool)
  /-- `ZSCORE`. -/
  | zscore
  | returned (decision : SafetyDecision)
  deriving DecidableEq

/-- The call's `ZADD` has added the member. -/
def Call.claimed : Call → Bool
  | .expire added => added
  | .returned decision => decision.allowed
  | _ => false

/-- The call has returned `allowed=True`. -/
def Call.allowed : Call → Bool
  | .returned decision => decision.allowed
  | _ => false

variable {ι : Type}

/-- The user's recent orders, the calls, and the audit rows. -/
structure GuardianState (ι : Type) where
  recentOrders : ZSet String ℚ
  calls : ι → Call
  audit : List Violation

namespace GuardianState

variable [DecidableEq ι]

def goto (s : GuardianState ι) (i : ι) (c : Call) : GuardianState ι :=
  { s with calls := Function.update s.calls i c }

@[simp] theorem goto_calls_self (s : GuardianState ι) (i : ι) (c : Call) : (s.goto i c).calls i = c :=
  Function.update_self ..

theorem goto_calls_of_ne (s : GuardianState ι) {i j : ι} (c : Call) (h : j ≠ i) :
    (s.goto i c).calls j = s.calls j :=
  Function.update_of_ne h ..

variable (order : ι → Order) (now : ι → ℚ) (window : ℤ)

/-- The next step of a call. -/
def advance (s : GuardianState ι) (i : ι) : Call → Option (GuardianState ι)
  | .trim =>
    some ({ s with recentOrders := zremrangebyscore (now i - window) s.recentOrders }.goto i .zadd)
  | .zadd =>
    let (recentOrders, added) := zaddNx (orderMember (order i)) (now i) s.recentOrders
    some ({ s with recentOrders := recentOrders }.goto i (.expire added))
  | .expire added =>
    let s' := { s with recentOrders := expire (window * 2) s.recentOrders }
    some (s'.goto i (if added then .returned .allow else .zscore))
  | .zscore =>
    let decision := duplicateOrder (order i) window (now i) (s.recentOrders (orderMember (order i)))
    let violation : Violation := ⟨"safety.violation", decision⟩
    some ({ s with audit := s.audit ++ [violation] }.goto i (.returned decision))
  | .returned _ => none

/-- One step of the system. -/
def step (s : GuardianState ι) (i : ι) : Option (GuardianState ι) :=
  s.advance order now window i (s.calls i)

end GuardianState

/-- Before any command. -/
def initial (recentOrders : ZSet String ℚ) : GuardianState ι := ⟨recentOrders, fun _ => .trim, []⟩

end Nivara.Safety
