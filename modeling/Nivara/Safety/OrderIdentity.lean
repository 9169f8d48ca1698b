import Nivara.Common.DecimalText
import Nivara.Safety.OrderHistory

/-!
# The identity of an order

`_order_member` (`safety/guardian.py`, lines 221–223) makes the member of an order from its symbol,
its side and the text of its quantity. `check_duplicate_order` claims that member as a slot, and
`record_order` writes it.

* A quantity is a finite `Decimal`; two of them are equal when their values are.

Results:

* `orderMember_ofDecimal`: two orders have one member exactly when symbol, side and representation
  of the quantity are the same.
* `slotLaw_iff`: for which orders that is the identity of orders, in both calls.
* `sameNumber_otherSlot`: 10 and 10.0.
-/

namespace Nivara.Safety

open SortedSet

/-! ## Model -/

/-- An order with its quantity. -/
structure DecimalOrder where
  symbol : String
  side : OrderSide
  quantity : FiniteDecimal
  deriving DecidableEq

/-- The order with the text of its quantity. -/
def DecimalOrder.toOrder (o : DecimalOrder) : Order :=
  ⟨o.symbol, o.side, o.quantity.str, o.quantity.noBar_str⟩

/-- The same symbol, the same side and equal quantities. -/
def DecimalOrder.Same (o o' : DecimalOrder) : Prop :=
  o.symbol = o'.symbol ∧ o.side = o'.side ∧ o.quantity.value = o'.quantity.value

/-- `check_duplicate_order`. -/
def DecimalOrder.check (userId : UUID) (window : ℤ) (now : ℚ) (o : DecimalOrder) (s : SafetyStore) :
    SafetyDecision × SafetyStore :=
  checkDuplicateOrder userId o.symbol o.side.value o.quantity.str window now s

/-- `record_order`. -/
def DecimalOrder.record (userId : UUID) (window : ℤ) (now : ℚ) (o : DecimalOrder) (s : SafetyStore) :
    SafetyStore :=
  recordOrder userId o.symbol o.side.value o.quantity.str window now s

/-- What a check of the order at the time `now` finds in its slot. -/
def DecimalOrder.slot (userId : UUID) (window : ℤ) (now : ℚ) (o : DecimalOrder) (s : SafetyStore) :
    Option ℚ :=
  zremrangebyscore (now - window) (s.recentOrders userId) (slotMember o.symbol o.side.value o.quantity.str)

/-! ## What is to hold -/

/-- Two orders share a slot when they are the same; when one of them has been accepted by a check, or
    recorded, a check within the window rejects the other, free until then, when they are the same. -/
structure SlotLaw (o o' : DecimalOrder) : Prop where
  shares : orderMember o.toOrder = orderMember o'.toOrder ↔ o.Same o'
  afterCheck : ∀ (userId : UUID) (window : ℤ) (now now' : ℚ) (s : SafetyStore), 0 < window →
    now ≤ now' → now' - window < now → o'.slot userId window now' s = none →
    (o.check userId window now s).1.allowed = true →
    ((o'.check userId window now' (o.check userId window now s).2).1.allowed = false ↔ o.Same o')
  afterRecord : ∀ (userId : UUID) (window : ℤ) (now now' : ℚ) (s : SafetyStore), 0 < window →
    now ≤ now' → now' - window < now → o'.slot userId window now' s = none →
    ((o'.check userId window now' (o.record userId window now s)).1.allowed = false ↔ o.Same o')

/-! ## The member -/

/-- Two orders have one member when they have one symbol, one side and one representation. -/
theorem orderMember_ofDecimal {o o' : DecimalOrder} :
    orderMember o.toOrder = orderMember o'.toOrder ↔ o = o' := by
  constructor
  · intro h
    have horder := orderMember_injective h
    have hquantity : o.quantity = o'.quantity := FiniteDecimal.str_injective (congrArg Order.quantity horder)
    obtain ⟨symbol, side, quantity⟩ := o
    obtain ⟨symbol', side', quantity'⟩ := o'
    obtain rfl : symbol = symbol' := congrArg Order.symbol horder
    obtain rfl : side = side' := congrArg Order.side horder
    obtain rfl : quantity = quantity' := hquantity
    rfl
  · rintro rfl
    rfl

section

variable {userId : UUID} {window : ℤ} {now now' : ℚ} {o o' : DecimalOrder} {s : SafetyStore}

/-- A check allows the order when its slot is free. -/
theorem DecimalOrder.check_allowed_iff : (o.check userId window now s).1.allowed = true ↔
    o.slot userId window now s = none := by
  unfold DecimalOrder.check
  cases hslot : o.slot userId window now s with
  | none =>
    rw [checkDuplicateOrder_of_free hslot]
    exact iff_of_true rfl rfl
  | some score =>
    rw [checkDuplicateOrder_of_taken hslot]
    exact iff_of_false Bool.false_ne_true (Option.some_ne_none score)

/-- What a check that accepts leaves in the user's set. -/
theorem recentOrders_check (hwindow : 0 < window) (hallowed : (o.check userId window now s).1.allowed = true) :
    (o.check userId window now s).2.recentOrders userId =
      Function.update (zremrangebyscore (now - window) (s.recentOrders userId)) (orderMember o.toOrder)
        (some now) := by
  unfold DecimalOrder.check
  rw [checkDuplicateOrder_of_free (DecimalOrder.check_allowed_iff.mp hallowed)]
  exact (Function.update_self ..).trans (if_pos (by omega))

theorem recentOrders_record (hwindow : 0 < window) :
    (o.record userId window now s).recentOrders userId =
      Function.update (s.recentOrders userId) (orderMember o.toOrder) (some now) :=
  (Function.update_self ..).trans (if_pos (by omega))

/-- After an order was written at `now`, a check within the window rejects another one, whose slot is
    free in what the set was before, exactly when they share the slot. -/
theorem rejected_after_iff {z : ZSet String ℚ} (hlt : now' - window < now)
    (hfree : zremrangebyscore (now' - window) z (orderMember o'.toOrder) = none)
    (hset : s.recentOrders userId = Function.update z (orderMember o.toOrder) (some now)) :
    (o'.check userId window now' s).1.allowed = false ↔
      orderMember o.toOrder = orderMember o'.toOrder := by
  rw [← Bool.not_eq_true, DecimalOrder.check_allowed_iff]
  unfold DecimalOrder.slot
  rw [hset]
  by_cases hmember : orderMember o.toOrder = orderMember o'.toOrder
  · have hkept : zremrangebyscore (now' - window) (Function.update z (orderMember o.toOrder) (some now))
        (slotMember o'.symbol o'.side.value o'.quantity.str) = some now := by
      rw [hmember]
      exact zremrangebyscore_of_lt (Function.update_self ..) hlt
    rw [hkept]
    exact iff_of_true (Option.some_ne_none now) hmember
  · refine iff_of_false (fun h => h ?_) hmember
    unfold zremrangebyscore at hfree ⊢
    rwa [show slotMember o'.symbol o'.side.value o'.quantity.str = orderMember o'.toOrder from rfl,
      Function.update_of_ne fun h => hmember h.symm]

/-- A slot that is free at a later time is free in what an earlier check has trimmed. -/
theorem free_of_trimmed {z : ZSet String ℚ} {m : String} {cutoff cutoff' : ℚ}
    (hfree : zremrangebyscore cutoff' z m = none) :
    zremrangebyscore cutoff' (zremrangebyscore cutoff z) m = none := by
  unfold zremrangebyscore at hfree ⊢
  rw [Option.filter_eq_none_iff] at hfree ⊢
  intro score hscore
  exact hfree score (Option.filter_eq_some_iff.mp hscore).1

end

/-! ## When the slots are those of the orders -/

/-- The law holds of two orders exactly when they are different orders, or their quantities have one
    representation. -/
theorem slotLaw_iff (o o' : DecimalOrder) : SlotLaw o o' ↔ (o.Same o' → o.quantity = o'.quantity) := by
  constructor
  · intro h hsame
    exact congrArg DecimalOrder.quantity (orderMember_ofDecimal.mp (h.shares.mpr hsame))
  · intro h
    have hshares : orderMember o.toOrder = orderMember o'.toOrder ↔ o.Same o' := by
      rw [orderMember_ofDecimal]
      constructor
      · rintro rfl
        exact ⟨rfl, rfl, rfl⟩
      · intro hsame
        have hquantity := h hsame
        obtain ⟨symbol, side, quantity⟩ := o
        obtain ⟨symbol', side', quantity'⟩ := o'
        obtain ⟨hsymbol, hside, -⟩ := hsame
        dsimp only at hsymbol hside hquantity
        rw [hsymbol, hside, hquantity]
    refine ⟨hshares, ?_, ?_⟩
    · intro userId window now now' s hwindow _ hlt hfree hallowed
      rw [rejected_after_iff hlt (free_of_trimmed hfree) (recentOrders_check hwindow hallowed), hshares]
    · intro userId window now now' s hwindow _ hlt hfree
      rw [rejected_after_iff hlt hfree (recentOrders_record hwindow), hshares]

/-- Ten shares, written in two ways. -/
theorem sameNumber_otherSlot : ¬ ∀ o o' : DecimalOrder, SlotLaw o o' := by
  intro h
  have hsame : DecimalOrder.Same ⟨"AAPL", .buy, ⟨false, 10, 0⟩⟩ ⟨"AAPL", .buy, ⟨false, 100, -1⟩⟩ := by
    refine ⟨rfl, rfl, ?_⟩
    norm_num [FiniteDecimal.value]
  exact absurd ((h _ _).shares.mpr hsame) (by decide +kernel)

end Nivara.Safety
