import Nivara.Safety.DuplicateOrder
import Nivara.Safety.ValidateAction

/-!
# Histories of duplicate checks

`check_duplicate_order` and `record_order` of `safety/guardian.py` (lines 225–307), called
one after the other for one user, each call with a window of its own. The calls share
the user's sorted set: a check trims it with its own window, and each call sets the time
to live of the key to twice its own window.

* A call takes place at its reading of `time.time()`, which never goes back, and Redis
  counts the time to live with the same clock.
* A call *counts* when it is a check that allows the order, or a record.
* The member of the set has the text of the quantity. `valueOf` is the number of a text,
  and a duplicate is an order for the same number.

A history has the latest call first.

Results:

* `kept_of_recent`, `exists_recent_of_kept`: what the set says of an order, from the calls
  before.
* `rejected_iff`: a check rejects exactly the orders that are kept within its window.
* `answersRight_iff`: a check after a history is answered right exactly when a duplicate
  within its window means that a call that counted for the same text is within the window
  and still kept: no later check had a cutoff at or after it, and no call came when the
  time to live of the call before had run out.
* `answersRight_of_window`: so it is with one window for all calls, if each number has
  one text.
-/

namespace Nivara.Safety

open SortedSet

/-! ## Calls in turn -/

inductive Operation
  /-- `check_duplicate_order`. -/
  | check
  /-- `record_order`. -/
  | record
  deriving DecidableEq

structure OrderCall where
  operation : Operation
  order : Order
  window : ℤ := 60
  now : ℚ
  deriving DecidableEq

/-- The stored data, and when the key of the user's recent orders is gone. -/
structure TimedStore where
  store : SafetyStore
  expiresAt : Option ℚ

/-- Nothing is stored. -/
def TimedStore.empty : TimedStore := ⟨⟨fun _ => none, fun _ _ => none, []⟩, none⟩

/-- `record_order`. -/
def recordOrder (userId : UUID) (symbol side qty : String) (window : ℤ) (now : ℚ) (s : SafetyStore) :
    SafetyStore :=
  let recentOrders := zadd (slotMember symbol side qty) now (s.recentOrders userId)
  { s with recentOrders := Function.update s.recentOrders userId (expire (window * 2) recentOrders) }

variable (userId : UUID)

/-- What a command finds at the time `now`. -/
def TimedStore.at (now : ℚ) (s : TimedStore) : SafetyStore :=
  if s.expiresAt.any (· ≤ now) then s.store.setRecentOrders userId fun _ => none else s.store

/-- The check of the call's order. -/
def OrderCall.check (c : OrderCall) (s : TimedStore) : SafetyDecision × SafetyStore :=
  checkDuplicateOrder userId c.order.symbol c.order.side.value c.order.quantity c.window c.now
    (s.at userId c.now)

/-- The call's order is recorded. -/
def OrderCall.record (c : OrderCall) (s : TimedStore) : SafetyStore :=
  recordOrder userId c.order.symbol c.order.side.value c.order.quantity c.window c.now
    (s.at userId c.now)

def OrderCall.perform (c : OrderCall) (s : TimedStore) : TimedStore where
  store := match c.operation with
    | .check => (c.check userId s).2
    | .record => c.record userId s
  expiresAt := some (c.now + c.window * 2)

/-- The order is accepted or recorded. -/
def OrderCall.counts (c : OrderCall) (s : TimedStore) : Bool :=
  match c.operation with
  | .check => (c.check userId s).1.allowed
  | .record => true

/-- The calls so far, the latest first. -/
abbrev History := List OrderCall

namespace History

/-- What the calls of the history leave. -/
def store : History → TimedStore
  | [] => .empty
  | c :: h => c.perform userId (store h)

/-- The calls that count. -/
def counted : History → List OrderCall
  | [] => []
  | c :: h => if c.counts userId (store userId h) then c :: counted h else counted h

/-- The times never go back. -/
def Nondecreasing (h : History) : Prop := h.Pairwise fun later earlier => earlier.now ≤ later.now

end History

/-! ## What is to hold -/

/-- The same symbol, side and number. -/
def Order.Same (valueOf : String → ℚ) (o o' : Order) : Prop :=
  o.symbol = o'.symbol ∧ o.side = o'.side ∧ valueOf o.quantity = valueOf o'.quantity

/-- An order that is the call's was accepted or recorded in the last `window` seconds. -/
def OrderCall.Duplicate (valueOf : String → ℚ) (h : History) (c : OrderCall) : Prop :=
  ∃ e ∈ h.counted userId, e.order.Same valueOf c.order ∧ c.now - c.window < e.now ∧ e.now ≤ c.now

/-- After the history, the check rejects exactly the duplicates. -/
def OrderCall.AnswersRight (valueOf : String → ℚ) (h : History) (c : OrderCall) : Prop :=
  (c.check userId (h.store userId)).1.allowed = false ↔ c.Duplicate userId valueOf h

/-! ## What is kept -/

/-- The time to live that the latest call has set has not run out. -/
def History.Live (h : History) (now : ℚ) : Prop := ∀ p ∈ h.head?, now < p.now + p.window * 2

/-- A check has a cutoff before `time`. -/
def OrderCall.Spares (c : OrderCall) (time : ℚ) : Prop :=
  c.operation = .check → c.now - c.window < time

/-- A call that counted for the order at `time` is kept by all calls since. -/
def History.Kept (o : Order) (time : ℚ) : History → Prop
  | [] => False
  | c :: h => (c.counts userId (History.store userId h) ∧ c.order = o ∧ c.now = time) ∨
      (Kept o time h ∧ History.Live h c.now ∧ c.Spares time)

/-! ## What one call does -/

/-- The set that the call leaves when it finds `z`. -/
def OrderCall.entries (c : OrderCall) (z : ZSet String ℚ) : ZSet String ℚ :=
  match c.operation with
  | .check => (zaddNx (orderMember c.order) c.now (zremrangebyscore (c.now - c.window) z)).1
  | .record => zadd (orderMember c.order) c.now z

section

variable {userId : UUID} {c : OrderCall} {s : TimedStore}

/-- A check allows the order when the slot is free. -/
theorem allowed_check_iff :
    (c.check userId s).1.allowed = true ↔
      zremrangebyscore (c.now - c.window) ((s.at userId c.now).recentOrders userId)
        (orderMember c.order) = none := by
  unfold OrderCall.check
  cases hslot : zremrangebyscore (c.now - c.window) ((s.at userId c.now).recentOrders userId)
      (orderMember c.order) with
  | none =>
    rw [checkDuplicateOrder_of_free hslot]
    exact iff_of_true rfl rfl
  | some score =>
    rw [checkDuplicateOrder_of_taken hslot]
    exact iff_of_false Bool.false_ne_true (Option.some_ne_none score)

/-- What a call leaves in the user's set, and for how long. -/
theorem recentOrders_perform :
    (c.perform userId s).store.recentOrders userId =
      expire (c.window * 2) (c.entries ((s.at userId c.now).recentOrders userId)) := by
  unfold OrderCall.perform OrderCall.entries
  cases c.operation with
  | check =>
    simp only [OrderCall.check]
    cases hslot : zremrangebyscore (c.now - c.window) ((s.at userId c.now).recentOrders userId)
        (orderMember c.order) with
    | none =>
      rw [checkDuplicateOrder_of_free hslot, zaddNx_of_not_mem hslot]
      exact Function.update_self ..
    | some score =>
      rw [checkDuplicateOrder_of_taken hslot, zaddNx_of_mem hslot]
      exact Function.update_self ..
  | record => exact Function.update_self ..

/-- A call that counts leaves its own time. -/
theorem entries_of_counts (h : c.counts userId s) :
    c.entries ((s.at userId c.now).recentOrders userId) (orderMember c.order) = some c.now := by
  unfold OrderCall.counts at h
  unfold OrderCall.entries
  cases hop : c.operation with
  | check =>
    simp only [hop] at h ⊢
    rw [zaddNx_of_not_mem (allowed_check_iff.mp h)]
    exact Function.update_self ..
  | record => exact Function.update_self ..

/-- Otherwise the call only trims. -/
theorem entries_of_not_counts {o : Order} {score : ℚ} (h : ¬ (c.counts userId s ∧ c.order = o)) :
    c.entries ((s.at userId c.now).recentOrders userId) (orderMember o) = some score ↔
      (s.at userId c.now).recentOrders userId (orderMember o) = some score ∧ c.Spares score := by
  unfold OrderCall.counts at h
  unfold OrderCall.entries OrderCall.Spares
  cases hop : c.operation with
  | check =>
    simp only [hop] at h ⊢
    by_cases ho : c.order = o
    · have htaken := mt allowed_check_iff.mpr fun hallowed => h ⟨hallowed, ho⟩
      obtain ⟨score', hslot⟩ := Option.ne_none_iff_exists'.mp htaken
      rw [zaddNx_of_mem hslot, zremrangebyscore_eq_some, true_imp_iff]
    · have hne : orderMember o ≠ orderMember c.order := fun heq => ho (orderMember_injective heq).symm
      rw [zaddNx_of_ne hne, zremrangebyscore_eq_some, true_imp_iff]
  | record =>
    simp only [hop, true_and] at h ⊢
    have hne : orderMember o ≠ orderMember c.order := fun heq => h (orderMember_injective heq).symm
    unfold zadd
    rw [Function.update_of_ne hne]
    simp only [reduceCtorEq, false_imp_iff, and_true]

end

/-! ## What the set says of an order -/

/-- The user's set as the next call, at the time `now`, finds it. -/
def History.recent (h : History) (now : ℚ) : ZSet String ℚ :=
  ((h.store userId).at userId now).recentOrders userId

section

variable {userId : UUID} {c : OrderCall} {h : History} {o : Order} {now time : ℚ}

/-- What a command finds in the user's set. -/
theorem recentOrders_at {s : TimedStore} {deadline : ℚ} (hs : s.expiresAt = some deadline) :
    (s.at userId now).recentOrders userId =
      if now < deadline then s.store.recentOrders userId else fun _ => none := by
  unfold TimedStore.at
  rw [hs, Option.any_some]
  by_cases hlt : now < deadline
  · rw [if_pos hlt, if_neg (by rwa [decide_eq_true_iff, not_le])]
  · rw [if_neg hlt, if_pos (by rwa [decide_eq_true_iff, ← not_lt])]
    exact Function.update_self ..

theorem live_cons : History.Live (c :: h) now ↔ now < c.now + c.window * 2 := by
  unfold History.Live
  simp only [List.head?_cons, Option.mem_some_iff, forall_eq']

/-- What the last call has left, until its time to live has run out. -/
theorem recent_cons (hle : c.now ≤ now) :
    History.recent userId (c :: h) now (orderMember o) = some time ↔
      c.entries (h.recent userId c.now) (orderMember o) = some time ∧ History.Live (c :: h) now := by
  have hrecent : History.recent userId (c :: h) now =
      if now < c.now + c.window * 2 then (History.store userId (c :: h)).store.recentOrders userId
      else fun _ => none := recentOrders_at rfl
  rw [live_cons, hrecent]
  by_cases hlt : now < c.now + c.window * 2
  · have hwindow : 0 < c.window * 2 := by
      have hcast : (0 : ℚ) < ((c.window * 2 : ℤ) : ℚ) := by
        push_cast
        linarith
      exact_mod_cast hcast
    have hexpire : ∀ z : ZSet String ℚ, expire (c.window * 2) z = z := fun z => if_pos hwindow
    have hstore : (History.store userId (c :: h)).store.recentOrders userId =
        c.entries (h.recent userId c.now) := recentOrders_perform.trans (hexpire _)
    rw [if_pos hlt, and_iff_left hlt, hstore]
  · rw [if_neg hlt]
    exact iff_of_false (Option.some_ne_none time).symm fun hand => hlt hand.2

/-- An entry of the set is a call that counted, and is kept. -/
theorem kept_of_recent (htimes : h.Nondecreasing) (hle : ∀ p ∈ h, p.now ≤ now)
    (hentry : h.recent userId now (orderMember o) = some time) :
    h.Kept userId o time ∧ h.Live now := by
  induction h generalizing now time with
  | nil => cases hentry
  | cons c h ih =>
    obtain ⟨hearlier, htimes⟩ := List.pairwise_cons.mp htimes
    obtain ⟨hentry, hlive⟩ := (recent_cons (hle c List.mem_cons_self)).mp hentry
    refine ⟨?_, hlive⟩
    by_cases hcounts : c.counts userId (History.store userId h) ∧ c.order = o
    · have hself := entries_of_counts hcounts.1
      rw [hcounts.2] at hself
      exact .inl ⟨hcounts.1, hcounts.2, Option.some.inj (hself.symm.trans hentry)⟩
    · obtain ⟨hentry, hspares⟩ := (entries_of_not_counts hcounts).mp hentry
      obtain ⟨hkept, hlive⟩ := ih htimes hearlier hentry
      exact .inr ⟨hkept, hlive, hspares⟩

/-- A kept call is not later than the next one. -/
theorem History.Kept.time_le (hkept : h.Kept userId o time) (hle : ∀ p ∈ h, p.now ≤ now) :
    time ≤ now := by
  induction h with
  | nil => cases hkept
  | cons c h ih =>
    obtain ⟨-, -, rfl⟩ | ⟨hkept, -, -⟩ := hkept
    · exact hle c List.mem_cons_self
    · exact ih hkept fun p hp => hle p (List.mem_cons_of_mem c hp)

/-- A call that counted for the order, and is kept, is in the set, or a later one is. -/
theorem exists_recent_of_kept (htimes : h.Nondecreasing) (hle : ∀ p ∈ h, p.now ≤ now)
    (hkept : h.Kept userId o time) (hlive : h.Live now) :
    ∃ score, time ≤ score ∧ h.recent userId now (orderMember o) = some score := by
  induction h generalizing now with
  | nil => cases hkept
  | cons c h ih =>
    obtain ⟨hearlier, htimes⟩ := List.pairwise_cons.mp htimes
    have hhead := hle c List.mem_cons_self
    have hlatest : ∀ p ∈ c :: h, p.now ≤ c.now := List.forall_mem_cons.mpr ⟨le_refl _, hearlier⟩
    by_cases hcounts : c.counts userId (History.store userId h) ∧ c.order = o
    · have hself := entries_of_counts hcounts.1
      rw [hcounts.2] at hself
      exact ⟨c.now, hkept.time_le hlatest, (recent_cons hhead).mpr ⟨hself, hlive⟩⟩
    · obtain ⟨hlast, horder, -⟩ | ⟨hkept, hbefore, hspares⟩ := hkept
      · exact absurd ⟨hlast, horder⟩ hcounts
      obtain ⟨score, hscore, hentry⟩ := ih htimes hearlier hkept hbefore
      have hspares' : c.Spares score := fun hcheck => (hspares hcheck).trans_le hscore
      exact ⟨score, hscore,
        (recent_cons hhead).mpr ⟨(entries_of_not_counts hcounts).mpr ⟨hentry, hspares'⟩, hlive⟩⟩

/-- A kept call is one that counted. -/
theorem History.Kept.exists_counted (hkept : h.Kept userId o time) :
    ∃ e ∈ h.counted userId, e.order = o ∧ e.now = time := by
  induction h with
  | nil => cases hkept
  | cons c h ih =>
    unfold History.counted
    obtain ⟨hcounts, horder, hnow⟩ | ⟨hkept, -, -⟩ := hkept
    · rw [if_pos hcounts]
      exact ⟨c, List.mem_cons_self, horder, hnow⟩
    · obtain ⟨e, he, heq⟩ := ih hkept
      split_ifs
      · exact ⟨e, List.mem_cons_of_mem c he, heq⟩
      · exact ⟨e, he, heq⟩

/-! ## The answer of a check -/

/-- A check rejects exactly the orders that are kept within its window. -/
theorem rejected_iff (htimes : History.Nondecreasing (c :: h)) :
    (c.check userId (h.store userId)).1.allowed = false ↔
      ∃ time, c.now - c.window < time ∧ h.Kept userId c.order time ∧ h.Live c.now := by
  obtain ⟨hearlier, htimes⟩ := List.pairwise_cons.mp htimes
  have hrejected : (c.check userId (h.store userId)).1.allowed = false ↔
      ∃ time, h.recent userId c.now (orderMember c.order) = some time ∧ c.now - c.window < time := by
    rw [← Bool.not_eq_true, allowed_check_iff, ← Ne, Option.ne_none_iff_exists']
    exact exists_congr fun time => zremrangebyscore_eq_some
  rw [hrejected]
  constructor
  · rintro ⟨time, hentry, hcutoff⟩
    exact ⟨time, hcutoff, kept_of_recent htimes hearlier hentry⟩
  · rintro ⟨time, hcutoff, hkept, hlive⟩
    obtain ⟨score, hscore, hentry⟩ := exists_recent_of_kept htimes hearlier hkept hlive
    exact ⟨score, hentry, hcutoff.trans_le hscore⟩

end

/-- In every history, a check is answered right exactly when a duplicate within its window
    means that a call that counted for the same text is within the window and kept. -/
theorem answersRight_iff (userId : UUID) (valueOf : String → ℚ) (h : History) (c : OrderCall)
    (htimes : History.Nondecreasing (c :: h)) :
    c.AnswersRight userId valueOf h ↔
      (c.Duplicate userId valueOf h →
        ∃ time, c.now - c.window < time ∧ h.Kept userId c.order time ∧ h.Live c.now) := by
  have hearlier := (List.pairwise_cons.mp htimes).1
  have hduplicate : (∃ time, c.now - c.window < time ∧ h.Kept userId c.order time ∧ h.Live c.now) →
      c.Duplicate userId valueOf h := by
    rintro ⟨time, hcutoff, hkept, -⟩
    obtain ⟨e, he, horder, rfl⟩ := hkept.exists_counted
    exact ⟨e, he, by rw [horder]; exact ⟨rfl, rfl, rfl⟩, hcutoff, hkept.time_le hearlier⟩
  unfold OrderCall.AnswersRight
  rw [rejected_iff htimes]
  exact ⟨fun hiff => hiff.mpr, fun hkept => ⟨hduplicate, hkept⟩⟩

/-- With one window, a call that counted within the last window is kept. -/
theorem kept_of_window {userId : UUID} {h : History} {window : ℤ} {now : ℚ} {e : OrderCall}
    (htimes : h.Nondecreasing) (hle : ∀ p ∈ h, p.now ≤ now) (hwindow : ∀ p ∈ h, p.window = window)
    (hcounted : e ∈ h.counted userId) (hlt : now - window < e.now) :
    h.Kept userId e.order e.now ∧ h.Live now := by
  induction h generalizing now with
  | nil => cases hcounted
  | cons p h ih =>
    obtain ⟨hearlier, htimes⟩ := List.pairwise_cons.mp htimes
    have hkept : History.Kept userId e.order e.now (p :: h) := by
      unfold History.counted at hcounted
      have hrest : e ∈ History.counted userId h → History.Kept userId e.order e.now (p :: h) := by
        intro he
        have hcutoff : p.now - window < e.now := by linarith [hle p List.mem_cons_self]
        obtain ⟨hkept, hlive⟩ := ih htimes hearlier
          (fun q hq => hwindow q (List.mem_cons_of_mem p hq)) he hcutoff
        refine .inr ⟨hkept, hlive, fun _ => ?_⟩
        rwa [hwindow p List.mem_cons_self]
      split_ifs at hcounted with hcounts
      · obtain rfl | he := List.mem_cons.mp hcounted
        · exact .inl ⟨hcounts, rfl, rfl⟩
        · exact hrest he
      · exact hrest hcounted
    refine ⟨hkept, live_cons.mpr ?_⟩
    -- The window is longer than the time since the last call.
    have hlatest : e.now ≤ p.now :=
      hkept.time_le (List.forall_mem_cons.mpr ⟨le_refl _, hearlier⟩)
    rw [hwindow p List.mem_cons_self]
    linarith [hle p List.mem_cons_self]

theorem mem_of_mem_counted {userId : UUID} {h : History} {e : OrderCall}
    (he : e ∈ h.counted userId) : e ∈ h := by
  induction h with
  | nil => cases he
  | cons c h ih =>
    unfold History.counted at he
    split_ifs at he
    · obtain rfl | he := List.mem_cons.mp he
      · exact List.mem_cons_self
      · exact List.mem_cons_of_mem c (ih he)
    · exact List.mem_cons_of_mem c (ih he)

/-- With one window for all calls, and one text for the number, every check is answered
    right. -/
theorem answersRight_of_window (userId : UUID) (valueOf : String → ℚ) (h : History) (c : OrderCall)
    (htimes : History.Nondecreasing (c :: h)) (hwindow : ∀ p ∈ h, p.window = c.window)
    (htext : ∀ e ∈ h, e.order.Same valueOf c.order → e.order = c.order) :
    c.AnswersRight userId valueOf h := by
  obtain ⟨hearlier, htimes'⟩ := List.pairwise_cons.mp htimes
  refine (answersRight_iff userId valueOf h c htimes).mpr ?_
  rintro ⟨e, he, hsame, hcutoff, -⟩
  obtain ⟨hkept, hlive⟩ := kept_of_window htimes' hearlier hwindow he hcutoff
  rw [htext e (mem_of_mem_counted he) hsame] at hkept
  exact ⟨e.now, hcutoff, hkept, hlive⟩

/-! ## Three calls -/

/-- An order is recorded, and half a minute later another one is checked with this window. -/
def recordThenCheck (window : ℤ) : History :=
  [⟨.check, tesla, window, 30⟩, ⟨.record, apple, 60, 0⟩]

/-- Ten seconds later the first order is checked. -/
def appleAgain : OrderCall := ⟨.check, apple, 60, 40⟩

theorem recordThenCheck_nondecreasing (window : ℤ) :
    History.Nondecreasing (appleAgain :: recordThenCheck window) := by
  have htimes : ([40, 30, 0] : List ℚ).Pairwise fun later earlier => earlier ≤ later := by decide +kernel
  exact List.pairwise_map.mp (show ((appleAgain :: recordThenCheck window).map OrderCall.now).Pairwise
    (fun later earlier => earlier ≤ later) from htimes)

/-- All windows are a minute. -/
theorem answersRight_iff_sample :
    appleAgain.AnswersRight default (fun _ => 10) (recordThenCheck 60) := by
  refine (answersRight_iff default (fun _ => 10) (recordThenCheck 60) appleAgain
    (recordThenCheck_nondecreasing 60)).mpr fun _ => ⟨0, by decide +kernel, ?_, ?_⟩
  · exact .inr ⟨.inl ⟨rfl, rfl, rfl⟩, live_cons.mpr (by decide +kernel), fun _ => by decide +kernel⟩
  · exact live_cons.mpr (by decide +kernel)

/-- The check of the other order has a window of ten seconds, and removes the record. -/
theorem shorter_window_forgets :
    ¬ ∀ (userId : UUID) (valueOf : String → ℚ) (h : History) (c : OrderCall),
      History.Nondecreasing (c :: h) → c.operation = .check → c.AnswersRight userId valueOf h := by
  intro hall
  have hright := hall default (fun _ => 10) (recordThenCheck 10) appleAgain
    (recordThenCheck_nondecreasing 10) rfl
  have hallowed : (appleAgain.check default ((recordThenCheck 10).store default)).1.allowed = true := by
    decide +kernel
  have hrejected := hright.mpr ⟨⟨.record, apple, 60, 0⟩, by decide +kernel, ⟨rfl, rfl, rfl⟩,
    by decide +kernel, by decide +kernel⟩
  exact Bool.false_ne_true (hrejected.symm.trans hallowed)

end Nivara.Safety
