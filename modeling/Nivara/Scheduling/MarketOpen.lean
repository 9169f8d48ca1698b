import Nivara.Scheduling.Calendar

/-!
# `is_market_open` and `get_session_hours`

The two questions that `CalendarService` (`services/calendar.py`, lines 129–212) answers about a
session: whether an exchange trades at an instant, and between which instants it trades on a date.
The first asks the library for a minute and the second for a session.

* The library raises outside of the dates it has loaded. `is_market_open` takes that for a closed
  market; `get_session_hours` lets it through, unless a closing override comes before.
* That the trading minutes of the library are those of its sessions is `TradingMinutes`.

Results:

* `isMarketOpen_iff`: the market is open within a session of the library that no override closes.
* `agree_iff`: on which instants the two answers agree.
-/

namespace Nivara.Scheduling

/-! ## The library, with its loaded range -/

/-- What the service reads of an `ExchangeCalendar`, the exceptions included. -/
structure LoadedCalendar extends ExchangeCalendar where
  /-- Whether the date is within the loaded range; `is_session` raises where it is not. -/
  covers : Date → Bool
  /-- `is_trading_minute`; `none` when it raises. -/
  isTradingMinute : ℤ → Option Bool

/-- The instant lies in the session of the date, the close excluded. -/
def ExchangeCalendar.InSession (cal : ExchangeCalendar) (date : Date) (ts : ℤ) : Prop :=
  cal.isSession date = true ∧ cal.sessionOpen date ≤ ts ∧ ts < cal.sessionClose date

/-- The trading minutes are those from the open of a loaded session to its close. -/
def LoadedCalendar.TradingMinutes (cal : LoadedCalendar) : Prop :=
  ∀ ts, cal.isTradingMinute ts = some true ↔ ∃ date, cal.covers date = true ∧ cal.InSession date ts

section Model

variable (library : Exchange → LoadedCalendar) (overrides : Overrides) (exchange : Exchange)

/-- `is_market_open`. -/
def isMarketOpen (ts : ℤ) : Bool :=
  let cal := library exchange
  let override := overrides exchange (cal.localDate ts)
  if override.any (!·.isOpen) then false
  else
    -- an exception of the library is a closed market
    let isSession := (cal.isTradingMinute ts).getD false
    if override.any (·.isOpen) then isSession else isSession

/-- `get_session_hours`; `none` when the library raises. -/
def loadedSessionHours (on : Date) : Option SessionHours :=
  if (overrides exchange on).any (!·.isOpen) || (library exchange).covers on then
    some (getSessionHours (fun e => (library e).toExchangeCalendar) overrides exchange on)
  else none

end Model

/-- The hours say that the exchange trades at the instant. -/
def SessionHours.OpenAt (hours : SessionHours) (ts : ℤ) : Prop :=
  hours.isOpen = true ∧ hours.openUtc.any (· ≤ ts) ∧ hours.closeUtc.any (ts < ·)

/-- Neither call raises, and they agree on the instant. -/
def Agree (library : Exchange → LoadedCalendar) (overrides : Overrides) (exchange : Exchange)
    (ts : ℤ) : Prop :=
  ∃ hours, loadedSessionHours library overrides exchange ((library exchange).localDate ts) = some hours ∧
    (isMarketOpen library overrides exchange ts = true ↔ hours.OpenAt ts)

/-- An override that closes the exchange on the date. -/
def Closed (overrides : Overrides) (exchange : Exchange) (date : Date) : Prop :=
  (overrides exchange date).any (!·.isOpen) = true

/-! ## What the two calls answer -/

variable {library : Exchange → LoadedCalendar} {overrides : Overrides} {exchange : Exchange} {ts : ℤ}
  {date : Date}

/-- The hours of an exchange that no override closes are those of the library. -/
theorem openAt_getSessionHours (calendar : Exchange → ExchangeCalendar) :
    (getSessionHours calendar overrides exchange date).OpenAt ts ↔
      ¬ Closed overrides exchange date ∧ (calendar exchange).InSession date ts := by
  unfold getSessionHours SessionHours.OpenAt Closed ExchangeCalendar.InSession
  by_cases hclosed : (overrides exchange date).any (!·.isOpen) = true
  · simp [hclosed]
  · cases hsession : (calendar exchange).isSession date <;> simp [hclosed, hsession]

theorem isMarketOpen_of_closed (hclosed : Closed overrides exchange ((library exchange).localDate ts)) :
    isMarketOpen library overrides exchange ts = false := if_pos hclosed

theorem isMarketOpen_of_not_closed
    (hclosed : ¬ Closed overrides exchange ((library exchange).localDate ts)) :
    isMarketOpen library overrides exchange ts = ((library exchange).isTradingMinute ts).getD false := by
  unfold isMarketOpen
  exact (if_neg hclosed).trans (ite_self _)

/-- The market is open in every session of the library, unless an override closes the local date. -/
theorem isMarketOpen_iff (hminutes : (library exchange).TradingMinutes) :
    isMarketOpen library overrides exchange ts = true ↔
      ¬ Closed overrides exchange ((library exchange).localDate ts) ∧
        ∃ date, (library exchange).covers date = true ∧ (library exchange).InSession date ts := by
  by_cases hclosed : Closed overrides exchange ((library exchange).localDate ts)
  · simp [isMarketOpen_of_closed hclosed, hclosed]
  · rw [isMarketOpen_of_not_closed hclosed, ← hminutes ts, and_iff_right hclosed]
    cases (library exchange).isTradingMinute ts <;> simp

/-! ## Where they agree -/

/-- The two calls agree on an instant exactly when an override closes its local date, or the
    library has loaded that date and has no session of another date about the instant. -/
theorem agree_iff (hminutes : (library exchange).TradingMinutes) (overrides : Overrides) (ts : ℤ) :
    Agree library overrides exchange ts ↔
      Closed overrides exchange ((library exchange).localDate ts) ∨
        (library exchange).covers ((library exchange).localDate ts) = true ∧
          ∀ date, (library exchange).covers date = true → (library exchange).InSession date ts →
            (library exchange).InSession ((library exchange).localDate ts) ts := by
  unfold Agree loadedSessionHours
  by_cases hclosed : Closed overrides exchange ((library exchange).localDate ts)
  · -- both say that it is closed, whether or not the date is loaded
    have hor : ((overrides exchange ((library exchange).localDate ts)).any (!·.isOpen) ||
        (library exchange).covers ((library exchange).localDate ts)) = true := by
      rw [show (overrides exchange ((library exchange).localDate ts)).any (!·.isOpen) = true from hclosed,
        Bool.true_or]
    refine iff_of_true ⟨_, if_pos hor, ?_⟩ (.inl hclosed)
    rw [isMarketOpen_iff hminutes, openAt_getSessionHours]
    simp only [hclosed, not_true_eq_false, false_and]
  · have hor : ((overrides exchange ((library exchange).localDate ts)).any (!·.isOpen) ||
        (library exchange).covers ((library exchange).localDate ts)) =
          (library exchange).covers ((library exchange).localDate ts) := by
      rw [Bool.eq_false_iff.mpr hclosed, Bool.false_or]
    rw [hor, or_iff_right hclosed]
    cases hcovers : (library exchange).covers ((library exchange).localDate ts) with
    | false => simp
    | true =>
      simp only [if_true, Option.some.injEq, exists_eq_left', true_and]
      rw [isMarketOpen_iff hminutes, openAt_getSessionHours, and_iff_right hclosed, and_iff_right hclosed]
      constructor
      · intro h date hdate hin
        exact h.mp ⟨date, hdate, hin⟩
      · intro h
        exact ⟨fun ⟨date, hdate, hin⟩ => h date hdate hin, fun hin => ⟨_, hcovers, hin⟩⟩

/-! ## A library that ends with 2027 -/

/-- Midnight in New York, at the beginning of 2028. -/
def newYear : ℤ := hours (24 * 21184 + 5)

/-- The last day of 2027 and what is loaded of it: a session of six and a half hours. -/
def lastSession (_ : Exchange) : LoadedCalendar where
  localDate ts :=
    if ts < newYear then ⟨2027, 12, 31, by decide, by decide, by decide⟩
    else ⟨2028, 1, 1, by decide, by decide, by decide⟩
  isSession date := date = ⟨2027, 12, 31, by decide, by decide, by decide⟩
  sessionOpen _ := newYear - minutes (14 * 60 + 30)
  sessionClose _ := newYear - hours 8
  covers date := date.year ≤ 2027
  isTradingMinute ts :=
    if newYear - hours 8 ≤ ts then none else some (newYear - minutes (14 * 60 + 30) ≤ ts)

theorem lastSession_tradingMinutes (exchange : Exchange) : (lastSession exchange).TradingMinutes := by
  intro ts
  constructor
  · intro h
    refine ⟨⟨2027, 12, 31, by decide, by decide, by decide⟩, rfl, rfl, ?_⟩
    simp only [lastSession] at h ⊢
    split_ifs at h with hclose
    exact ⟨of_decide_eq_true (Option.some.inj h), not_le.mp hclose⟩
  · rintro ⟨date, -, -, hopen, hclose⟩
    simp only [lastSession] at hopen hclose ⊢
    rw [if_neg (not_le.mpr hclose), decide_eq_true hopen]

theorem agree_iff_sample :
    Agree lastSession (fun _ _ => none) .xnys (newYear - hours 12) ↔
      Closed (fun _ _ => none) .xnys ((lastSession .xnys).localDate (newYear - hours 12)) ∨
        (lastSession .xnys).covers ((lastSession .xnys).localDate (newYear - hours 12)) = true ∧
          ∀ date, (lastSession .xnys).covers date = true →
            (lastSession .xnys).InSession date (newYear - hours 12) →
              (lastSession .xnys).InSession ((lastSession .xnys).localDate (newYear - hours 12))
                (newYear - hours 12) :=
  agree_iff (lastSession_tradingMinutes .xnys) (fun _ _ => none) (newYear - hours 12)

/-- On the first day of 2028 the market is said to be closed, and the hours raise. -/
theorem hours_raise_beyond_range :
    ¬ ∀ (library : Exchange → LoadedCalendar) (overrides : Overrides) (exchange : Exchange) (ts : ℤ),
      (library exchange).TradingMinutes → Agree library overrides exchange ts := by
  intro h
  obtain ⟨hours, hhours, -⟩ :=
    h lastSession (fun _ _ => none) .xnys newYear (lastSession_tradingMinutes .xnys)
  revert hhours
  have hraises : loadedSessionHours lastSession (fun _ _ => none) .xnys
      ((lastSession .xnys).localDate newYear) = none := by decide
  rw [hraises]
  exact nofun

end Nivara.Scheduling
