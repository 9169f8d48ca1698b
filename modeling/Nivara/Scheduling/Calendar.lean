import Nivara.Common.Time

/-!
# `CalendarService`

The session hours of `services/calendar.py` (lines 160–215): the calendar of the library
`exchange_calendars`, and the overrides of the table `calendar_overrides`, which win.

* The library and its time zones are a parameter: sessions may be of any length, overlap, or
  close before they open. A lemma that needs more of the library says so.
* The exchanges are the supported ones, so `normalize_exchange` does nothing to them.
-/

namespace Nivara.Scheduling

/-- `SUPPORTED_EXCHANGES`. -/
inductive Exchange
  | xnys
  | xnas
  | xbom
  deriving DecidableEq, Repr

def Exchange.mic : Exchange → String
  | .xnys => "XNYS"
  | .xnas => "XNAS"
  | .xbom => "XBOM"

/-- `_typical_session_minutes`. -/
def typicalSessionMinutes : Exchange → ℤ
  | .xnys => 390
  | .xnas => 390
  | .xbom => 375

/-- What the service reads of an `ExchangeCalendar`. -/
structure ExchangeCalendar where
  /-- `ts.astimezone(cal.tz).date()`. -/
  localDate : ℤ → Date
  isSession : Date → Bool
  sessionOpen : Date → ℤ
  sessionClose : Date → ℤ

/-- A row of `calendar_overrides`. -/
structure CalendarOverride where
  isOpen : Bool
  deriving DecidableEq

/-- `_override_for`: the table has at most one row for an exchange and a date. -/
abbrev Overrides := Exchange → Date → Option CalendarOverride

structure SessionHours where
  exchange : Exchange
  sessionDate : Date
  isOpen : Bool
  openUtc : Option ℤ
  closeUtc : Option ℤ
  isHalfDay : Bool
  source : String
  deriving DecidableEq

/-- `get_session_hours`. -/
def getSessionHours (library : Exchange → ExchangeCalendar) (overrides : Overrides)
    (exchange : Exchange) (on : Date) : SessionHours :=
  let override := overrides exchange on
  if override.any (!·.isOpen) then
    { exchange := exchange
      sessionDate := on
      isOpen := false
      openUtc := none
      closeUtc := none
      isHalfDay := false
      source := "override" }
  else
    let cal := library exchange
    if !cal.isSession on then
      { exchange := exchange
        sessionDate := on
        isOpen := false
        openUtc := none
        closeUtc := none
        isHalfDay := false
        source := "closed" }
    else
      let openUtc := cal.sessionOpen on
      let closeUtc := cal.sessionClose on
      { exchange := exchange
        sessionDate := on
        isOpen := true
        openUtc := some openUtc
        closeUtc := some closeUtc
        -- an hour shorter than the sessions of the exchange are
        isHalfDay := closeUtc - openUtc < minutes (typicalSessionMinutes exchange - 60)
        source := if override.any (·.isOpen) then "override" else "library" }

variable {library : Exchange → ExchangeCalendar} {overrides : Overrides} {exchange : Exchange}
  {on : Date}

/-- An open session has the hours of the library. -/
theorem getSessionHours_of_isOpen (h : (getSessionHours library overrides exchange on).isOpen = true) :
    (getSessionHours library overrides exchange on).openUtc = some ((library exchange).sessionOpen on) ∧
      (getSessionHours library overrides exchange on).closeUtc =
        some ((library exchange).sessionClose on) := by
  unfold getSessionHours at h ⊢
  simp only at h ⊢
  split_ifs at h ⊢ <;> exact ⟨rfl, rfl⟩

theorem getSessionHours_sessionDate :
    (getSessionHours library overrides exchange on).sessionDate = on := by
  unfold getSessionHours
  simp only
  split_ifs <;> rfl

end Nivara.Scheduling
