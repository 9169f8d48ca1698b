import Nivara.Common.Dates
import Nivara.Scheduling.MarketOpen

/-!
# `next_session_close`

The search of `CalendarService.next_session_close` (`services/calendar.py`, lines 214–235): from the
local date of an instant on, 20 dates are asked for their hours, until one of them has a close that
is still to come.

* The library raises for a date that it has not loaded, and Python for a date after the year 9999.
* What is assumed of a calendar is `Regular`; that its closes increase with the dates follows.

Results:

* `nextSessionClose_first`: what is returned is the first close to come, and nothing is
  returned only when there is none on the 20 dates.
-/

namespace Nivara.Scheduling

/-! ## Model -/

/-- What the method raises. -/
inductive NextCloseError
  /-- `ValueError`: "datetime must be timezone-aware (use UTC)". -/
  | naive
  /-- The library raises for a date that it has not loaded. -/
  | notLoaded
  /-- `OverflowError`: there is no date after 9999-12-31. -/
  | dateOutOfRange
  /-- `RuntimeError`: "no upcoming session close found". -/
  | noUpcomingClose (exchange : Exchange) (ts : ℤ)
  deriving DecidableEq

/-- `_ensure_utc`. -/
def ensureUtc : Timestamp → Except NextCloseError ℤ
  | .aware ts => .ok ts
  | .naive _ => .error .naive

/-- The close of the hours, when they are open and it is still to come. -/
def SessionHours.upcomingClose (hours : SessionHours) (ts : ℤ) : Option ℤ :=
  hours.closeUtc.filter fun closeUtc => hours.isOpen && ts ≤ closeUtc

section Model

variable (library : Exchange → LoadedCalendar) (overrides : Overrides) (exchange : Exchange)

/-- The loop, with the number of dates that it may still ask for. -/
def searchClose (ts : ℤ) : ℕ → Date → Except NextCloseError ℤ
  | 0, _ => .error (.noUpcomingClose exchange ts)
  | n + 1, candidate =>
    match loadedSessionHours library overrides exchange candidate with
    | none => .error .notLoaded
    | some hours =>
      match hours.upcomingClose ts with
      | some closeUtc => .ok closeUtc
      | none =>
        match candidate.addDays 1 with
        | none => .error .dateOutOfRange
        | some candidate => searchClose ts n candidate

/-- `next_session_close`. -/
def nextSessionClose (tsUtc : Timestamp) : Except NextCloseError ℤ := do
  let ts ← ensureUtc tsUtc
  searchClose library overrides exchange ts 20 ((library exchange).localDate ts)

/-- A session that no override vetoes. -/
def HasSession (date : Date) : Prop :=
  ¬ Closed overrides exchange date ∧ (library exchange).isSession date = true

/-- It closes at the instant or later. -/
def Upcoming (ts : ℤ) (date : Date) : Prop :=
  HasSession library overrides exchange date ∧ ts ≤ (library exchange).sessionClose date

end Model

/-! ## What is assumed of a calendar -/

/-- A calendar in which every session closes on its own date. -/
structure ExchangeCalendar.Regular (cal : ExchangeCalendar) : Prop where
  isValid : ∀ ts, (cal.localDate ts).IsValid
  /-- The clock of the exchange never goes back to an earlier date. -/
  localDate_mono : ∀ ts ts', ts ≤ ts' → ¬ (cal.localDate ts').Before (cal.localDate ts)
  localDate_sessionClose : ∀ date, cal.isSession date = true → cal.localDate (cal.sessionClose date) = date

/-- The calendar has loaded the `n` dates from `date` on. -/
def LoadedCalendar.CoversFrom (cal : LoadedCalendar) (n : ℕ) (date : Date) : Prop :=
  ∀ k < n, ∃ on, date.addDays k = some on ∧ cal.covers on = true

namespace ExchangeCalendar.Regular

variable {cal : ExchangeCalendar} {date date' : Date} {ts : ℤ}

theorem isValid_of_isSession (h : cal.Regular) (hsession : cal.isSession date = true) : date.IsValid := by
  rw [← h.localDate_sessionClose date hsession]
  exact h.isValid _

/-- A session that closes before another one is of an earlier date. -/
theorem before_of_sessionClose_lt (h : cal.Regular) (hsession : cal.isSession date = true)
    (hsession' : cal.isSession date' = true) (hlt : cal.sessionClose date < cal.sessionClose date') :
    date.Before date' := by
  by_contra hnot
  have hmono := h.localDate_mono _ _ hlt.le
  rw [h.localDate_sessionClose date hsession, h.localDate_sessionClose date' hsession'] at hmono
  exact hlt.ne (congrArg cal.sessionClose (Date.eq_of_not_before hnot hmono))

/-- The closes increase with the dates. -/
theorem sessionClose_lt_of_before (h : cal.Regular) (hsession : cal.isSession date = true)
    (hsession' : cal.isSession date' = true) (hbefore : date.Before date') :
    cal.sessionClose date < cal.sessionClose date' := by
  by_contra hnot
  have hmono := h.localDate_mono _ _ (not_lt.mp hnot)
  rw [h.localDate_sessionClose date hsession, h.localDate_sessionClose date' hsession'] at hmono
  exact hmono hbefore

/-- A close that is still to come is that of no earlier date. -/
theorem not_before_localDate (h : cal.Regular) (hsession : cal.isSession date = true)
    (hclose : ts ≤ cal.sessionClose date) : ¬ date.Before (cal.localDate ts) := by
  have hmono := h.localDate_mono _ _ hclose
  rwa [h.localDate_sessionClose date hsession] at hmono

end ExchangeCalendar.Regular

/-! ## The search -/

variable {library : Exchange → LoadedCalendar} {overrides : Overrides} {exchange : Exchange} {ts : ℤ}
  {date : Date}

/-- The hours of a date have a close to come exactly when a session of that date is to close. -/
theorem upcomingClose_eq_some {calendar : Exchange → ExchangeCalendar} {close : ℤ} :
    (getSessionHours calendar overrides exchange date).upcomingClose ts = some close ↔
      (¬ Closed overrides exchange date ∧ (calendar exchange).isSession date = true) ∧ ts ≤ close ∧
        (calendar exchange).sessionClose date = close := by
  unfold getSessionHours SessionHours.upcomingClose Closed
  by_cases hclosed : (overrides exchange date).any (!·.isOpen) = true
  · simp [hclosed]
  · cases hsession : (calendar exchange).isSession date <;>
      simp [hclosed, hsession, Option.filter_eq_some_iff, and_comm]

/-- One date of the search, when the calendar has loaded it. -/
theorem searchClose_succ (overrides : Overrides) (ts : ℤ) (n : ℕ) (hcovers : (library exchange).covers date = true) :
    (Upcoming library overrides exchange ts date ∧
      searchClose library overrides exchange ts (n + 1) date =
        .ok ((library exchange).sessionClose date)) ∨
    (¬ Upcoming library overrides exchange ts date ∧
      searchClose library overrides exchange ts (n + 1) date =
        match date.nextDay with
        | none => .error .dateOutOfRange
        | some next => searchClose library overrides exchange ts n next) := by
  have hhours : loadedSessionHours library overrides exchange date =
      some (getSessionHours (fun e => (library e).toExchangeCalendar) overrides exchange date) :=
    if_pos (by rw [hcovers, Bool.or_true])
  have hiff (close : ℤ) :
      (getSessionHours (fun e => (library e).toExchangeCalendar) overrides exchange date).upcomingClose ts =
          some close ↔
        HasSession library overrides exchange date ∧ ts ≤ close ∧
          (library exchange).sessionClose date = close := upcomingClose_eq_some
  cases hclose : (getSessionHours (fun e => (library e).toExchangeCalendar) overrides exchange
      date).upcomingClose ts with
  | some close =>
    obtain ⟨hsession, hle, heq⟩ := (hiff close).mp hclose
    refine .inl ⟨⟨hsession, heq ▸ hle⟩, ?_⟩
    simp only [searchClose, hhours, hclose]
    exact congrArg Except.ok heq.symm
  | none =>
    refine .inr ⟨fun hup => ?_, ?_⟩
    · rw [(hiff _).mpr ⟨hup.1, hup.2, rfl⟩] at hclose
      cases hclose
    · simp only [searchClose, hhours, hclose, Date.addDays_one]

theorem coversFrom_nextDay {cal : LoadedCalendar} {n : ℕ} {next : Date} (h : cal.CoversFrom (n + 1) date)
    (hnext : date.nextDay = some next) : cal.CoversFrom n next := by
  intro k hk
  obtain ⟨on, hon, hcovers⟩ := h (k + 1) (Nat.succ_lt_succ hk)
  rw [Date.addDays, hnext] at hon
  exact ⟨on, hon, hcovers⟩

/-- What is returned is the close of the first date that has one to come. -/
theorem of_searchClose_eq_ok {n : ℕ} {close : ℤ} (hcovers : (library exchange).CoversFrom n date)
    (hok : searchClose library overrides exchange ts n date = .ok close) :
    ∃ k on, date.addDays k = some on ∧ Upcoming library overrides exchange ts on ∧
      (library exchange).sessionClose on = close ∧
      ∀ j < k, ∀ on', date.addDays j = some on' → ¬ Upcoming library overrides exchange ts on' := by
  induction n generalizing date with
  | zero => cases hok
  | succ n ih =>
    obtain ⟨_, ⟨⟩, hloaded⟩ := hcovers 0 (Nat.succ_pos n)
    rcases searchClose_succ overrides ts n hloaded with
      ⟨hup, hstep⟩ | ⟨hnot, hstep⟩
    · rw [hstep] at hok
      exact ⟨0, date, rfl, hup, Except.ok.inj hok, fun j hj => absurd hj (Nat.not_lt_zero j)⟩
    · rw [hstep] at hok
      cases hnext : date.nextDay with
      | none =>
        rw [hnext] at hok
        cases hok
      | some next =>
        rw [hnext] at hok
        obtain ⟨k, on, hon, hup, hclose, hfirst⟩ := ih (coversFrom_nextDay hcovers hnext) hok
        refine ⟨k + 1, on, by rw [Date.addDays, hnext]; exact hon, hup, hclose, ?_⟩
        intro j hj on' hon'
        cases j with
        | zero =>
          cases hon'
          exact hnot
        | succ j =>
          rw [Date.addDays, hnext] at hon'
          exact hfirst j (Nat.lt_of_succ_lt_succ hj) on' hon'

/-- The search raises exactly when no date it asks for has a close to come. -/
theorem searchClose_raises_iff {n : ℕ} (hcovers : (library exchange).CoversFrom n date) :
    (∃ e, searchClose library overrides exchange ts n date = .error e) ↔
      ∀ k < n, ∀ on, date.addDays k = some on → ¬ Upcoming library overrides exchange ts on := by
  induction n generalizing date with
  | zero => exact iff_of_true ⟨_, rfl⟩ fun k hk => absurd hk (Nat.not_lt_zero k)
  | succ n ih =>
    obtain ⟨_, ⟨⟩, hloaded⟩ := hcovers 0 (Nat.succ_pos n)
    rcases searchClose_succ overrides ts n hloaded with
      ⟨hup, hstep⟩ | ⟨hnot, hstep⟩
    · rw [hstep]
      refine iff_of_false ?_ fun h => h 0 (Nat.succ_pos n) date rfl hup
      rintro ⟨e, he⟩
      cases he
    · rw [hstep]
      cases hnext : date.nextDay with
      | none =>
        refine iff_of_true ⟨_, rfl⟩ ?_
        intro k _ on hon
        cases k with
        | zero =>
          cases hon
          exact hnot
        | succ k =>
          rw [Date.addDays, hnext] at hon
          cases hon
      | some next =>
        refine (ih (coversFrom_nextDay hcovers hnext)).trans ⟨fun h k hk on hon => ?_, fun h k hk on hon => ?_⟩
        · cases k with
          | zero =>
            cases hon
            exact hnot
          | succ k =>
            rw [Date.addDays, hnext] at hon
            exact h k (Nat.lt_of_succ_lt_succ hk) on hon
        · refine h (k + 1) (Nat.succ_lt_succ hk) on ?_
          rw [Date.addDays, hnext]
          exact hon

/-- On a calendar that has loaded the 20 dates, a close that is returned is to come, is that of a
    session that no override vetoes, and is the first such close. The method raises exactly when
    none of the 20 dates has one. -/
theorem nextSessionClose_first (overrides : Overrides) (ts : ℤ) (hregular : (library exchange).Regular)
    (hcovers : (library exchange).CoversFrom 20 ((library exchange).localDate ts)) :
    (∀ close, nextSessionClose library overrides exchange (.aware ts) = .ok close →
      ts ≤ close ∧
      (∃ date, HasSession library overrides exchange date ∧
        (library exchange).sessionClose date = close) ∧
      ∀ date, HasSession library overrides exchange date →
        ¬ (ts ≤ (library exchange).sessionClose date ∧ (library exchange).sessionClose date < close)) ∧
    ((∃ e, nextSessionClose library overrides exchange (.aware ts) = .error e) ↔
      ∀ k < 20, ∀ date, ((library exchange).localDate ts).addDays k = some date →
        ¬ (HasSession library overrides exchange date ∧ ts ≤ (library exchange).sessionClose date)) := by
  refine ⟨?_, searchClose_raises_iff hcovers⟩
  intro close hok
  obtain ⟨k, on, hon, hup, rfl, hfirst⟩ := of_searchClose_eq_ok hcovers hok
  refine ⟨hup.2, ⟨on, hup.1, rfl⟩, ?_⟩
  rintro date hsession ⟨hle, hlt⟩
  -- an earlier close would be that of a date the search has passed
  have hbefore := hregular.before_of_sessionClose_lt hsession.2 hup.1.2 hlt
  have hfrom := hregular.not_before_localDate hsession.2 hle
  obtain ⟨j, hj, hdate⟩ :=
    Date.exists_addDays (hregular.isValid_of_isSession hsession.2) hfrom hon hbefore
  exact hfirst j hj date hdate ⟨hsession, hle⟩

/-! ## The last session of 2027 -/

/-- The session of `lastSession`, in a calendar that is loaded until the end of 2028. -/
def leapCalendar (exchange : Exchange) : LoadedCalendar :=
  { lastSession exchange with covers := fun date => date.year ≤ 2028 }

theorem leapCalendar_localDate_cases (exchange : Exchange) (ts : ℤ) :
    (ts < newYear ∧ (leapCalendar exchange).localDate ts = (leapCalendar .xnys).localDate 0) ∨
      (newYear ≤ ts ∧ (leapCalendar exchange).localDate ts = (leapCalendar .xnys).localDate newYear) := by
  rcases lt_or_ge ts newYear with hlt | hge
  · exact .inl ⟨hlt, if_pos hlt⟩
  · exact .inr ⟨hge, if_neg (not_lt.mpr hge)⟩

theorem leapCalendar_regular (exchange : Exchange) : (leapCalendar exchange).Regular where
  isValid ts := by
    unfold Date.IsValid
    rcases leapCalendar_localDate_cases exchange ts with ⟨-, h⟩ | ⟨-, h⟩ <;> rw [h] <;> decide +kernel
  localDate_mono ts ts' hle := by
    rcases leapCalendar_localDate_cases exchange ts with ⟨hts, h⟩ | ⟨hts, h⟩ <;>
      rcases leapCalendar_localDate_cases exchange ts' with ⟨hts', h'⟩ | ⟨hts', h'⟩ <;> rw [h, h']
    · exact Date.not_before_self _
    · unfold Date.Before
      decide +kernel
    · omega
    · exact Date.not_before_self _
  localDate_sessionClose date hsession := by
    have hdate : date = (leapCalendar .xnys).localDate 0 := of_decide_eq_true hsession
    rcases leapCalendar_localDate_cases exchange ((leapCalendar exchange).sessionClose date) with
      ⟨-, h⟩ | ⟨hge, -⟩
    · exact h.trans hdate.symm
    · have hclose : newYear ≤ newYear - hours 8 := hge
      exact absurd hclose (by decide)

theorem leapCalendar_coversFrom :
    (leapCalendar .xnys).CoversFrom 20 ((leapCalendar .xnys).localDate (newYear - hours 12)) := by
  have hloaded : ∀ k < 20, (((leapCalendar .xnys).localDate (newYear - hours 12)).addDays k).any
      (leapCalendar .xnys).covers = true := by decide +kernel
  intro k hk
  exact (Option.any_eq_true _ _).mp (hloaded k hk)

/-- Four hours before the close. -/
theorem nextSessionClose_first_sample :
    (∀ close, nextSessionClose leapCalendar (fun _ _ => none) .xnys (.aware (newYear - hours 12)) = .ok close →
      newYear - hours 12 ≤ close ∧
      (∃ date, HasSession leapCalendar (fun _ _ => none) .xnys date ∧
        (leapCalendar .xnys).sessionClose date = close) ∧
      ∀ date, HasSession leapCalendar (fun _ _ => none) .xnys date →
        ¬ (newYear - hours 12 ≤ (leapCalendar .xnys).sessionClose date ∧
          (leapCalendar .xnys).sessionClose date < close)) ∧
    ((∃ e, nextSessionClose leapCalendar (fun _ _ => none) .xnys (.aware (newYear - hours 12)) = .error e) ↔
      ∀ k < 20, ∀ date, ((leapCalendar .xnys).localDate (newYear - hours 12)).addDays k = some date →
        ¬ (HasSession leapCalendar (fun _ _ => none) .xnys date ∧
          newYear - hours 12 ≤ (leapCalendar .xnys).sessionClose date)) :=
  nextSessionClose_first (fun _ _ => none) (newYear - hours 12) (leapCalendar_regular .xnys)
    leapCalendar_coversFrom

end Nivara.Scheduling
