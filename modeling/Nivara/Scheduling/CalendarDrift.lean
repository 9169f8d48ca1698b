import Nivara.Common.Dates
import Nivara.Common.Text
import Nivara.Lib.Dict
import Nivara.Scheduling.MarketOpen

/-!
# Closures that the library does not know

A broker that reports a market closed leaves a row in `calendar_overrides`
(`record_unexpected_closed`, `services/calendar.py`, lines 246–297), the service closes the session
for it, and the weekly sweep lists the rows that differ from the library (`verify_calendars`,
`tasks/calendar_verify.py`, lines 68–135).

* `str.upper` is a parameter.
* The table has at most one row for an exchange and a date, so that a report replaces its row.
* The library raises for a date that it has not loaded.

Results:

* `get_recorded`: the row of an exchange and a date is the last closure reported, or the old row.
* `walk_eq_ok`: what the sweep of an exchange collects.
* `drifts_of_reports`: the sweep lists what was reported against the library, and the service departs
  from the library exactly where the sweep says so.
-/

namespace Nivara.Scheduling

open Keyed (lastFor)

/-! ## The table -/

/-- A row of `calendar_overrides`. -/
structure OverrideRow where
  isOpen : Bool
  reason : Option String
  deriving DecidableEq

/-- The rows, by exchange and date. -/
abbrev OverrideTable := Dict (String × Date) OverrideRow

/-- `_override_for`. -/
def OverrideTable.overrides (table : OverrideTable) : Overrides := fun exchange on =>
  (table.get (exchange.mic, on)).map fun row => ⟨row.isOpen⟩

/-- `_SEED_TO_MIC`. -/
def seedToMic : List (String × Exchange) :=
  [("NYSE", .xnys), ("NASDAQ", .xnas), ("ARCX", .xnys), ("BATS", .xnys), ("BSE", .xbom), ("NSE", .xbom)]

/-- `normalize_exchange`; `none` is a `ValueError`. -/
def normalizeExchange (upper : String → String) (value : String) : Option Exchange :=
  if value = "" then none
  else
    let upper := upper (strip value)
    match [Exchange.xnys, .xnas, .xbom].find? (·.mic = upper) with
    | some mic => some mic
    | none => (seedToMic.find? (·.1 = upper)).map Prod.snd

/-- The arguments of a call of `record_unexpected_closed`. -/
structure ClosedReport where
  exchange : String
  on : Date
  reason : String

/-- `record_unexpected_closed`; an unsupported exchange raises before the table is read. -/
def recordUnexpectedClosed (upper : String → String) (table : OverrideTable) (r : ClosedReport) :
    OverrideTable :=
  match normalizeExchange upper r.exchange with
  | none => table
  | some mic => table.assign (mic.mic, r.on) ⟨false, some r.reason⟩

/-! ## The sweep -/

structure Drift where
  exchange : Exchange
  on : Date
  librarySaysOpen : Bool
  overrideSaysOpen : Bool
  reason : String
  deriving DecidableEq

/-- What the sweep raises. -/
inductive VerifyError
  /-- The library raises for a date that it has not loaded. -/
  | notLoaded
  /-- `OverflowError`: there is no date after 9999-12-31. -/
  | dateOutOfRange
  deriving DecidableEq

/-- `reason or "(no reason recorded)"`. -/
def OverrideRow.reasonText (row : OverrideRow) : String :=
  match row.reason with
  | some reason => if reason = "" then "(no reason recorded)" else reason
  | none => "(no reason recorded)"

/-- The drift of a date that has a row. -/
def driftOn (cal : ExchangeCalendar) (exchange : Exchange) (on : Date) (row : OverrideRow) : Option Drift :=
  if cal.isSession on = row.isOpen then none
  else some ⟨exchange, on, cal.isSession on, row.isOpen, row.reasonText⟩

/-- The rows of an exchange from one date to another, by date. -/
def rowsBetween (table : OverrideTable) (mic : Exchange) (today horizonEnd : Date) :
    Dict Date OverrideRow :=
  Dict.ofWrites ((table.items.filter fun e =>
    e.1.1 = mic.mic ∧ ¬ e.1.2.Before today ∧ ¬ horizonEnd.Before e.1.2).map fun e => (e.1.2, e.2))

/-- The loop over the dates, with the number of them that are left. -/
def walk (cal : LoadedCalendar) (mic : Exchange) (overrides : Dict Date OverrideRow) :
    ℕ → Date → Except VerifyError (List Drift)
  | 0, _ => .ok []
  | n + 1, d =>
    if cal.covers d then
      match d.addDays 1 with
      | none => .error .dateOutOfRange
      | some next =>
        (walk cal mic overrides n next).map fun drifts =>
          ((overrides.get d).bind (driftOn cal.toExchangeCalendar mic d)).toList ++ drifts
    else .error .notLoaded

/-- `verify_calendars`: the drifts of its report. -/
def verifyCalendars (library : Exchange → LoadedCalendar) (table : OverrideTable) (today : Date)
    (exchanges : List Exchange) (horizonDays : ℕ) : Except VerifyError (List Drift) :=
  match today.addDays horizonDays with
  | none => .error .dateOutOfRange
  | some horizonEnd =>
    (exchanges.mapM fun mic =>
      walk (library mic) mic (rowsBetween table mic today horizonEnd) (horizonDays + 1) today).map
        List.flatten

/-! ## What is recorded -/

section Table

variable (upper : String → String) (table : OverrideTable)

/-- The closures that calls write. -/
def closures (reports : List ClosedReport) : List ((String × Date) × OverrideRow) :=
  reports.filterMap fun r =>
    (normalizeExchange upper r.exchange).map fun mic => ((mic.mic, r.on), ⟨false, some r.reason⟩)

/-- The row that a key has after the calls. -/
def rowAfter (reports : List ClosedReport) (exchange : Exchange) (on : Date) : Option OverrideRow :=
  (lastFor (closures upper reports) (exchange.mic, on)).or (table.get (exchange.mic, on))

/-- The row of an exchange and a date is the last closure reported, or the old row. -/
theorem get_recorded (reports : List ClosedReport) (exchange : Exchange) (on : Date) :
    (reports.foldl (recordUnexpectedClosed upper) table).get (exchange.mic, on) =
      rowAfter upper table reports exchange on := by
  unfold rowAfter
  induction reports using List.reverseRecOn with
  | nil => rfl
  | append_singleton reports r ih =>
    rw [List.foldl_append, List.foldl_cons, List.foldl_nil]
    unfold recordUnexpectedClosed closures
    rw [List.filterMap_append, List.filterMap_cons, List.filterMap_nil]
    cases hmic : normalizeExchange upper r.exchange with
    | none =>
      simp only [Option.map_none, List.append_nil]
      exact ih
    | some mic =>
      simp only [Option.map_some]
      rw [Dict.get_assign, Keyed.lastFor_append]
      split_ifs with hkey
      · rfl
      · exact ih

end Table

theorem Exchange.mic_injective {a b : Exchange} (h : a.mic = b.mic) : a = b := by
  cases a <;> cases b <;> first | rfl | exact absurd h (by decide)

/-- The rows between two dates are those of the table. -/
theorem get_rowsBetween {table : OverrideTable} {mic : Exchange} {today horizonEnd on : Date}
    (hfrom : ¬ on.Before today) (hto : ¬ horizonEnd.Before on) :
    (rowsBetween table mic today horizonEnd).get on = table.get (mic.mic, on) := by
  have hmem : ∀ row, (on, row) ∈ (table.items.filter fun e =>
      e.1.1 = mic.mic ∧ ¬ e.1.2.Before today ∧ ¬ horizonEnd.Before e.1.2).map (fun e => (e.1.2, e.2)) ↔
      table.get (mic.mic, on) = some row := by
    intro row
    rw [List.mem_map]
    constructor
    · rintro ⟨e, he, heq⟩
      obtain ⟨hitems, hcond⟩ := List.mem_filter.mp he
      obtain ⟨⟨exchange, date⟩, row'⟩ := e
      simp only [decide_eq_true_eq] at hcond
      cases heq
      rw [← hcond.1]
      exact Dict.mem_items_iff.mp hitems
    · intro h
      refine ⟨((mic.mic, on), row), List.mem_filter.mpr ⟨Dict.mem_items_iff.mpr h, ?_⟩, rfl⟩
      simp [hfrom, hto]
  unfold rowsBetween
  rw [Dict.get_ofWrites]
  cases hget : table.get (mic.mic, on) with
  | none =>
    rw [Keyed.lastFor_eq_none]
    intro hkey
    obtain ⟨e, he, heq⟩ := List.mem_map.mp hkey
    obtain ⟨date, row⟩ := e
    cases heq
    rw [(hmem row).mp he] at hget
    cases hget
  | some row =>
    cases hlast : lastFor _ on with
    | none => exact absurd (List.mem_map_of_mem ((hmem row).mpr hget)) (Keyed.lastFor_eq_none.mp hlast)
    | some row' =>
      have hrow := (hmem row').mp (Keyed.mem_of_lastFor hlast)
      rw [hget] at hrow
      exact hrow.symm

/-! ## What the sweep collects -/

/-- The drift of a date. -/
def driftAt (cal : ExchangeCalendar) (mic : Exchange) (overrides : Dict Date OverrideRow) (d : Date) :
    Option Drift :=
  (overrides.get d).bind (driftOn cal mic d)

/-- What the sweep of an exchange collects. -/
theorem walk_eq_ok {cal : LoadedCalendar} {mic : Exchange} {overrides : Dict Date OverrideRow} {n : ℕ}
    {d : Date} {drifts : List Drift} (h : walk cal mic overrides n d = .ok drifts) :
    drifts = (List.range n).filterMap fun k =>
      (d.addDays k).bind (driftAt cal.toExchangeCalendar mic overrides) := by
  induction n generalizing d drifts with
  | zero =>
    cases h
    rfl
  | succ n ih =>
    unfold walk at h
    split_ifs at h
    cases hnext : d.addDays 1 with
    | none =>
      rw [hnext] at h
      cases h
    | some next =>
      simp only [hnext] at h
      cases hrest : walk cal mic overrides n next with
      | error e =>
        rw [hrest] at h
        cases h
      | ok rest =>
        rw [hrest] at h
        cases h
        have hshift : ∀ k, d.addDays (k + 1) = next.addDays k := fun k => by
          rw [Nat.add_comm, Date.addDays_add, hnext, Option.bind_some]
        rw [List.range_succ_eq_map, List.filterMap_cons, List.filterMap_map, ih hrest]
        have hcongr :
          ((fun k => (d.addDays k).bind (driftAt cal.toExchangeCalendar mic overrides)) ∘ Nat.succ) =
            fun k => (next.addDays k).bind (driftAt cal.toExchangeCalendar mic overrides) := by
          funext k
          rw [Function.comp_apply, Nat.succ_eq_add_one, hshift k]
        rw [hcongr]
        show (driftAt cal.toExchangeCalendar mic overrides d).toList ++ _ = _
        cases hdrift : driftAt cal.toExchangeCalendar mic overrides d <;>
          simp [Date.addDays, hdrift]

/-- The dates from `today` to the horizon. -/
def InHorizon (today : Date) (horizonDays : ℕ) (on : Date) : Prop :=
  ∃ k ≤ horizonDays, today.addDays k = some on

theorem driftOn_eq_some {cal : ExchangeCalendar} {mic : Exchange} {on : Date} {row : OverrideRow}
    {drift : Drift} : driftOn cal mic on row = some drift ↔
      cal.isSession on ≠ row.isOpen ∧ drift = ⟨mic, on, cal.isSession on, row.isOpen, row.reasonText⟩ := by
  unfold driftOn
  split_ifs with h
  · simp [h]
  · simp [h, eq_comm]

section Sweep

variable {library : Exchange → LoadedCalendar} {table : OverrideTable} {today : Date}
  {exchanges : List Exchange} {horizonDays : ℕ} {drifts : List Drift}

/-- The drift of an exchange on the day that is some days away. -/
def driftAfter (library : Exchange → LoadedCalendar) (table : OverrideTable) (today : Date) (mic : Exchange)
    (k : ℕ) : Option Drift :=
  (today.addDays k).bind fun on =>
    (table.get (mic.mic, on)).bind (driftOn (library mic).toExchangeCalendar mic on)

theorem walk_rowsBetween {mic : Exchange} {horizonEnd : Date}
    (hend : today.addDays horizonDays = some horizonEnd)
    (h : walk (library mic) mic (rowsBetween table mic today horizonEnd) (horizonDays + 1) today =
      .ok drifts) :
    drifts = (List.range (horizonDays + 1)).filterMap (driftAfter library table today mic) := by
  rw [walk_eq_ok h]
  apply List.filterMap_congr
  intro k hk
  unfold driftAfter
  cases hon : today.addDays k with
  | none => rfl
  | some on =>
    obtain ⟨hfrom, hto⟩ := Date.between_of_addDays (Nat.le_of_lt_succ (List.mem_range.mp hk)) hon hend
    rw [Option.bind_some, Option.bind_some]
    unfold driftAt
    rw [get_rowsBetween hfrom hto]

/-- The drifts are those of the exchanges in their order, each in the order of its dates. -/
theorem verifyCalendars_eq_ok
    (h : verifyCalendars library table today exchanges horizonDays = .ok drifts) :
    drifts = exchanges.flatMap fun mic =>
      (List.range (horizonDays + 1)).filterMap (driftAfter library table today mic) := by
  unfold verifyCalendars at h
  cases hend : today.addDays horizonDays with
  | none =>
    rw [hend] at h
    cases h
  | some horizonEnd =>
    simp only [hend] at h
    obtain ⟨sweeps, hsweeps, rfl⟩ : ∃ sweeps, (exchanges.mapM fun mic =>
        walk (library mic) mic (rowsBetween table mic today horizonEnd) (horizonDays + 1) today) =
          .ok sweeps ∧
          sweeps.flatten = drifts := by
      cases hsweeps : exchanges.mapM fun mic =>
          walk (library mic) mic (rowsBetween table mic today horizonEnd) (horizonDays + 1) today with
      | error e =>
        rw [hsweeps] at h
        cases h
      | ok sweeps =>
        rw [hsweeps] at h
        cases h
        exact ⟨sweeps, rfl, rfl⟩
    clear h
    induction exchanges generalizing sweeps with
    | nil =>
      cases hsweeps
      rfl
    | cons mic exchanges ih =>
      rw [List.mapM_cons] at hsweeps
      cases hwalk :
        walk (library mic) mic (rowsBetween table mic today horizonEnd) (horizonDays + 1) today with
      | error e =>
        rw [hwalk] at hsweeps
        cases hsweeps
      | ok first =>
        cases hrest : exchanges.mapM fun mic =>
            walk (library mic) mic (rowsBetween table mic today horizonEnd) (horizonDays + 1) today with
        | error e =>
          rw [hwalk, hrest] at hsweeps
          cases hsweeps
        | ok rest =>
          rw [hwalk, hrest] at hsweeps
          cases hsweeps
          rw [List.flatten_cons, List.flatMap_cons, walk_rowsBetween hend hwalk, ih rest hrest]

theorem mem_verifyCalendars {drift : Drift}
    (h : verifyCalendars library table today exchanges horizonDays = .ok drifts) :
    drift ∈ drifts ↔ drift.exchange ∈ exchanges ∧ InHorizon today horizonDays drift.on ∧
      ∃ row, table.get (drift.exchange.mic, drift.on) = some row ∧
        driftOn (library drift.exchange).toExchangeCalendar drift.exchange drift.on row = some drift := by
  rw [verifyCalendars_eq_ok h, List.mem_flatMap]
  constructor
  · rintro ⟨mic, hmic, hmem⟩
    obtain ⟨k, hk, hdrift⟩ := List.mem_filterMap.mp hmem
    obtain ⟨on, hon, hrow⟩ := Option.bind_eq_some_iff.mp hdrift
    obtain ⟨row, hget, hdrift⟩ := Option.bind_eq_some_iff.mp hrow
    obtain rfl := (driftOn_eq_some.mp hdrift).2
    exact ⟨hmic, ⟨k, Nat.le_of_lt_succ (List.mem_range.mp hk), hon⟩, row, hget, hdrift⟩
  · rintro ⟨hmic, ⟨k, hk, hon⟩, row, hget, hdrift⟩
    refine ⟨drift.exchange, hmic, List.mem_filterMap.mpr ⟨k, List.mem_range.mpr (by omega), ?_⟩⟩
    unfold driftAfter
    rw [hon, Option.bind_some, hget, Option.bind_some, hdrift]

/-- An exchange that is checked once has at most one drift for a date. -/
theorem nodup_verifyCalendars (hnodup : exchanges.Nodup)
    (h : verifyCalendars library table today exchanges horizonDays = .ok drifts) :
    (drifts.map fun drift => (drift.exchange, drift.on)).Nodup := by
  have hkey : ∀ {mic k drift}, driftAfter library table today mic k = some drift →
      drift.exchange = mic ∧ today.addDays k = some drift.on := by
    intro mic k drift hdrift
    obtain ⟨on, hon, hrow⟩ := Option.bind_eq_some_iff.mp hdrift
    obtain ⟨row, hget, hdrift⟩ := Option.bind_eq_some_iff.mp hrow
    obtain rfl := (driftOn_eq_some.mp hdrift).2
    exact ⟨rfl, hon⟩
  rw [verifyCalendars_eq_ok h, List.map_flatMap, List.nodup_flatMap]
  constructor
  · intro mic _
    rw [List.Nodup, List.pairwise_map, List.pairwise_filterMap]
    apply List.nodup_range.imp
    intro j k hne a ha b hb hab
    have hon : a.on = b.on := congrArg Prod.snd hab
    exact hne (Date.addDays_injective (hkey ha).2 (hon ▸ (hkey hb).2))
  · apply hnodup.imp
    intro mic mic' hne p hp hp'
    obtain ⟨a, ha, rfl⟩ := List.mem_map.mp hp
    obtain ⟨b, hb, hab⟩ := List.mem_map.mp hp'
    obtain ⟨j, -, ha⟩ := List.mem_filterMap.mp ha
    obtain ⟨k, -, hb⟩ := List.mem_filterMap.mp hb
    have hexchange : b.exchange = a.exchange := congrArg Prod.fst hab
    rw [(hkey ha).1, (hkey hb).1] at hexchange
    exact hne hexchange.symm

/-- The service departs from the library exactly where an override closes a session. -/
theorem isOpen_iff (exchange : Exchange) (on : Date) :
    (getSessionHours (fun e => (library e).toExchangeCalendar) table.overrides exchange on).isOpen = true ↔
      (library exchange).isSession on = true ∧
        ∀ row, table.get (exchange.mic, on) = some row → row.isOpen = true := by
  unfold getSessionHours OverrideTable.overrides
  cases hget : table.get (exchange.mic, on) with
  | none => cases hsession : (library exchange).isSession on <;> simp [hsession]
  | some row =>
    cases hopen : row.isOpen <;> cases hsession : (library exchange).isSession on <;> simp [hopen, hsession]

end Sweep

/-! ## Reports, sweep and service -/

/--
After any reports of closures, a sweep that does not raise lists, once, each row within the horizon
that differs from the library, with the reason that was reported last; and on a date that it has
checked, the service departs from a session of the library exactly where there is such a drift.
-/
theorem drifts_of_reports (upper : String → String) (library : Exchange → LoadedCalendar)
    (table : OverrideTable) (reports : List ClosedReport) (today : Date) (exchanges : List Exchange)
    (horizonDays : ℕ) (drifts : List Drift)
    (hverify : verifyCalendars library (reports.foldl (recordUnexpectedClosed upper) table) today exchanges
      horizonDays = .ok drifts) :
    (∀ drift, drift ∈ drifts ↔ drift.exchange ∈ exchanges ∧ InHorizon today horizonDays drift.on ∧
      ∃ row, rowAfter upper table reports drift.exchange drift.on = some row ∧
        (library drift.exchange).isSession drift.on ≠ row.isOpen ∧
        drift = ⟨drift.exchange, drift.on, (library drift.exchange).isSession drift.on, row.isOpen,
          row.reasonText⟩) ∧
    (exchanges.Nodup → (drifts.map fun drift => (drift.exchange, drift.on)).Nodup) ∧
    ∀ exchange ∈ exchanges, ∀ on, InHorizon today horizonDays on →
      ((getSessionHours (fun e => (library e).toExchangeCalendar)
        (reports.foldl (recordUnexpectedClosed upper) table).overrides exchange on).isOpen = true ↔
          (library exchange).isSession on = true ∧
            ¬ ∃ drift ∈ drifts, drift.exchange = exchange ∧ drift.on = on ∧ drift.librarySaysOpen =
              true) := by
  have hmem : ∀ drift, drift ∈ drifts ↔ _ := fun drift => mem_verifyCalendars hverify
  refine ⟨?_, fun hnodup => nodup_verifyCalendars hnodup hverify, ?_⟩
  · intro drift
    rw [hmem drift]
    simp only [get_recorded, driftOn_eq_some]
  · intro exchange hexchange on hon
    rw [isOpen_iff]
    apply and_congr_right
    intro hsession
    constructor
    · rintro hopen ⟨drift, hdrift, rfl, rfl, hsays⟩
      obtain ⟨-, -, row, hget, heq⟩ := (hmem drift).mp hdrift
      exact (driftOn_eq_some.mp heq).1 (hsession.trans (hopen row hget).symm)
    · intro hnone row hget
      by_contra hclosed
      apply hnone
      refine ⟨⟨exchange, on, (library exchange).isSession on, row.isOpen, row.reasonText⟩, ?_, rfl, rfl,
        hsession⟩
      rw [hmem]
      exact ⟨hexchange, hon, row, hget, driftOn_eq_some.mpr ⟨fun h => hclosed (h.symm.trans hsession), rfl⟩⟩

/-- A storm on the last session of 2027. -/
def stormDay : Date := (lastSession .xnys).localDate 0

def stormReports : List ClosedReport :=
    [⟨"XNYS", stormDay, "halted"⟩, ⟨"LSE", stormDay, ""⟩, ⟨" NYSE ", stormDay, "storm"⟩]

theorem drifts_of_reports_sample :
    (getSessionHours (fun e => (lastSession e).toExchangeCalendar)
      (stormReports.foldl (recordUnexpectedClosed id) Dict.empty).overrides .xnys stormDay).isOpen = true ↔
        (lastSession .xnys).isSession stormDay = true ∧
          ¬ ∃ drift ∈ [(⟨.xnys, stormDay, true, false, "storm"⟩ : Drift)],
            drift.exchange = .xnys ∧ drift.on = stormDay ∧ drift.librarySaysOpen = true :=
  (drifts_of_reports id lastSession Dict.empty stormReports stormDay [.xnys] 0
    [⟨.xnys, stormDay, true, false, "storm"⟩] (by decide +kernel)).2.2 .xnys (by decide) stormDay
      ⟨0, le_rfl, rfl⟩

end Nivara.Scheduling
