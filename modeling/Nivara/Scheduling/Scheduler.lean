import Nivara.Lib.ExpiringKeys
import Nivara.Scheduling.Calendar

/-!
# `SessionAwareScheduler`

The planning and the dispatch of `scheduling/scheduler.py` (lines 117–292). Every tick
plans for the minute its clock is in, and then claims the dedupe key of each plan and
sends its task.

* The broker client is a parameter: whether `send_task` raises is given with the call.
* `plan` and `apply` are the methods. `SchedulerState` is a system of ticks that share one
  Redis, in which each command and each `send_task` is one step and time passes between
  them.
* `sent` and `claimedBy` are history: the calls of `send_task`, raised or not, and who
  has claimed the key for a job and when.
-/

namespace Nivara.Scheduling

open ExpiringKeys

/-! ## Planning -/

inductive MarketState
  | holiday
  | closed
  | open
  | justClosed
  deriving DecidableEq, Repr

structure MarketSnapshot where
  exchange : Exchange
  nowUtc : ℤ
  state : MarketState
  sessionHours : SessionHours
  isHalfDay : Bool
  deriving DecidableEq

/-- The `kwargs` of a task; the last two are those of the post-close batch. -/
structure TaskKwargs where
  exchange : Exchange
  sessionDate : Option String
  isHalfDay : Option Bool
  deriving DecidableEq

/-- `args` is always empty and `queue` always `None`. -/
structure DispatchPlan where
  taskName : String
  kwargs : TaskKwargs
  dedupeKey : Option String
  /-- In microseconds. Redis accepts no `EX` that is not positive. -/
  dedupeTtl : ℤ
  dedupeTtl_pos : 0 < dedupeTtl
  deriving DecidableEq

structure SchedulerTick where
  nowUtc : ℤ
  snapshots : List MarketSnapshot
  planned : List DispatchPlan

/-- `_DEDUPE_TTL`. -/
def dedupeTtl : ℤ := seconds (7 * 24 * 60 * 60)

/-- `_POST_CLOSE_TTL`. -/
def postCloseTtl : ℤ := seconds (48 * 60 * 60)

def recalcTask : String := "tasks.in_session.recalc_indicators"
def syncTask : String := "tasks.in_session.sync_portfolios"
def postCloseTask : String := "tasks.post_close.run_post_close_batch"

section

variable (library : Exchange → ExchangeCalendar) (overrides : Overrides)

/-- `compute_market_state`. -/
def computeMarketState (exchange : Exchange) (nowUtc : ℤ) : MarketSnapshot :=
  let sessionDate := (library exchange).localDate nowUtc
  let hours := getSessionHours library overrides exchange sessionDate
  match hours.isOpen, hours.openUtc, hours.closeUtc with
  | true, some openUtc, some closeUtc =>
    let state : MarketState :=
      if nowUtc < openUtc then .closed
      else if openUtc ≤ nowUtc ∧ nowUtc < closeUtc then .open
      else if closeUtc ≤ nowUtc ∧ nowUtc < closeUtc + minutes 1 then .justClosed
      else .closed
    ⟨exchange, nowUtc, state, hours, hours.isHalfDay⟩
  | _, _, _ => ⟨exchange, nowUtc, .holiday, hours, false⟩

/-- The dedupe key of an in-session task. -/
def inSessionKey (name : String) (exchange : Exchange) (minute : ℤ) : String :=
  s!"sched:last_dispatch:{name}:{exchange.mic}:{minuteStamp minute}"

/-- The dedupe key of the post-close batch. -/
def postCloseKey (exchange : Exchange) (sessionDate : String) : String :=
  s!"sched:post_close_done:{exchange.mic}:{sessionDate}"

/-- The plan of an in-session task. -/
def inSessionPlan (taskName name : String) (exchange : Exchange) (minute : ℤ) : DispatchPlan :=
  ⟨taskName, ⟨exchange, none, none⟩, some (inSessionKey name exchange minute), dedupeTtl, by decide⟩

/-- The plans for a snapshot, in the minute `nowUtc`. -/
def plansFor (snap : MarketSnapshot) (nowUtc : ℤ) : List DispatchPlan :=
  let sessionDateStr := snap.sessionHours.sessionDate.isoformat
  match snap.state with
  | .open =>
    (if minuteOfHour nowUtc % 5 = 0 then [inSessionPlan recalcTask "recalc" snap.exchange nowUtc]
      else []) ++
    (if minuteOfHour nowUtc % 60 = 0 then [inSessionPlan syncTask "sync" snap.exchange nowUtc] else [])
  | .justClosed =>
    [⟨postCloseTask, ⟨snap.exchange, some sessionDateStr, some snap.isHalfDay⟩,
      some (postCloseKey snap.exchange sessionDateStr), postCloseTtl, by decide⟩]
  | _ => []

/-- `plan`. -/
def plan (now : ℤ) (exchanges : List Exchange := [.xnys, .xnas, .xbom]) : SchedulerTick :=
  let nowUtc := minuteFloor now
  let snapshots := exchanges.map fun exchange => computeMarketState library overrides exchange nowUtc
  ⟨nowUtc, snapshots, snapshots.flatMap fun snap => plansFor snap nowUtc⟩

end

/-! ## Dispatch -/

/-- The keys in Redis. -/
abbrev Keys := Store String String ℤ

/-- `_claim`, at the time `clock`. -/
def claim (clock : ℤ) (p : DispatchPlan) (keys : Keys) : Keys × Bool :=
  match p.dedupeKey with
  | none => (keys, true)
  | some key => setNxEx clock key "1" p.dedupeTtl keys

/-- What `apply` has done: the keys, the dispatched plans, and whether it has raised. -/
structure Applied where
  keys : Keys
  dispatched : List DispatchPlan
  raised : Bool

/-- `apply`; each plan is given with whether its `send_task` raises. -/
def apply (clock : ℤ) : List (DispatchPlan × Bool) → Keys → Applied
  | [], keys => ⟨keys, [], false⟩
  | (p, raises) :: rest, keys =>
    let (keys, claimed) := claim clock p keys
    if !claimed then apply clock rest keys
    else if raises then ⟨keys, [], true⟩
    else
      let applied := apply clock rest keys
      { applied with dispatched := p :: applied.dispatched }

/-! ## Ticks -/

/-- What is to be done once: the post-close batch for a session, or an in-session task in a
    minute. -/
inductive Job
  | postClose (exchange : Exchange) (sessionDate : String)
  | inSession (taskName : String) (exchange : Exchange) (minute : ℤ)
  deriving DecidableEq

/-- The job of a plan that is made for the minute `nowUtc`. -/
def DispatchPlan.job (p : DispatchPlan) (nowUtc : ℤ) : Job :=
  match p.kwargs.sessionDate with
  | some sessionDate => .postClose p.kwargs.exchange sessionDate
  | none => .inSession p.taskName p.kwargs.exchange nowUtc

/-- A call of `send_task`. -/
structure Dispatch where
  plan : DispatchPlan
  nowUtc : ℤ
  deriving DecidableEq

def Dispatch.job (d : Dispatch) : Job := d.plan.job d.nowUtc

/-- A tick, by what it does next. -/
inductive TickCall
  | plan
  /-- Claim the first of the plans; `now` is the reading of the clock the tick has planned
      with. -/
  | claim (now : ℤ) (plans : List DispatchPlan)
  /-- `send_task`. -/
  | send (now : ℤ) (p : DispatchPlan) (plans : List DispatchPlan)
  | returned
  | raised
  deriving DecidableEq

structure SchedulerState (ι : Type) where
  clock : ℤ
  keys : Keys
  ticks : ι → TickCall
  sent : List Dispatch
  claimedBy : Job → Option (ι × ℤ)

inductive Label (ι : Type)
  /-- The tick plans, with the overrides it reads. -/
  | plan (i : ι) (overrides : Overrides) (exchanges : List Exchange)
  | claim (i : ι)
  | send (i : ι) (raises : Bool)
  /-- Time passes. -/
  | wait (microseconds : ℕ)

variable {ι : Type}

namespace SchedulerState

variable [DecidableEq ι]

def goto (s : SchedulerState ι) (i : ι) (c : TickCall) : SchedulerState ι :=
  { s with ticks := Function.update s.ticks i c }

@[simp] theorem goto_ticks_self (s : SchedulerState ι) (i : ι) (c : TickCall) :
    (s.goto i c).ticks i = c := Function.update_self ..

theorem goto_ticks_of_ne (s : SchedulerState ι) {i j : ι} (c : TickCall) (h : j ≠ i) :
    (s.goto i c).ticks j = s.ticks j := Function.update_of_ne h ..

variable (library : Exchange → ExchangeCalendar)

/-- One step of the system. -/
def step (s : SchedulerState ι) : Label ι → Option (SchedulerState ι)
  | .plan i overrides exchanges =>
    match s.ticks i with
    | .plan => some (s.goto i (.claim s.clock (plan library overrides s.clock exchanges).planned))
    | _ => none
  | .claim i =>
    match s.ticks i with
    | .claim _ [] => some (s.goto i .returned)
    | .claim now (p :: plans) =>
      let (keys, claimed) := Scheduling.claim s.clock p s.keys
      if claimed then
        let job := p.job (minuteFloor now)
        some ({ s with
          keys := keys
          claimedBy := Function.update s.claimedBy job (some (i, s.clock)) }.goto i (.send now p plans))
      else some ({ s with keys := keys }.goto i (.claim now plans))
    | _ => none
  | .send i raises =>
    match s.ticks i with
    | .send now p plans =>
      let s' := { s with sent := ⟨p, minuteFloor now⟩ :: s.sent }
      some (s'.goto i (if raises then .raised else .claim now plans))
    | _ => none
  | .wait microseconds => some { s with clock := s.clock + microseconds }

end SchedulerState

/-- Before any tick. -/
def initial (clock : ℤ) (keys : Keys) : SchedulerState ι := ⟨clock, keys, fun _ => .plan, [], fun _ => none⟩

end Nivara.Scheduling
