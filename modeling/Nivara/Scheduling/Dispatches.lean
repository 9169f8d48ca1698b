import Nivara.Lib.Transition
import Nivara.Scheduling.Scheduler

/-!
# A job is sent once

The post-close batch of a session is planned in the minute after the close, which the
calendar of the library fixes for the exchange and the date; an in-session task is
planned in its minute. So all ticks that plan a job do so within two minutes, and the key
that the first of them claims lives for days.

Results:

* `planned_of_mem_plan`: what is planned, and when.
* `jobs_nodup_of_run`: in every interleaving of ticks that make their claims within an
  hour of planning, no job is sent twice.
-/

namespace Nivara.Scheduling

open ExpiringKeys Transition

/-! ## What is to hold -/

/-- No job is sent twice. -/
def SchedulerState.AtMostOnce {ι : Type} (s : SchedulerState ι) : Prop :=
  (s.sent.map Dispatch.job).Nodup

/-- The condition on a step: a claim is made within one hour of planning. -/
def SchedulerState.ClaimsInTime {ι : Type} (s : SchedulerState ι) : Label ι → Prop
  | .claim i =>
    match s.ticks i with
    | .claim now (_ :: _) => s.clock ≤ now + hours 1
    | _ => True
  | _ => True

/-! ## Plans -/

/-- The dedupe key for a job. -/
def Job.key : Job → String
  | .postClose exchange sessionDate => postCloseKey exchange sessionDate
  | .inSession taskName exchange minute =>
    inSessionKey (if taskName = recalcTask then "recalc" else "sync") exchange minute

/-- When a job is due: a batch at the close of the session, a task in its minute. -/
def Job.Due (library : Exchange → ExchangeCalendar) : Job → ℤ → Prop
  | .postClose exchange sessionDate, due =>
    ∃ date, date.isoformat = sessionDate ∧ due = (library exchange).sessionClose date
  | .inSession _ _ minute, due => due = minute

/-- What holds for a plan of a tick that has read `now`. -/
structure Planned (library : Exchange → ExchangeCalendar) (now : ℤ) (p : DispatchPlan) : Prop where
  key : p.dedupeKey = some (p.job (minuteFloor now)).key
  ttl : postCloseTtl ≤ p.dedupeTtl
  /-- The tick plans within two minutes after the job is due. -/
  due : ∃ due, (p.job (minuteFloor now)).Due library due ∧ due ≤ now ∧ now < due + minutes 2

variable {library : Exchange → ExchangeCalendar} {overrides : Overrides} {exchange : Exchange}

theorem Job.Due.unique {job : Job} {a b : ℤ} (ha : job.Due library a) (hb : job.Due library b) :
    a = b := by
  cases job with
  | postClose exchange sessionDate =>
    obtain ⟨d, hd, rfl⟩ := ha
    obtain ⟨e, he, rfl⟩ := hb
    rw [Date.isoformat_injective (hd.trans he.symm)]
  | inSession taskName exchange minute => exact Eq.trans ha hb.symm

/-- An exchange that has just closed has opened before, and closed in the last minute. -/
theorem of_justClosed {now : ℤ}
    (h : (computeMarketState library overrides exchange now).state = .justClosed) :
    (library exchange).sessionOpen ((library exchange).localDate now) ≤ now ∧
      (library exchange).sessionClose ((library exchange).localDate now) ≤ now ∧
      now < (library exchange).sessionClose ((library exchange).localDate now) + minutes 1 := by
  unfold computeMarketState at h
  simp only at h
  split at h
  · next openUtc closeUtc hopen hopenUtc hcloseUtc =>
    obtain ⟨hlibOpen, hlibClose⟩ := getSessionHours_of_isOpen hopen
    rw [hopenUtc] at hlibOpen
    rw [hcloseUtc] at hlibClose
    rw [← Option.some.inj hlibOpen, ← Option.some.inj hlibClose]
    simp only at h
    split_ifs at h with hpre hin hjust
    exact ⟨not_lt.mp hpre, hjust⟩
  · cases h

theorem computeMarketState_exchange (now : ℤ) :
    (computeMarketState library overrides exchange now).exchange = exchange := by
  unfold computeMarketState
  simp only
  split <;> rfl

theorem computeMarketState_sessionDate (now : ℤ) :
    (computeMarketState library overrides exchange now).sessionHours.sessionDate =
      (library exchange).localDate now := by
  unfold computeMarketState
  simp only
  split <;> exact getSessionHours_sessionDate

/-- A plan for a snapshot is the post-close batch or an in-session task. -/
theorem mem_plansFor {snap : MarketSnapshot} {now : ℤ} {p : DispatchPlan} (hp : p ∈ plansFor snap now) :
    (snap.state = .justClosed ∧ p = ⟨postCloseTask,
      ⟨snap.exchange, some snap.sessionHours.sessionDate.isoformat, some snap.isHalfDay⟩,
      some (postCloseKey snap.exchange snap.sessionHours.sessionDate.isoformat), postCloseTtl, by decide⟩) ∨
    (snap.state = .open ∧ (p = inSessionPlan recalcTask "recalc" snap.exchange now ∨
      p = inSessionPlan syncTask "sync" snap.exchange now)) := by
  unfold plansFor at hp
  cases hstate : snap.state with
  | justClosed =>
    simp only [hstate, List.mem_singleton] at hp
    exact .inl ⟨rfl, hp⟩
  | «open» =>
    simp only [hstate, List.mem_append] at hp
    rcases hp with hp | hp
    · split_ifs at hp
      · exact .inr ⟨rfl, .inl (List.mem_singleton.mp hp)⟩
      · cases hp
    · split_ifs at hp
      · exact .inr ⟨rfl, .inr (List.mem_singleton.mp hp)⟩
      · cases hp
  | _ =>
    simp only [hstate] at hp
    cases hp

/-- What is planned, and when. -/
theorem planned_of_mem_plan {now : ℤ} {exchanges : List Exchange} {p : DispatchPlan}
    (hp : p ∈ (plan library overrides now exchanges).planned) : Planned library now p := by
  obtain ⟨snap, hsnap, hp⟩ := List.mem_flatMap.mp hp
  obtain ⟨exchange, -, rfl⟩ := List.mem_map.mp hsnap
  have hfloor := minuteFloor_le now
  have hfloor' := lt_minuteFloor now
  have httl : postCloseTtl ≤ dedupeTtl := by decide
  rcases mem_plansFor hp with ⟨hstate, rfl⟩ | ⟨-, rfl | rfl⟩
  · obtain ⟨-, hle, hlt⟩ := of_justClosed hstate
    refine ⟨rfl, le_refl _, _, ⟨_, rfl, ?_⟩, hle.trans hfloor, ?_⟩
    · rw [computeMarketState_exchange, computeMarketState_sessionDate]
    · unfold minutes at *
      omega
  · refine ⟨rfl, httl, _, rfl, hfloor, ?_⟩
    unfold minutes at *
    omega
  · refine ⟨rfl, httl, _, rfl, hfloor, ?_⟩
    unfold minutes at *
    omega

/-! ## The invariant -/

variable {ι : Type}

/-- A claim for a job at the time `at_`: the job was due, and its key lives. -/
def SchedulerState.Held (library : Exchange → ExchangeCalendar) (s : SchedulerState ι) (job : Job)
    (at_ : ℤ) : Prop :=
  (∃ due, job.Due library due ∧ due ≤ at_) ∧
    ∃ v deadline, s.keys job.key = some (v, deadline) ∧ at_ + postCloseTtl ≤ deadline

/-- What a tick in progress knows. -/
def SchedulerState.TickOk (library : Exchange → ExchangeCalendar) (s : SchedulerState ι) (i : ι) :
    TickCall → Prop
  | .claim now plans => now ≤ s.clock ∧ ∀ p ∈ plans, Planned library now p
  | .send now p plans =>
    (now ≤ s.clock ∧ ∀ q ∈ plans, Planned library now q) ∧
      (∃ at_, s.claimedBy (p.job (minuteFloor now)) = some (i, at_)) ∧
        p.job (minuteFloor now) ∉ s.sent.map Dispatch.job
  | _ => True

structure SchedulerState.Inv (library : Exchange → ExchangeCalendar) (s : SchedulerState ι) : Prop where
  ticks : ∀ i, s.TickOk library i (s.ticks i)
  held : ∀ job i at_, s.claimedBy job = some (i, at_) → s.Held library job at_
  sent : ∀ job ∈ s.sent.map Dispatch.job, s.claimedBy job ≠ none
  nodup : s.AtMostOnce

variable {s t : SchedulerState ι}

/-- A tick knows the same when time passes, when no job is sent and when nobody claims what
    it has claimed. -/
theorem SchedulerState.TickOk.mono {i : ι} {c : TickCall} (h : s.TickOk library i c)
    (hclock : s.clock ≤ t.clock)
    (hclaimed : ∀ job at_, s.claimedBy job = some (i, at_) → t.claimedBy job = some (i, at_))
    (hsent : ∀ job at_, s.claimedBy job = some (i, at_) → job ∈ t.sent.map Dispatch.job →
      job ∈ s.sent.map Dispatch.job) : t.TickOk library i c := by
  cases c with
  | claim now plans => exact ⟨h.1.trans hclock, h.2⟩
  | send now p plans =>
    obtain ⟨⟨hnow, hplans⟩, ⟨at_, hby⟩, hnot⟩ := h
    exact ⟨⟨hnow.trans hclock, hplans⟩, ⟨at_, hclaimed _ _ hby⟩, fun hmem => hnot (hsent _ _ hby hmem)⟩
  | _ => trivial

variable [DecidableEq ι]

/-- A tick goes on. -/
theorem SchedulerState.Inv.goto (h : s.Inv library) {i : ι} {c : TickCall} (hc : s.TickOk library i c) :
    (s.goto i c).Inv library where
  ticks := by
    intro j
    by_cases hj : j = i
    · rw [hj, goto_ticks_self]
      exact hc
    · rw [goto_ticks_of_ne s c hj]
      exact h.ticks j
  held := h.held
  sent := h.sent
  nodup := h.nodup

omit [DecidableEq ι] in
/-- A job that is claimed in time is claimed for the first time. -/
theorem SchedulerState.Inv.unclaimed (h : s.Inv library) {now : ℤ} {p : DispatchPlan}
    (hp : Planned library now p) (hnow : now ≤ s.clock) (htime : s.clock ≤ now + hours 1)
    (hgone : getKey s.clock (p.job (minuteFloor now)).key s.keys = none) :
    s.claimedBy (p.job (minuteFloor now)) = none := by
  by_contra hne
  obtain ⟨⟨j, at_⟩, hby⟩ := Option.ne_none_iff_exists'.mp hne
  obtain ⟨⟨due, hdue, hle⟩, v, deadline, hkey, hlives⟩ := h.held _ _ _ hby
  obtain ⟨due', hdue', -, hlt⟩ := hp.due
  obtain rfl := hdue.unique hdue'
  -- the key runs out two days after the first claim, and both claims are near the due time
  have hout := deadline_le_of_get hgone hkey
  unfold postCloseTtl seconds at hlives
  unfold hours minutes at htime
  unfold minutes at hlt
  omega

/-- A tick has set the key of its plan. -/
theorem SchedulerState.Inv.claimed (h : s.Inv library) {i : ι} {now : ℤ} {p : DispatchPlan}
    {plans : List DispatchPlan} (hp : Planned library now p) (hplans : ∀ q ∈ plans, Planned library now q)
    (hnow : now ≤ s.clock) (htime : s.clock ≤ now + hours 1)
    (hgone : getKey s.clock (p.job (minuteFloor now)).key s.keys = none) :
    (SchedulerState.goto { s with
      keys := (setNxEx s.clock (p.job (minuteFloor now)).key "1" p.dedupeTtl s.keys).1
      claimedBy := Function.update s.claimedBy (p.job (minuteFloor now)) (some (i, s.clock)) } i
        (.send now p plans)).Inv library := by
  have hfree := h.unclaimed hp hnow htime hgone
  have httl : (0 : ℤ) ≤ postCloseTtl := by decide
  have hother : ∀ job j at_, s.claimedBy job = some (j, at_) →
      Function.update s.claimedBy (p.job (minuteFloor now)) (some (i, s.clock)) job = some (j, at_) := by
    intro job j at_ hby
    have hne : job ≠ p.job (minuteFloor now) := by
      rintro rfl
      rw [hfree] at hby
      cases hby
    rw [Function.update_of_ne hne]
    exact hby
  have hinv : SchedulerState.Inv library { s with
      keys := (setNxEx s.clock (p.job (minuteFloor now)).key "1" p.dedupeTtl s.keys).1
      claimedBy := Function.update s.claimedBy (p.job (minuteFloor now)) (some (i, s.clock)) } := by
    refine ⟨fun j => ?_, ?_, ?_, h.nodup⟩
    · exact (h.ticks j).mono (le_refl _) (fun job at_ hby => hother job j at_ hby) fun _ _ _ hmem => hmem
    · intro job j at_ hby
      simp only at hby
      by_cases hjob : job = p.job (minuteFloor now)
      · rw [hjob, Function.update_self] at hby
        obtain ⟨rfl, rfl⟩ := Prod.mk.inj (Option.some.inj hby)
        obtain ⟨due, hdue, hle, -⟩ := hp.due
        rw [hjob]
        refine ⟨⟨due, hdue, hle.trans hnow⟩, "1", s.clock + p.dedupeTtl, ?_, ?_⟩
        · show (setNxEx _ _ _ _ _).1 _ = _
          rw [setNxEx_of_gone hgone]
          exact Function.update_self ..
        · linarith [hp.ttl]
      · rw [Function.update_of_ne hjob] at hby
        obtain ⟨hdue, v, deadline, hkey, hlives⟩ := h.held job j at_ hby
        obtain ⟨v', d', hkey', hle⟩ := exists_deadline_setNxEx (p.job (minuteFloor now)).key "1"
          (show s.clock ≤ s.clock + p.dedupeTtl by linarith [hp.ttl]) hkey
        exact ⟨hdue, v', d', hkey', hlives.trans hle⟩
    · intro job hmem hnone
      obtain ⟨⟨j, at_⟩, hby⟩ := Option.ne_none_iff_exists'.mp (h.sent job hmem)
      exact Option.some_ne_none _ ((hother job j at_ hby).symm.trans hnone)
  refine hinv.goto ⟨⟨hnow, hplans⟩, ⟨s.clock, Function.update_self ..⟩, fun hmem => ?_⟩
  exact h.sent _ hmem hfree

/-- A tick calls `send_task` for the plan it has claimed. -/
theorem SchedulerState.Inv.send (h : s.Inv library) {i : ι} {now : ℤ} {p : DispatchPlan}
    {plans : List DispatchPlan} (hi : s.ticks i = .send now p plans) (raises : Bool) :
    (SchedulerState.goto { s with sent := ⟨p, minuteFloor now⟩ :: s.sent } i
      (if raises then .raised else .claim now plans)).Inv library := by
  have hok := h.ticks i
  rw [hi] at hok
  obtain ⟨hrest, ⟨at_, hby⟩, hnot⟩ := hok
  have hclaim : ∀ job ∈ (⟨p, minuteFloor now⟩ :: s.sent : List Dispatch).map Dispatch.job,
      s.claimedBy job ≠ none := by
    intro job hmem
    rcases List.mem_cons.mp hmem with rfl | hmem
    · intro hnone
      rw [show Dispatch.job ⟨p, minuteFloor now⟩ = p.job (minuteFloor now) from rfl, hby] at hnone
      cases hnone
    · exact h.sent job hmem
  constructor
  · intro j
    by_cases hj : j = i
    · rw [hj, goto_ticks_self]
      cases raises
      · exact hrest
      · trivial
    · rw [goto_ticks_of_ne _ _ hj]
      refine (h.ticks j).mono (le_refl _) (fun _ _ hby' => hby') fun job at_' hby' hmem => ?_
      rcases List.mem_cons.mp hmem with rfl | hmem
      · -- the job is claimed by the tick that sends it, so not by another
        have heq : some (j, at_') = some (i, at_) := hby'.symm.trans hby
        exact absurd (congrArg Prod.fst (Option.some.inj heq)) hj
      · exact hmem
  · exact h.held
  · exact hclaim
  · exact List.nodup_cons.mpr ⟨hnot, h.nodup⟩

/-! ## One step -/

theorem SchedulerState.Inv.step (h : s.Inv library) {l : Label ι} (hcond : s.ClaimsInTime l)
    (hstep : s.step library l = some t) : t.Inv library := by
  unfold SchedulerState.step at hstep
  cases l with
  | plan i overrides exchanges =>
    simp only at hstep
    cases hi : s.ticks i with
    | plan =>
      simp only [hi] at hstep
      cases hstep
      exact h.goto ⟨le_refl _, fun p hp => planned_of_mem_plan hp⟩
    | _ =>
      simp only [hi] at hstep
      cases hstep
  | claim i =>
    simp only at hstep
    have hok := h.ticks i
    cases hi : s.ticks i with
    | claim now plans =>
      cases plans with
      | nil =>
        simp only [hi] at hstep
        cases hstep
        exact h.goto trivial
      | cons p plans =>
        simp only [SchedulerState.ClaimsInTime, hi] at hstep hcond hok
        obtain ⟨hnow, hplans⟩ := hok
        have hp := hplans p List.mem_cons_self
        have hrest : ∀ q ∈ plans, Planned library now q := fun q hq =>
          hplans q (List.mem_cons_of_mem _ hq)
        have hclaim : Scheduling.claim s.clock p s.keys =
            setNxEx s.clock (p.job (minuteFloor now)).key "1" p.dedupeTtl s.keys := by
          unfold Scheduling.claim
          rw [hp.key]
        simp only [hclaim] at hstep
        cases hget : getKey s.clock (p.job (minuteFloor now)).key s.keys with
        | none =>
          have hclaimed := h.claimed (i := i) hp hrest hnow hcond hget
          rw [setNxEx_of_gone hget] at hstep hclaimed
          cases hstep
          exact hclaimed
        | some v =>
          rw [setNxEx_of_live hget] at hstep
          cases hstep
          exact h.goto ⟨hnow, hrest⟩
    | _ =>
      simp only [hi] at hstep
      cases hstep
  | send i raises =>
    simp only at hstep
    cases hi : s.ticks i with
    | send now p plans =>
      simp only [hi] at hstep
      cases hstep
      exact h.send hi raises
    | _ =>
      simp only [hi] at hstep
      cases hstep
  | wait microseconds =>
    cases hstep
    have hclock : s.clock ≤ s.clock + microseconds := by omega
    exact ⟨fun j => (h.ticks j).mono hclock (fun _ _ hby => hby) fun _ _ _ hmem => hmem,
      h.held, h.sent, h.nodup⟩

/-! ## Runs -/

omit [DecidableEq ι] in
theorem initial_inv (clock : ℤ) (keys : Keys) : (initial clock keys : SchedulerState ι).Inv library where
  ticks := fun _ => trivial
  held := by intro job i at_ h; cases h
  sent := by intro job h; cases h
  nodup := List.nodup_nil

/-- In every interleaving of ticks, each of which plans with the clock and makes its
    claims within an hour of planning: no job is sent twice. -/
theorem jobs_nodup_of_run (library : Exchange → ExchangeCalendar) (clock : ℤ) (keys : Keys)
    (s : SchedulerState ι)
    (hrun : Run (fun s l t => s.step library l = some t) (fun s l => s.ClaimsInTime l)
      (initial clock keys) s) : s.AtMostOnce :=
  (hrun.invariant (initial_inv clock keys) fun _ _ _ h hcond hstep => h.step hcond hstep).nodup

/-- A day with a session from midnight to one o'clock. -/
def sampleLibrary (_ : Exchange) : ExchangeCalendar where
  localDate _ := ⟨2026, 3, 9, by decide, by decide, by decide⟩
  isSession _ := true
  sessionOpen _ := 0
  sessionClose _ := hours 1

/-- Two ticks in the minute after the close. Both plan before either makes its claim, and the
    second one makes its claim a minute later. -/
def overlappingTicks : List (Label (Fin 2)) :=
  [.plan 0 (fun _ _ => none) [.xnys], .plan 1 (fun _ _ => none) [.xnys], .claim 0, .send 0 false,
    .wait 60000000, .claim 1, .claim 0, .claim 1]

instance {ι : Type} (s : SchedulerState ι) : (l : Label ι) → Decidable (s.ClaimsInTime l)
  | .claim i =>
    match h : s.ticks i with
    | .claim now (_ :: _) =>
      decidable_of_iff (s.clock ≤ now + hours 1) (by simp only [SchedulerState.ClaimsInTime, h])
    | .claim _ [] | .plan | .send .. | .returned | .raised =>
      isTrue (by simp only [SchedulerState.ClaimsInTime, h])
  | .plan .. | .send .. | .wait _ => isTrue trivial

theorem jobs_nodup_of_run_sample :
    ∃ s, overlappingTicks.foldlM (fun (s : SchedulerState (Fin 2)) l =>
        if s.ClaimsInTime l then s.step sampleLibrary l else none)
          (initial (hours 1 + seconds 30) fun _ => none) = some s ∧ s.AtMostOnce := by
  obtain ⟨s, hs⟩ := Option.isSome_iff_exists.mp (show (overlappingTicks.foldlM
    (fun (s : SchedulerState (Fin 2)) l => if s.ClaimsInTime l then s.step sampleLibrary l else none)
      (initial (hours 1 + seconds 30) fun _ => none)).isSome by decide +kernel)
  exact ⟨s, hs, jobs_nodup_of_run sampleLibrary _ _ s (Run.of_foldlM_guarded _ hs)⟩

end Nivara.Scheduling
