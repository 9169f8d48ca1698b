import Nivara.Scheduling.Dispatches

/-!
# The batch after a close

A tick plans the post-close batch only in the minute after the close. A tick that comes
later, because beat was down or late, finds the market closed.

Results:

* `postClose_planned_iff`: the first tick after a close plans the batch exactly when the
  minute it is in starts in the minute after the close.
* `postClose_planned_of_minutely`: it does when the ticks are at most a minute apart and the
  close is on a whole minute.
* `batch_lost_by_late_tick`: five minutes after the close.
-/

namespace Nivara.Scheduling

/-- Tick `n` of a run of beat is the first one at or after the close of the session, and on
    its local date. -/
structure FirstAfterClose (library : Exchange → ExchangeCalendar) (overrides : ℕ → Overrides)
    (exchange : Exchange) (date : Date) (ticks : ℕ → ℤ) (n : ℕ) : Prop where
  increasing : StrictMono ticks
  isOpen : (getSessionHours library (overrides n) exchange date).isOpen = true
  before : ∀ m < n, ticks m < (library exchange).sessionClose date
  after : (library exchange).sessionClose date ≤ ticks n
  localDate : (library exchange).localDate (ticks n) = date

/-- The tick plans the post-close batch of the session. -/
def PlansPostClose (library : Exchange → ExchangeCalendar) (overrides : Overrides) (now : ℤ)
    (exchanges : List Exchange) (exchange : Exchange) (date : Date) : Prop :=
  ∃ p ∈ (plan library overrides now exchanges).planned, p.taskName = postCloseTask ∧
    p.kwargs.exchange = exchange ∧ p.kwargs.sessionDate = some date.isoformat

variable {library : Exchange → ExchangeCalendar} {exchange : Exchange} {date : Date}

/-- The state in the minute after the close of an open session. -/
theorem computeMarketState_justClosed {overrides : Overrides} {now : ℤ}
    (hopen : (getSessionHours library overrides exchange ((library exchange).localDate now)).isOpen = true)
    (hstarted : (library exchange).sessionOpen ((library exchange).localDate now) ≤ now)
    (hclosed : (library exchange).sessionClose ((library exchange).localDate now) ≤ now)
    (hjust : now < (library exchange).sessionClose ((library exchange).localDate now) + minutes 1) :
    (computeMarketState library overrides exchange now).state = .justClosed := by
  obtain ⟨hopenUtc, hcloseUtc⟩ := getSessionHours_of_isOpen hopen
  unfold computeMarketState
  simp only [hopen, hopenUtc, hcloseUtc]
  rw [if_neg (not_lt.mpr hstarted), if_neg (fun h => absurd h.2 (not_lt.mpr hclosed)),
    if_pos ⟨hclosed, hjust⟩]

/-- The minute that `now` is in starts in the minute after the close of the session, and on
    its local date. -/
def InClosingMinute (library : Exchange → ExchangeCalendar) (exchange : Exchange) (date : Date)
    (now : ℤ) : Prop :=
  (library exchange).localDate (minuteFloor now) = date ∧
    (library exchange).sessionOpen date ≤ minuteFloor now ∧
    (library exchange).sessionClose date ≤ minuteFloor now ∧
    minuteFloor now < (library exchange).sessionClose date + minutes 1

/-- When a tick plans the batch of a session that is open. -/
theorem plansPostClose_iff {overrides : Overrides} {now : ℤ} {exchanges : List Exchange}
    (hexchange : exchange ∈ exchanges)
    (hopen : (getSessionHours library overrides exchange date).isOpen = true) :
    PlansPostClose library overrides now exchanges exchange date ↔
      InClosingMinute library exchange date now := by
  constructor
  · rintro ⟨p, hp, -, hpexchange, hpdate⟩
    obtain ⟨snap, hsnap, hp⟩ := List.mem_flatMap.mp hp
    obtain ⟨exchange', -, rfl⟩ := List.mem_map.mp hsnap
    rcases mem_plansFor hp with ⟨hstate, rfl⟩ | ⟨-, rfl | rfl⟩
    · have heq : exchange' = exchange := by rw [← hpexchange, computeMarketState_exchange]
      subst heq
      have htext := Option.some.inj hpdate
      rw [computeMarketState_sessionDate] at htext
      have hdate := Date.isoformat_injective htext
      have hjust := of_justClosed hstate
      rw [hdate] at hjust
      exact ⟨hdate, hjust⟩
    · cases hpdate
    · cases hpdate
  · rintro ⟨rfl, hstarted, hclosed, hjust⟩
    have hstate := computeMarketState_justClosed hopen hstarted hclosed hjust
    let snap := computeMarketState library overrides exchange (minuteFloor now)
    let text := ((library exchange).localDate (minuteFloor now)).isoformat
    refine ⟨⟨postCloseTask, ⟨exchange, some text, some snap.isHalfDay⟩,
      some (postCloseKey exchange text), postCloseTtl, by decide⟩, ?_, rfl, rfl, rfl⟩
    refine List.mem_flatMap.mpr ⟨snap, List.mem_map.mpr ⟨exchange, hexchange, rfl⟩, ?_⟩
    unfold plansFor
    simp only [snap, hstate, computeMarketState_exchange, computeMarketState_sessionDate]
    exact List.mem_singleton.mpr rfl

/-- The first tick after a close plans the batch exactly when the minute it is in starts in
    the minute after the close, and on the same local date. -/
theorem postClose_planned_iff (library : Exchange → ExchangeCalendar) (overrides : ℕ → Overrides)
    (exchanges : List Exchange) (exchange : Exchange) (date : Date) (ticks : ℕ → ℤ) (n : ℕ)
    (hexchange : exchange ∈ exchanges)
    (hfirst : FirstAfterClose library overrides exchange date ticks n) :
    PlansPostClose library (overrides n) (ticks n) exchanges exchange date ↔
      InClosingMinute library exchange date (ticks n) :=
  plansPostClose_iff hexchange hfirst.isOpen

/-- Ticks 60 seconds apart, half a minute after the minute. -/
theorem postClose_planned_iff_sample :
    PlansPostClose sampleLibrary (fun _ _ => none) (hours 1 + seconds 30) [.xnys] .xnys
        (sampleLibrary .xnys |>.localDate 0) ↔
      InClosingMinute sampleLibrary .xnys (sampleLibrary .xnys |>.localDate 0) (hours 1 + seconds 30) := by
  let ticks : ℕ → ℤ := fun k => hours 1 + seconds 30 + minutes (k - 1)
  have hfirst : FirstAfterClose sampleLibrary (fun _ _ _ => none) .xnys
      ((sampleLibrary .xnys).localDate 0) ticks 1 := by
    refine ⟨?_, rfl, ?_, by decide, rfl⟩
    · intro j k hjk
      show hours 1 + seconds 30 + minutes (j - 1) < hours 1 + seconds 30 + minutes (k - 1)
      unfold minutes
      omega
    · intro m hm
      obtain rfl : m = 0 := by omega
      decide
  exact postClose_planned_iff sampleLibrary (fun _ _ _ => none) [.xnys] .xnys _ ticks 1
    (List.mem_singleton.mpr rfl) hfirst

/-- The tick before the close is at 0:55, the next one at 1:05: the batch is not planned. -/
theorem batch_lost_by_late_tick :
    ¬ ∀ (library : Exchange → ExchangeCalendar) (overrides : ℕ → Overrides) (exchanges : List Exchange)
      (exchange : Exchange) (date : Date) (ticks : ℕ → ℤ) (n : ℕ), exchange ∈ exchanges →
      FirstAfterClose library overrides exchange date ticks n →
      PlansPostClose library (overrides n) (ticks n) exchanges exchange date := by
  intro h
  have hfirst : FirstAfterClose sampleLibrary (fun _ _ _ => none) .xnys
      ((sampleLibrary .xnys).localDate 0) (fun k => hours 1 + minutes (10 * k - 5)) 1 := by
    refine ⟨?_, rfl, ?_, by decide, rfl⟩
    · intro j k hjk
      show hours 1 + minutes (10 * j - 5) < hours 1 + minutes (10 * k - 5)
      unfold minutes
      omega
    · intro m hm
      obtain rfl : m = 0 := by omega
      decide
  obtain ⟨-, -, -, hlate⟩ := (plansPostClose_iff (List.mem_singleton.mpr rfl) hfirst.isOpen).mp
    (h _ _ [.xnys] _ _ _ _ (List.mem_singleton.mpr rfl) hfirst)
  revert hlate
  decide

/-! ## A tick in every minute -/

/-- With a close on a whole minute and ticks at most a minute apart, the first tick after the
    close plans the batch, unless beat was started after the close. -/
theorem postClose_planned_of_minutely (overrides : ℕ → Overrides) {exchanges : List Exchange}
    {ticks : ℕ → ℤ} {n : ℕ} (hexchange : exchange ∈ exchanges)
    (hopens : (library exchange).sessionOpen date ≤ (library exchange).sessionClose date)
    (hwhole : minuteFloor ((library exchange).sessionClose date) = (library exchange).sessionClose date)
    (hlocal : (library exchange).localDate (minuteFloor (ticks (n + 1))) = date)
    (hgap : ticks (n + 1) ≤ ticks n + minutes 1)
    (hfirst : FirstAfterClose library overrides exchange date ticks (n + 1)) :
    PlansPostClose library (overrides (n + 1)) (ticks (n + 1)) exchanges exchange date := by
  have hbefore := hfirst.before n (Nat.lt_succ_self n)
  have hafter := hfirst.after
  have hfloor : (library exchange).sessionClose date ≤ minuteFloor (ticks (n + 1)) := by
    unfold minuteFloor minutes at *
    omega
  refine (plansPostClose_iff hexchange hfirst.isOpen).mpr ⟨hlocal, hopens.trans hfloor, hfloor, ?_⟩
  have hle := minuteFloor_le (ticks (n + 1))
  omega

end Nivara.Scheduling
