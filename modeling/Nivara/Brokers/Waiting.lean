import Nivara.Brokers.RateLimiter
import Nivara.Lib.Retry

/-!
# How long `acquire` waits

The loop of one call of `GlobalRateLimiter.acquire` (`brokers/rate_limiter.py`, lines
89–146), with all that it reads given: a `Pass` is one round.

* Before each round the set is any set. Between the commands of a round other clients add,
  and the time to live of the key may run out; no other client removes an entry then.
* Seconds are rational numbers. The two warnings are left out.

Results:

* `play_calls`: a round goes the way of the call in the transition system.
* `acquire_waits`: how long the loop sleeps, that it ends, and when it raises.
* `lateAddition_returns`: a run that returns though the oldest entry of its window would
  have had it wait too long, and a run in which the key runs out in every round.
-/

namespace Nivara.Brokers

open SortedSet Retry

variable {μ : Type} [DecidableEq μ]

/-! ## The loop -/

/-- What happens to the set between two commands of the call. -/
inductive Meanwhile (μ : Type)
  | added (member : μ) (score : ℤ)
  /-- The time to live of the key runs out. -/
  | expired
  deriving DecidableEq

def Meanwhile.apply (entries : Entries μ ℤ) : Meanwhile μ → Entries μ ℤ
  | .added member score => entries.zadd member score
  | .expired => []

/-- What a round reads. -/
structure Pass (μ : Type) where
  now : ℤ
  /-- The set that `ZREMRANGEBYSCORE` trims. -/
  stored : Entries μ ℤ
  beforeZcard : List (Meanwhile μ)
  beforeZrange : List (Meanwhile μ)
  /-- `time.monotonic() - start`. -/
  elapsed : ℚ

/-- How `acquire` ends. -/
inductive Ending
  | returned
  /-- `BrokerAPIError(RATE_LIMITED)`. -/
  | failed (elapsed : ℚ)
  deriving DecidableEq

namespace Pass

variable (limiter : GlobalRateLimiter) (p : Pass μ)

def trimmed : Entries μ ℤ := p.stored.removeByScore 0 (p.now - limiter.windowMs)

/-- The set that `ZCARD` counts. -/
def counted : Entries μ ℤ := p.beforeZcard.foldl Meanwhile.apply (p.trimmed limiter)

/-- The set that `ZRANGE` reads. -/
def read : Entries μ ℤ := p.beforeZrange.foldl Meanwhile.apply (p.counted limiter)

/-- What the round does when it has found no slot. -/
def wait : Round ℚ Ending :=
  match (p.read limiter).oldestScore with
  | none => .again
  | some oldestScore =>
    let sleep := LimiterState.sleepS limiter p.now oldestScore
    if p.elapsed + sleep > limiter.maxWaitSeconds then .done (.failed p.elapsed) else .sleep sleep

/-- One round. -/
def attempt : Round ℚ Ending :=
  if (p.counted limiter).zcard < limiter.maxRequests then .done .returned else p.wait limiter

end Pass

/-- A run of `acquire`: a sleep lasts at least as long as requested. -/
structure AcquireRun (limiter : GlobalRateLimiter) (μ : Type) [DecidableEq μ] where
  passes : ℕ → Pass μ
  timed : Timed (fun k => (passes k).attempt limiter) fun k => (passes k).elapsed

variable {limiter : GlobalRateLimiter}

/-- The sleeps that `acquire` requests in its first `n` rounds, and how it ends. -/
def AcquireRun.acquire (run : AcquireRun limiter μ) (n : ℕ) : List ℚ × Option Ending :=
  loop (fun k => (run.passes k).attempt limiter) n

/-! ## The calls of the transition system -/

section Calls

variable {ι : Type} [DecidableEq ι]

def LimiterState.meanwhile (s : LimiterState ι) (events : List (Meanwhile ι)) : LimiterState ι :=
  { s with entries := events.foldl Meanwhile.apply s.entries }

variable (limiter)

theorem LimiterState.advance_read (s : LimiterState ι) (i : ι) (elapsed : ℚ) :
    ∃ s', s.advance limiter i elapsed .read = some s' ∧ s'.entries = s.entries ∧
      s'.calls i = .trim s.clock :=
  ⟨s.goto i (.trim s.clock), rfl, rfl, s.goto_calls_self i _⟩

theorem LimiterState.advance_trim (s : LimiterState ι) (i : ι) (elapsed : ℚ) (now : ℤ) :
    ∃ s', s.advance limiter i elapsed (.trim now) = some s' ∧
      s'.entries = s.entries.removeByScore 0 (now - limiter.windowMs) ∧ s'.calls i = .zcard now :=
  ⟨_, rfl, rfl, LimiterState.goto_calls_self _ i _⟩

theorem LimiterState.advance_zcard (s : LimiterState ι) (i : ι) (elapsed : ℚ) (now : ℤ) :
    ∃ s', s.advance limiter i elapsed (.zcard now) = some s' ∧ s'.entries = s.entries ∧
      s'.calls i = if s.entries.zcard < limiter.maxRequests then .zadd now else .zrange now :=
  ⟨s.goto i _, rfl, rfl, s.goto_calls_self i _⟩

/-- What the call does after the round. -/
def Pass.next (p : Pass ι) : Round ℚ Ending → Call
  | .done .returned => .zadd p.now
  | .done (.failed elapsed) => .failed elapsed
  | .sleep _ => .sleep
  | .again => .read

theorem Pass.advance_zrange (p : Pass ι) (s : LimiterState ι) (i : ι) (hs : s.entries = p.read limiter) :
    (s.advance limiter i p.elapsed (.zrange p.now)).map (fun s => s.calls i) =
      some (p.next (p.wait limiter)) := by
  unfold LimiterState.advance Pass.wait
  rw [hs]
  dsimp only
  cases (p.read limiter).oldestScore with
  | none => simp [Pass.next]
  | some oldestScore =>
    dsimp only
    split_ifs <;> simp [Pass.next]

/-- The steps of a call from its reading of the clock, among those of a round. -/
def Pass.play (p : Pass ι) (i : ι) (s : LimiterState ι) : Option (LimiterState ι) := do
  let s ← { s with clock := p.now, entries := p.stored }.advance limiter i p.elapsed .read
  let s ← s.advance limiter i p.elapsed (s.calls i)
  let s ← (s.meanwhile p.beforeZcard).advance limiter i p.elapsed (s.calls i)
  match s.calls i with
  | .zrange now => (s.meanwhile p.beforeZrange).advance limiter i p.elapsed (.zrange now)
  | _ => some s

theorem play_calls (p : Pass ι) (i : ι) (s : LimiterState ι) :
    (p.play limiter i s).map (fun s => s.calls i) = some (p.next (p.attempt limiter)) := by
  obtain ⟨s₁, h₁, hentries₁, hcalls₁⟩ :=
    LimiterState.advance_read limiter { s with clock := p.now, entries := p.stored } i p.elapsed
  obtain ⟨s₂, h₂, hentries₂, hcalls₂⟩ := s₁.advance_trim limiter i p.elapsed p.now
  obtain ⟨s₃, h₃, hentries₃, hcalls₃⟩ :=
    (s₂.meanwhile p.beforeZcard).advance_zcard limiter i p.elapsed p.now
  have hcounted : (s₂.meanwhile p.beforeZcard).entries = p.counted limiter := by
    unfold LimiterState.meanwhile Pass.counted Pass.trimmed
    rw [hentries₂, hentries₁]
  rw [hcounted] at hentries₃ hcalls₃
  have hplay : p.play limiter i s = match s₃.calls i with
      | .zrange now => (s₃.meanwhile p.beforeZrange).advance limiter i p.elapsed (.zrange now)
      | _ => some s₃ := by
    unfold Pass.play
    rw [h₁, Option.bind_eq_bind, Option.bind_some, hcalls₁, h₂, Option.bind_some, hcalls₂, h₃]
    rfl
  rw [hplay, hcalls₃, Pass.attempt]
  by_cases hslot : (p.counted limiter).zcard < limiter.maxRequests
  · rw [if_pos hslot, if_pos hslot]
    dsimp only
    rw [Option.map_some, hcalls₃, if_pos hslot]
    rfl
  · rw [if_neg hslot, if_neg hslot]
    refine p.advance_zrange limiter _ i ?_
    unfold LimiterState.meanwhile Pass.read
    rw [hentries₃]

end Calls

/-! ## What a round does -/

namespace Pass

variable {p : Pass μ}

/-- The round has found no slot. -/
def Full (limiter : GlobalRateLimiter) (p : Pass μ) : Prop :=
  limiter.maxRequests ≤ (p.counted limiter).zcard

theorem attempt_of_full (h : p.Full limiter) : p.attempt limiter = p.wait limiter := by
  unfold attempt
  rw [if_neg (Nat.not_lt.mpr h)]

theorem attempt_eq_returned : p.attempt limiter = .done .returned ↔ ¬ p.Full limiter := by
  constructor
  · intro h hfull
    rw [attempt_of_full hfull] at h
    unfold wait at h
    split at h
    · cases h
    · dsimp only at h
      split_ifs at h
      cases h
  · intro h
    unfold attempt
    rw [if_pos (Nat.not_le.mp h)]

theorem full_of_attempt_ne (h : p.attempt limiter ≠ .done .returned) : p.Full limiter :=
  not_not.mp (mt attempt_eq_returned.mpr h)

/-- The time that has elapsed and the wait for the oldest of the entries exceed the maximum. -/
def Exceeds (limiter : GlobalRateLimiter) (p : Pass μ) (entries : Entries μ ℤ) : Prop :=
  ∃ oldestScore ∈ entries.oldestScore,
    limiter.maxWaitSeconds < p.elapsed + LimiterState.sleepS limiter p.now oldestScore

theorem attempt_eq_failed (hfull : p.Full limiter) :
    (∃ e, p.attempt limiter = .done (.failed e)) ↔ p.Exceeds limiter (p.read limiter) := by
  rw [attempt_of_full hfull]
  unfold wait Exceeds
  cases (p.read limiter).oldestScore with
  | none => simp
  | some oldestScore =>
    dsimp only
    split_ifs with h
    · exact ⟨fun _ => ⟨oldestScore, rfl, h⟩, fun _ => ⟨p.elapsed, rfl⟩⟩
    · constructor
      · rintro ⟨e, he⟩
        cases he
      · rintro ⟨score, hscore, hlt⟩
        cases hscore
        exact absurd hlt h

/-- A sleep is at least 5 ms long and ends, as planned, within the maximal wait. -/
theorem of_attempt_eq_sleep {s : ℚ} (h : p.attempt limiter = .sleep s) :
    1 / 200 ≤ s ∧ p.elapsed + s ≤ limiter.maxWaitSeconds := by
  rw [attempt_of_full (full_of_attempt_ne (by rw [h]; simp))] at h
  unfold wait at h
  split at h
  · cases h
  · dsimp only at h
    split_ifs at h with hle
    cases h
    exact ⟨le_max_right _ _, not_lt.mp hle⟩

/-- The time to live of the key runs out between `ZCARD` and `ZRANGE`. -/
def RunsOut (p : Pass μ) : Prop := .expired ∈ p.beforeZrange

instance : DecidablePred (RunsOut (μ := μ)) := fun p => inferInstanceAs (Decidable (_ ∈ p.beforeZrange))

/-- While others only add, a set that has an entry keeps one. -/
theorem foldl_apply_ne_nil {events : List (Meanwhile μ)} (hlive : .expired ∉ events)
    {entries : Entries μ ℤ} (h : entries ≠ []) : events.foldl Meanwhile.apply entries ≠ [] := by
  induction events generalizing entries with
  | nil => exact h
  | cons event events ih =>
    rw [List.mem_cons, not_or] at hlive
    refine ih hlive.2 ?_
    cases event with
    | added member score => exact List.cons_ne_nil _ _
    | expired => exact absurd rfl hlive.1

/-- A count that has reached the maximum is followed by an entry to wait for. -/
theorem runsOut_of_again (h : p.attempt limiter = .again) : p.RunsOut := by
  have hfull : p.Full limiter := full_of_attempt_ne (by rw [h]; simp)
  rw [attempt_of_full hfull] at h
  have hempty : p.read limiter = [] := by
    unfold wait at h
    split at h
    next hnone => exact Entries.oldestScore_eq_none.mp hnone
    next => dsimp only at h; split_ifs at h
  have hcounted : p.counted limiter ≠ [] := by
    intro hnil
    have hpos : 1 ≤ (p.counted limiter).zcard := limiter.maxRequests_pos.trans hfull
    rw [hnil] at hpos
    exact absurd hpos (Nat.not_succ_le_zero 0)
  by_contra hlive
  exact foldl_apply_ne_nil hlive hcounted hempty

end Pass

/-! ## What a run does -/

theorem AcquireRun.capped (run : AcquireRun limiter μ) : Capped (fun k => (run.passes k).attempt limiter)
    (fun k => (run.passes k).elapsed) (1 / 200) limiter.maxWaitSeconds :=
  ⟨fun _ _ h => (Pass.of_attempt_eq_sleep h).1, fun _ _ h => (Pass.of_attempt_eq_sleep h).2⟩

/-- In a round before a slot was found the wait for the oldest of the entries was too long. -/
def AcquireRun.Overdue (run : AcquireRun limiter μ) (entries : Pass μ → Entries μ ℤ) : Prop :=
  ∃ k, (∀ j ≤ k, (run.passes j).Full limiter) ∧ (run.passes k).Exceeds limiter (entries (run.passes k))

theorem AcquireRun.sum_le (run : AcquireRun limiter μ) (n : ℕ) :
    (run.acquire n).1.sum ≤ limiter.maxWaitSeconds :=
  loop_sum_le run.timed run.capped limiter.maxWaitSeconds_nonneg n

theorem AcquireRun.ends (run : AcquireRun limiter μ) {n : ℕ}
    (hn : ⌊limiter.maxWaitSeconds / (1 / 200)⌋₊ + Nat.count (fun k => (run.passes k).RunsOut) n < n) :
    ∃ ending, (run.acquire n).2 = some ending :=
  loop_ends (fun k => (run.passes k).RunsOut) run.timed run.capped (by norm_num)
    limiter.maxWaitSeconds_nonneg (fun _ h => Pass.runsOut_of_again h) hn

theorem AcquireRun.failed_iff (run : AcquireRun limiter μ) {n : ℕ} {ending : Ending}
    (h : (run.acquire n).2 = some ending) :
    (∃ e, ending = .failed e) ↔ run.Overdue fun p => p.read limiter := by
  obtain ⟨k, -, hend, hfirst⟩ := loop_eq_some.mp h
  constructor
  · rintro ⟨e, rfl⟩
    have hfull : ∀ j ≤ k, (run.passes j).Full limiter := by
      intro j hj
      rcases Nat.lt_or_eq_of_le hj with hlt | rfl
      · exact Pass.full_of_attempt_ne (hfirst j hlt .returned)
      · exact Pass.full_of_attempt_ne fun hreturned => by cases hend.symm.trans hreturned
    exact ⟨k, hfull, (Pass.attempt_eq_failed (hfull k le_rfl)).mp ⟨e, hend⟩⟩
  · rintro ⟨m, hfull, hexceeds⟩
    obtain ⟨e, he⟩ := (Pass.attempt_eq_failed (hfull m le_rfl)).mpr hexceeds
    -- the loop has ended by round `m`, and not with a slot
    have hle : k ≤ m := Nat.le_of_not_lt fun hlt => hfirst m hlt _ he
    cases ending with
    | failed e => exact ⟨e, rfl⟩
    | returned => exact absurd (hfull k hle) (Pass.attempt_eq_returned.mp hend)

/-! ## The window -/

namespace Pass

/-- The entries in the window of the round's reading. -/
def inWindow (limiter : GlobalRateLimiter) (p : Pass μ) : Entries μ ℤ :=
  (p.read limiter).filter fun e => p.now - limiter.windowMs < e.2

/-- The timestamps are not negative, and none that others add during the round has left its window. -/
def Timely (limiter : GlobalRateLimiter) (p : Pass μ) : Prop :=
  (∀ e ∈ p.stored, 0 ≤ e.2) ∧ ∀ member score,
    .added member score ∈ p.beforeZcard ++ p.beforeZrange → p.now - limiter.windowMs < score

theorem forall_mem_foldl {P : μ × ℤ → Prop} {events : List (Meanwhile μ)} {entries : Entries μ ℤ}
    (hentries : ∀ e ∈ entries, P e)
    (hadded : ∀ member score, .added member score ∈ events → P (member, score)) :
    ∀ e ∈ events.foldl Meanwhile.apply entries, P e := by
  induction events generalizing entries with
  | nil => exact hentries
  | cons event events ih =>
    refine ih ?_ fun member score h => hadded member score (List.mem_cons_of_mem _ h)
    cases event with
    | expired => exact fun e he => absurd he List.not_mem_nil
    | added member score =>
      intro e he
      rcases Entries.eq_or_mem_of_mem_zadd he with rfl | he
      · exact hadded member score List.mem_cons_self
      · exact hentries e he

theorem inWindow_of_timely {p : Pass μ} (h : p.Timely limiter) : p.inWindow limiter = p.read limiter := by
  have htrimmed : ∀ e ∈ p.trimmed limiter, p.now - limiter.windowMs < e.2 := by
    intro e he
    obtain ⟨hstored, hkept⟩ := Entries.mem_removeByScore.mp he
    exact not_le.mp fun hle => hkept ⟨h.1 e hstored, hle⟩
  have hcounted := forall_mem_foldl htrimmed fun member score hmem =>
    h.2 member score (List.mem_append_left _ hmem)
  have hread := forall_mem_foldl hcounted fun member score hmem =>
    h.2 member score (List.mem_append_right _ hmem)
  exact List.filter_eq_self.mpr fun e he => decide_eq_true (hread e he)

end Pass

theorem AcquireRun.overdue_of_timely (run : AcquireRun limiter μ) (h : ∀ k, (run.passes k).Timely limiter) :
    (run.Overdue fun p => p.read limiter) ↔ run.Overdue (Pass.inWindow limiter) := by
  unfold AcquireRun.Overdue
  simp only [Pass.inWindow_of_timely (h _)]

/-- In every run the sleeps come to at most the maximal wait, and the loop ends. Where no
    time to live runs out it ends within `⌊max_wait_seconds / 0.005⌋ + 1` rounds, and each
    time that one does costs a round at most. It raises when, before a slot was found, the
    wait for the oldest entry was too long: an entry of the window when no other client has
    added one that had left it. -/
theorem acquire_waits (run : AcquireRun limiter μ) :
    (∀ n, (run.acquire n).1.sum ≤ limiter.maxWaitSeconds) ∧
    (∀ n, ⌊limiter.maxWaitSeconds / (1 / 200)⌋₊ + Nat.count (fun k => (run.passes k).RunsOut) n < n →
      ∃ ending, (run.acquire n).2 = some ending ∧
        ((∃ e, ending = .failed e) ↔ run.Overdue fun p => p.read limiter)) ∧
    ((∀ k, (run.passes k).Timely limiter) →
      ((run.Overdue fun p => p.read limiter) ↔ run.Overdue (Pass.inWindow limiter))) := by
  refine ⟨run.sum_le, fun n hn => ?_, run.overdue_of_timely⟩
  obtain ⟨ending, h⟩ := run.ends hn
  exact ⟨ending, h, run.failed_iff h⟩

/-! ## A late addition, and a key that runs out -/

/-- One request a second, and a tenth of a second to wait. -/
def impatient : GlobalRateLimiter := ⟨1, 1, 1 / 10, le_rfl, by norm_num, by norm_num⟩

/-- Another client adds a timestamp that is a second and a half old, and the sleep of 5 ms
    lasts longer. -/
def lateAddition : ℕ → Pass ℕ
  | 0 => ⟨2000, [(0, 1500)], [.added 1 500], [], 0⟩
  | _ + 1 => ⟨2600, [(0, 1500), (1, 500)], [], [], 3 / 5⟩

theorem timed_lateAddition :
    Timed (fun k => (lateAddition k).attempt impatient) fun k => (lateAddition k).elapsed where
  nonneg := le_rfl
  mono k := by
    cases k with
    | zero => exact (by norm_num : (0 : ℚ) ≤ 3 / 5)
    | succ k => exact le_rfl
  slept k s h := by
    obtain ⟨hfloor, hle⟩ := Pass.of_attempt_eq_sleep h
    change (lateAddition k).elapsed + s ≤ 3 / 5
    exact hle.trans (by decide +kernel)

/-- In each round the key runs out after the count, three seconds after the round before. -/
def runsOut (k : ℕ) : Pass ℕ := ⟨3000 * k, [(k, 3000 * k)], [], [.expired], 3 * k⟩

theorem attempt_runsOut (k : ℕ) : (runsOut k).attempt impatient = .again := by
  have hwindow : impatient.windowMs = 1000 := by decide +kernel
  have hcounted : (runsOut k).counted impatient = [(k, (3000 * k : ℤ))] := by
    refine List.filter_eq_self.mpr ?_
    simp [runsOut, hwindow]
  rw [Pass.attempt_of_full]
  · rfl
  · unfold Pass.Full
    rw [hcounted]
    exact le_rfl

theorem timed_runsOut : Timed (fun k => (runsOut k).attempt impatient) fun k => (runsOut k).elapsed where
  nonneg := by simp [runsOut]
  mono k := by
    unfold runsOut
    push_cast
    linarith
  slept k s h := by
    rw [attempt_runsOut] at h
    cases h

/-- The call returns though the entry of its window would have had it wait too long; and a
    call goes on for ever. -/
theorem lateAddition_returns :
    (AcquireRun.acquire ⟨lateAddition, timed_lateAddition⟩ 2 = ([1 / 200], some .returned) ∧
      AcquireRun.Overdue ⟨lateAddition, timed_lateAddition⟩ (Pass.inWindow impatient)) ∧
    ∀ n, (AcquireRun.acquire ⟨runsOut, timed_runsOut⟩ n).2 = none := by
  refine ⟨⟨by decide +kernel, 0, ?_, 1500, by decide +kernel, by decide +kernel⟩, fun n => ?_⟩
  · intro j hj
    rw [Nat.le_zero.mp hj]
    exact (by decide +kernel : 1 ≤ ((lateAddition 0).counted impatient).zcard)
  · cases h : (AcquireRun.acquire ⟨runsOut, timed_runsOut⟩ n).2 with
    | none => rfl
    | some ending =>
      obtain ⟨k, -, hend, -⟩ := loop_eq_some.mp h
      cases (attempt_runsOut k).symm.trans hend

end Nivara.Brokers
