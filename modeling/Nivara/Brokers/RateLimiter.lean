import Nivara.Lib.SortedSet

/-!
# `GlobalRateLimiter`, one key

The calls of `acquire` (`brokers/rate_limiter.py`, lines 89–146) on the sorted set of
one key, as a transition system: each Redis command is one step.

* All processes and Redis read one clock, in milliseconds.
* The member of an admission is a fresh `uuid4`. A call admits at most once, so the
  member is named by the call.
* Redis drops a key when its set is empty or its time to live runs out, and with the
  key its time to live. `ZADD` keeps the time to live of a key that exists.
* What `time.monotonic()` says has elapsed is given with the step that reads it, and a
  sleep may end at any time.
* `recorded` is history: the admissions whose `ZADD` was sent, with their timestamps.
-/

namespace Nivara.Brokers

open SortedSet

/-- The arguments of the constructor that it accepts. -/
structure GlobalRateLimiter where
  maxRequests : ℕ
  windowSeconds : ℚ
  maxWaitSeconds : ℚ
  maxRequests_pos : 1 ≤ maxRequests
  windowSeconds_pos : 0 < windowSeconds
  maxWaitSeconds_nonneg : 0 ≤ maxWaitSeconds

namespace GlobalRateLimiter

/-- The length of the window in milliseconds. -/
def window (limiter : GlobalRateLimiter) : ℚ := limiter.windowSeconds * 1000

/-- `_window_ms`. -/
def windowMs (limiter : GlobalRateLimiter) : ℤ := ⌊limiter.window⌋

/-- `_expire_s`. -/
def expireS (limiter : GlobalRateLimiter) : ℤ := max (⌊limiter.windowSeconds * 2⌋ + 1) 2

end GlobalRateLimiter

/-- A call of `acquire`, by what it does next. -/
inductive Call
  /-- Read the clock. -/
  | read
  /-- `ZREMRANGEBYSCORE`; `now` is the reading. -/
  | trim (now : ℤ)
  /-- `ZCARD`. -/
  | zcard (now : ℤ)
  /-- `ZADD`: the count was below the maximum. -/
  | zadd (now : ℤ)
  | expire
  /-- `ZRANGE`. -/
  | zrange (now : ℤ)
  | sleep
  | returned
  /-- `BrokerAPIError(RATE_LIMITED)`; the message gives the time that has elapsed. -/
  | failed (elapsed : ℚ)
  deriving DecidableEq

/-- The reading of a call that has not counted yet. -/
def Call.counting : Call → Option ℤ
  | .trim now => some now
  | .zcard now => some now
  | _ => none

/-- The reading of a call that is about to add. -/
def Call.adding : Call → Option ℤ
  | .zadd now => some now
  | _ => none

/-- The call has added its member. -/
def Call.added : Call → Bool
  | .expire => true
  | .returned => true
  | _ => false

variable {ι : Type}

structure LimiterState (ι : Type) where
  clock : ℤ
  entries : Entries ι ℤ
  /-- When the time to live of the key runs out. -/
  deadline : Option ℤ
  calls : ι → Call
  recorded : List (ι × ℤ)

inductive Label (ι : Type)
  /-- The call goes on. -/
  | advance (i : ι) (elapsed : ℚ)
  /-- Time passes. -/
  | tick (ms : ℕ)
  deriving DecidableEq

namespace LimiterState

variable [DecidableEq ι]

def goto (s : LimiterState ι) (i : ι) (c : Call) : LimiterState ι :=
  { s with calls := Function.update s.calls i c }

@[simp] theorem goto_calls_self (s : LimiterState ι) (i : ι) (c : Call) : (s.goto i c).calls i = c :=
  Function.update_self ..

theorem goto_calls_of_ne (s : LimiterState ι) {i j : ι} (c : Call) (h : j ≠ i) :
    (s.goto i c).calls j = s.calls j :=
  Function.update_of_ne h ..

variable (limiter : GlobalRateLimiter)

/-- `wait_ms / 1000.0`, at least 0.005, in seconds. -/
def sleepS (now oldestScore : ℤ) : ℚ := max ((oldestScore + limiter.windowMs - now : ℤ) / 1000) (1 / 200)

/-- The next step of a call. -/
def advance (s : LimiterState ι) (i : ι) (elapsed : ℚ) : Call → Option (LimiterState ι)
  | .read => some (s.goto i (.trim s.clock))
  | .trim now =>
    let entries := s.entries.removeByScore 0 (now - limiter.windowMs)
    let deadline := if entries.isEmpty then none else s.deadline
    some ({ s with entries := entries, deadline := deadline }.goto i (.zcard now))
  | .zcard now =>
    some (s.goto i (if s.entries.zcard < limiter.maxRequests then .zadd now else .zrange now))
  | .zadd now =>
    some ({ s with
      entries := s.entries.zadd i now
      recorded := (i, now) :: s.recorded }.goto i .expire)
  | .expire =>
    let deadline := if s.entries.isEmpty then none else some (s.clock + limiter.expireS * 1000)
    some ({ s with deadline := deadline }.goto i .returned)
  | .zrange now =>
    match s.entries.oldestScore with
    | none => some (s.goto i .read)
    | some oldestScore =>
      if elapsed + sleepS limiter now oldestScore > limiter.maxWaitSeconds then
        some (s.goto i (.failed elapsed))
      else some (s.goto i .sleep)
  | .sleep => some (s.goto i .read)
  | .returned => none
  | .failed _ => none

/-- The time to live runs out while `ms` milliseconds pass. -/
def Expires (s : LimiterState ι) (ms : ℕ) : Prop := ∃ d ∈ s.deadline, d ≤ s.clock + ms

instance (s : LimiterState ι) (ms : ℕ) : Decidable (s.Expires ms) :=
  match h : s.deadline with
  | none => isFalse (by rintro ⟨d, hd, -⟩; rw [h] at hd; cases hd)
  | some d => decidable_of_iff (d ≤ s.clock + ms)
      ⟨fun hd => ⟨d, h, hd⟩, by rintro ⟨e, he, hle⟩; rw [h] at he; cases he; exact hle⟩

/-- One step of the system. -/
def step (s : LimiterState ι) : Label ι → Option (LimiterState ι)
  | .advance i elapsed => s.advance limiter i elapsed (s.calls i)
  | .tick ms =>
    if s.Expires ms then some { s with clock := s.clock + ms, entries := [], deadline := none }
    else some { s with clock := s.clock + ms }

end LimiterState

/-- Before any call: the key does not exist. -/
def initial (clock : ℤ) : LimiterState ι := ⟨clock, [], none, fun _ => .read, []⟩

end Nivara.Brokers
