import Nivara.Auth.Service
import Nivara.Common.Redis
import Nivara.Lib.FixedWindow
import Nivara.Lib.Transition

/-!
# The rate limit of password resets

`AuthService._check_rate_limit` (`services/auth.py`, lines 242–264): one transaction of `INCR` and
`EXPIRE NX`, and a comparison of the count. `request_password_reset` calls it for the email and then
for the IP (lines 286–294).

* Any number of calls run on any keys, each with its transaction as one step, and time passes between
  them; a key is gone from its deadline on. Counts and times are within the 64 bits of Redis.
* `RateLimit.lives` is history: for each life of a counter the calls that it has let pass, with the
  time of their transaction.

Results:

* `Counted.check`: what one transaction keeps.
* `rateLimit_of_run`: at most the maximum pass in one life of the counter, at most twice as many in an
  interval of one window length, and the counter has a time to live whenever it exists.
-/

namespace Nivara.Auth

open FixedWindow Redis Transition

/-! ## Model of the code -/

/-- What `Settings` has for password resets. -/
structure PasswordResetSettings where
  passwordResetTokenExpiresMinutes : ℤ := 30
  passwordResetRateLimitMax : ℤ := 5
  passwordResetRateLimitWindowSeconds : ℤ := 900
  smtpHost : Option String := none
  smtpFromEmail : Option String := none

def tooManyRequests : HttpError := ⟨429, "Too many password reset requests. Please try again later."⟩

inductive ResetException
  | http (error : HttpError)
  | response (error : ResponseError)
  /-- `MultipleResultsFound`. -/
  | multipleResults
  | valueError
  deriving DecidableEq

variable (cfg : PasswordResetSettings)

/-- The comparison of the count. -/
def compareCount (count : ℤ) : Except ResetException Unit :=
  if count > cfg.passwordResetRateLimitMax then .error (.http tooManyRequests) else .ok ()

/-- `_check_rate_limit`. An error of the `INCR` is raised when the `EXPIRE` has been executed too. -/
def checkRateLimit (now : ℤ) (key : String) (k : Keys) : Except ResetException Unit × Keys :=
  let (count, k) := incr now key k
  let k := expireNx now key cfg.passwordResetRateLimitWindowSeconds k
  match count with
  | .error e => (.error (.response e), k)
  | .ok count => (compareCount cfg count, k)

/-! ## Calls and time -/

structure RateLimit where
  /-- In milliseconds. -/
  clock : ℤ
  keys : Keys
  /-- What each life of the counter has let pass, newest first. -/
  lives : String → List (Life ℤ)

inductive RateLimitLabel
  /-- A call of `_check_rate_limit`. -/
  | check (key : String)
  | wait (ms : ℕ)

/-- A call that passes belongs to the newest life. -/
def recordPass (now : ℤ) (result : Except ResetException Unit) : List (Life ℤ) → List (Life ℤ)
  | [] => []
  | l :: older =>
    match result with
    | .ok () => ⟨l.start, now :: l.times⟩ :: older
    | .error _ => l :: older

namespace RateLimit

/-- The lives of the counter with the one that a call counts in. -/
def livesAt (s : RateLimit) (key : String) : List (Life ℤ) :=
  match find s.clock key s.keys with
  | none => ⟨s.clock, []⟩ :: s.lives key
  | some _ => s.lives key

/-- One step of the system. -/
def step (s : RateLimit) : RateLimitLabel → RateLimit
  | .check key =>
    let (result, keys) := checkRateLimit cfg s.clock key s.keys
    { s with
      keys := keys
      lives := Function.update s.lives key (recordPass s.clock result (s.livesAt key)) }
  | .wait ms => { s with clock := s.clock + ms }

theorem step_check_lives (s : RateLimit) (key : String) : (s.step cfg (.check key)).lives key =
    recordPass s.clock (checkRateLimit cfg s.clock key s.keys).1 (s.livesAt key) := Function.update_self ..

theorem step_check_keys (s : RateLimit) (key : String) :
    (s.step cfg (.check key)).keys = (checkRateLimit cfg s.clock key s.keys).2 := rfl

/-- Before any call. -/
def initial (clock : ℤ) : RateLimit := ⟨clock, fun _ => none, fun _ => []⟩

end RateLimit

/-! ## One transaction -/

namespace PasswordResetSettings

/-- The length of the window in milliseconds. -/
def window : ℤ := cfg.passwordResetRateLimitWindowSeconds * 1000

/-- How many calls may pass: none for a maximum that is negative. -/
def allowed : ℕ := cfg.passwordResetRateLimitMax.toNat

end PasswordResetSettings

variable {cfg} {now : ℤ} {key : String} {k : Keys}

/-- A counter that is not there starts with one, and with its time to live. -/
theorem checkRateLimit_of_gone (h : find now key k = none) :
    checkRateLimit cfg now key k = (compareCount cfg 1,
      setTtl now key (.integer 1) cfg.passwordResetRateLimitWindowSeconds
        (Function.update k key (some ⟨.integer 1, none⟩))) := by
  unfold checkRateLimit
  rw [incr_of_gone h]
  dsimp only
  rw [expireNx_of_new (Function.update_self ..)]

/-- A counter that is there counts on, to its own deadline. -/
theorem checkRateLimit_of_live {n deadline : ℤ} (h : find now key k = some ⟨.integer n, some deadline⟩) :
    checkRateLimit cfg now key k = (compareCount cfg (n + 1),
      Function.update k key (some ⟨.integer (n + 1), some deadline⟩)) := by
  unfold checkRateLimit
  rw [incr_of_integer h]
  dsimp only
  rw [expireNx_of_deadline (Function.update_self ..)]

/-- The transaction is about one key. -/
theorem checkRateLimit_of_ne {key' : String} (h : key' ≠ key) :
    (checkRateLimit cfg now key k).2 key' = k key' := by
  have hkeys : (checkRateLimit cfg now key k).2 =
      expireNx now key cfg.passwordResetRateLimitWindowSeconds (incr now key k).2 := by
    unfold checkRateLimit
    rcases incr now key k with ⟨_ | count, k'⟩ <;> rfl
  rw [hkeys, expireNx_of_ne h, incr_of_ne h]

/-! ## The invariant -/

/-- The counter of a key, with the life it is in: it has counted every call that has passed in it. -/
structure Counting (cfg : PasswordResetSettings) (s : RateLimit) (key : String) (l : Life ℤ)
    (older : List (Life ℤ)) (n : ℤ) : Prop where
  lives : s.lives key = l :: older
  entry : s.keys key = some ⟨.integer n, some (l.start + cfg.window)⟩
  counted : l.times.length ≤ n
  started : l.start ≤ s.clock

/-- What holds of a key. -/
structure Counted (cfg : PasswordResetSettings) (s : RateLimit) (key : String) : Prop where
  atMost : ∀ l ∈ s.lives key, l.times.length ≤ cfg.allowed
  ordered : 0 < cfg.window → Ordered cfg.allowed cfg.window (s.lives key)
  counter : s.keys key = none ∧ (0 < cfg.window → s.lives key = []) ∨
    0 < cfg.window ∧ ∃ l older n, Counting cfg s key l older n

/-- A call passes with a count up to the maximum. -/
theorem compareCount_eq (cfg : PasswordResetSettings) (count : ℤ) :
    compareCount cfg count = .ok () ∧ count ≤ cfg.passwordResetRateLimitMax ∨
      compareCount cfg count = .error (.http tooManyRequests) := by
  unfold compareCount
  split_ifs with h
  · exact .inr rfl
  · exact .inl ⟨rfl, not_lt.mp h⟩

/-- One more call in a life that has counted `count - 1` of them. -/
theorem length_recordPass (now : ℤ) (l : Life ℤ) (older : List (Life ℤ)) (count : ℤ)
    (hcount : l.times.length + 1 ≤ count) (hlength : l.times.length ≤ cfg.allowed) :
    ∃ l', recordPass now (compareCount cfg count) (l :: older) = l' :: older ∧ l'.start = l.start ∧
      l'.times.length ≤ count ∧ l'.times.length ≤ cfg.allowed ∧
      (l' = l ∨ l' = ⟨l.start, now :: l.times⟩ ∧ l.times.length < cfg.allowed) := by
  rcases compareCount_eq cfg count with ⟨hok, hmax⟩ | herror
  · have hlt : l.times.length < cfg.allowed := by
      unfold PasswordResetSettings.allowed
      omega
    rw [hok]
    refine ⟨⟨l.start, now :: l.times⟩, rfl, rfl, ?_, hlt, .inr ⟨rfl, hlt⟩⟩
    rw [List.length_cons]
    omega
  · rw [herror]
    exact ⟨l, rfl, rfl, by omega, hlength, .inl rfl⟩

/-- The same with the order of the lives. -/
theorem ordered_recordPass {l l' : Life ℤ} {older : List (Life ℤ)}
    (h : Ordered cfg.allowed cfg.window (l :: older)) (hstart : l.start ≤ now)
    (hnow : now < l.start + cfg.window)
    (hl : l' = l ∨ l' = ⟨l.start, now :: l.times⟩ ∧ l.times.length < cfg.allowed) :
    Ordered cfg.allowed cfg.window (l' :: older) := by
  rcases hl with rfl | ⟨rfl, hlt⟩
  · exact h
  · exact h.pass hlt hstart hnow

namespace Counted

variable {s : RateLimit}

/-- A call whose counter is not there starts a new life of it. -/
theorem check_of_gone (h : Counted cfg s key) (hfind : find s.clock key s.keys = none)
    (hover : 0 < cfg.window → ∀ l ∈ s.lives key, l.start + cfg.window ≤ s.clock) :
    Counted cfg (s.step cfg (.check key)) key := by
  obtain ⟨l, hrecord, hstart, hcount, hallowed, hl⟩ :=
    length_recordPass s.clock ⟨s.clock, []⟩ (s.lives key) 1 (by simp) (Nat.zero_le cfg.allowed)
  have hlives : (s.step cfg (.check key)).lives key = l :: s.lives key := by
    rw [s.step_check_lives, checkRateLimit_of_gone hfind, RateLimit.livesAt, hfind]
    exact hrecord
  have hkeys : (s.step cfg (.check key)).keys key =
      if cfg.passwordResetRateLimitWindowSeconds ≤ 0 then none
      else some ⟨.integer 1, some (s.clock + cfg.window)⟩ := by
    rw [s.step_check_keys, checkRateLimit_of_gone hfind]
    exact Function.update_self ..
  refine ⟨?_, fun hwindow => ?_, ?_⟩
  · rw [hlives]
    intro m hm
    rcases List.mem_cons.mp hm with rfl | hm
    · exact hallowed
    · exact h.atMost m hm
  · rw [hlives]
    exact ordered_recordPass ((h.ordered hwindow).open (hover hwindow)) le_rfl
      (lt_add_of_pos_right s.clock hwindow) hl
  · unfold PasswordResetSettings.window at *
    by_cases hwindow : cfg.passwordResetRateLimitWindowSeconds ≤ 0
    · rw [if_pos hwindow] at hkeys
      exact .inl ⟨hkeys, fun hpos => by omega⟩
    · rw [if_neg hwindow] at hkeys
      refine .inr ⟨by omega, l, s.lives key, 1, hlives, ?_, hcount, hstart.le⟩
      rw [hkeys, hstart]
      rfl

/-- A call whose counter is there counts in the life it is in. -/
theorem check_of_live (h : Counted cfg s key) (hwindow : 0 < cfg.window) {l : Life ℤ}
    {older : List (Life ℤ)} {n : ℤ} (hcounting : Counting cfg s key l older n) (hlive : s.clock < l.start + cfg.window) :
    Counted cfg (s.step cfg (.check key)) key := by
  have hfind := find_of_lt hcounting.entry hlive
  have hmem : l ∈ s.lives key := by
    rw [hcounting.lives]
    exact List.mem_cons_self
  have hordered := h.ordered hwindow
  rw [hcounting.lives] at hordered
  have hcounted := hcounting.counted
  obtain ⟨l', hrecord, hstart, hcount, hallowed, hl⟩ :=
    length_recordPass s.clock l older (n + 1) (by omega) (h.atMost l hmem)
  have hlives : (s.step cfg (.check key)).lives key = l' :: older := by
    rw [s.step_check_lives, checkRateLimit_of_live hfind, RateLimit.livesAt, hfind]
    dsimp only
    rw [hcounting.lives]
    exact hrecord
  have hkeys : (s.step cfg (.check key)).keys key =
      some ⟨.integer (n + 1), some (l.start + cfg.window)⟩ := by
    rw [s.step_check_keys, checkRateLimit_of_live hfind]
    exact Function.update_self ..
  have hordered' := ordered_recordPass hordered hcounting.started hlive hl
  refine ⟨?_, fun _ => ?_, .inr ⟨hwindow, l', older, n + 1, hlives, ?_, hcount, ?_⟩⟩
  · rw [hlives]
    exact hordered'.atMost
  · rw [hlives]
    exact hordered'
  · rw [hkeys, hstart]
  · rw [hstart]
    exact hcounting.started

/-- A transaction keeps what holds of its key. -/
theorem check (h : Counted cfg s key) : Counted cfg (s.step cfg (.check key)) key := by
  rcases h.counter with ⟨hnone, hlives⟩ | ⟨hwindow, l, older, n, hcounting⟩
  · refine h.check_of_gone (find_of_none hnone) fun hwindow l hl => ?_
    rw [hlives hwindow] at hl
    cases hl
  · rcases lt_or_ge s.clock (l.start + cfg.window) with hlive | hover
    · exact h.check_of_live hwindow hcounting hlive
    · refine h.check_of_gone (find_of_le hcounting.entry hover) fun _ m hm => ?_
      have hordered := h.ordered hwindow
      rw [hcounting.lives] at hordered hm
      rcases List.mem_cons.mp hm with rfl | hm
      · exact hover
      · have hapart := (List.pairwise_cons.mp hordered.apart).1 m hm
        exact hapart.trans hcounting.started

/-- So does every step. -/
theorem step (h : Counted cfg s key) (l : RateLimitLabel) : Counted cfg (s.step cfg l) key := by
  cases l with
  | check key' =>
    by_cases hkey : key = key'
    · subst hkey
      exact h.check
    · have hkeys : (s.step cfg (.check key')).keys key = s.keys key := checkRateLimit_of_ne hkey
      have hlives : (s.step cfg (.check key')).lives key = s.lives key := Function.update_of_ne hkey ..
      refine ⟨hlives ▸ h.atMost, hlives ▸ h.ordered, ?_⟩
      rw [hkeys, hlives]
      rcases h.counter with hnone | ⟨hwindow, m, older, n, hcounting⟩
      · exact .inl hnone
      · exact .inr ⟨hwindow, m, older, n, hlives.trans hcounting.lives, hkeys.trans hcounting.entry,
          hcounting.counted, hcounting.started⟩
  | wait ms =>
    refine ⟨h.atMost, h.ordered, h.counter.imp_right ?_⟩
    rintro ⟨hwindow, m, older, n, hcounting⟩
    refine ⟨hwindow, m, older, n, hcounting.lives, hcounting.entry, hcounting.counted, ?_⟩
    exact hcounting.started.trans (le_add_of_nonneg_right (Int.natCast_nonneg ms))

end Counted

/-! ## Runs -/

/-- For every interleaving of calls with the passing of time, and every key: at most the maximum of calls
    pass in one life of the counter, at most twice the maximum in an interval that is no longer than the
    window, and a counter that exists has a time to live. -/
theorem rateLimit_of_run (cfg : PasswordResetSettings) (clock : ℤ) (s : RateLimit)
    (hrun : Run (fun s l t => RateLimit.step cfg s l = t) Unconditional (RateLimit.initial clock) s)
    (key : String) :
    (∀ l ∈ s.lives key, l.times.length ≤ cfg.passwordResetRateLimitMax.toNat) ∧
      (∀ a b, a < b → b ≤ a + cfg.passwordResetRateLimitWindowSeconds * 1000 →
        (times (s.lives key)).countP (fun t => a ≤ t ∧ t ≤ b) ≤ 2 * cfg.passwordResetRateLimitMax.toNat) ∧
      ∀ e, s.keys key = some e → e.deadline ≠ none := by
  have hcounted : Counted cfg s key := by
    refine hrun.invariant (I := fun s => Counted cfg s key) ?_ fun s l t h _ hstep => hstep ▸ h.step l
    exact ⟨nofun, fun _ => ordered_nil, .inl ⟨rfl, fun _ => rfl⟩⟩
  refine ⟨hcounted.atMost, fun a b hab hwindow => ?_, fun e he => ?_⟩
  · have hpos : 0 < cfg.window := by
      unfold PasswordResetSettings.window
      omega
    exact (hcounted.ordered hpos).countP_le_two_mul hwindow
  · rcases hcounted.counter with ⟨hnone, -⟩ | ⟨-, l, older, n, hcounting⟩
    · rw [hnone] at he
      cases he
    · rw [hcounting.entry] at he
      cases he
      exact Option.some_ne_none _

def sampleLimitKey : String := "auth:pwreset:rl:ip:10.0.0.1"

/-- Two calls, the second one a second before the window ends, and one when it has ended. -/
def sampleLimited : RateLimit :=
  [RateLimitLabel.check sampleLimitKey, .wait 899000, .check sampleLimitKey, .wait 1000,
    .check sampleLimitKey].foldl (RateLimit.step {}) (RateLimit.initial 0)

example : (sampleLimited.lives sampleLimitKey).map (·.times) = [[900000], [899000, 0]] := by decide

theorem rateLimit_of_run_sample :
    (∀ l ∈ sampleLimited.lives sampleLimitKey, l.times.length ≤ (5 : ℤ).toNat) ∧
      (∀ a b, a < b → b ≤ a + (900 : ℤ) * 1000 →
        (times (sampleLimited.lives sampleLimitKey)).countP (fun t => a ≤ t ∧ t ≤ b) ≤ 2 * (5 : ℤ).toNat) ∧
      ∀ e, sampleLimited.keys sampleLimitKey = some e → e.deadline ≠ none :=
  rateLimit_of_run {} 0 sampleLimited (Run.of_foldl _ _) sampleLimitKey

end Nivara.Auth
