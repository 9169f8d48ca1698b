import Nivara.Common.Literals
import Nivara.Common.Redis
import Nivara.Lib.Transition

/-!
# The daily budget of GNews

`data/gnews.py`, lines 73–94 and 120–170. A call of `search` reads the counter of the day, sends
its request and counts it; each command on Redis is one step, and so are the request and its
answer. The key of a command is the one of the date at which the command was prepared.

* Calls are independent: each is a worker of its own, and may end between any two steps.
* The clock does not go back. It is read in milliseconds, as the deadlines of Redis are.
* Nothing else writes the keys `data:gnews:rate:…`.

Results:

* `Counts.counted_le_usage`, `Kept.step`: as long as the day lasts, its key says at least how many of its requests
  were counted; the key outlives the day.
* `sent_le_budget`: when no call overtakes another between its check and its request, no request
  is left uncounted and no call goes on past midnight, at most `daily_budget` requests are sent
  in a day.
* `two_calls_overspend`: two calls that read the counter before either has sent.
-/

namespace Nivara.MarketData

/-! ## Model -/

/-- A day, in milliseconds. -/
def dayMs : ℤ := 86400000

/-- `datetime.now(tz=UTC)`. -/
structure UtcNow where
  date : Date
  timeOfDay : ℤ
  timeOfDay_nonneg : 0 ≤ timeOfDay
  timeOfDay_lt : timeOfDay < dayMs

/-- The time that Redis reads. -/
def UtcNow.ms (t : UtcNow) : ℤ := t.date.days * dayMs + t.timeOfDay

/-- `_rate_limit_key`. -/
def rateLimitKey (today : Date) : String := "data:gnews:rate:" ++ today.isoformat

/-- `int(raw)` of `_current_usage`; 0 when it raises. -/
def usageOf : Redis.Value → ℤ
  | .integer n => n
  | .text raw => (Literals.int (py raw)).getD 0

/-- `_current_usage`. -/
def currentUsage (now : ℤ) (today : Date) (keys : Redis.Keys) : ℤ :=
  match Redis.find now (rateLimitKey today) keys with
  | none => 0
  | some e => usageOf e.value

/-- `60 * 60 * 25`. -/
def rateLimitTtl : ℤ := 60 * 60 * 25

/-- `GNewsClient`. -/
structure GNewsClient where
  apiKey : Option String
  dailyBudget : ℤ

/-- Where a call of `search` is. -/
inductive SearchCall
  | idle
  /-- before `GET` of the key of `today` -/
  | reading (today : Date)
  /-- past the check, before the request -/
  | allowed (today : Date)
  /-- the request is sent -/
  | waiting (sentOn : Date)
  /-- answered, before `INCR` of the key of `today` -/
  | counting (today sentOn : Date)
  /-- before `EXPIRE` -/
  | expiring (today : Date)
  | ended
  deriving DecidableEq

inductive SearchEvent (ι : Type)
  | tick (now : UtcNow)
  | start (i : ι)
  | get (i : ι)
  | send (i : ι)
  | answer (i : ι)
  | incr (i : ι)
  | expire (i : ι)
  /-- an exception (a failed request among them), a cancellation, the end of the process -/
  | stop (i : ι)

structure Searches (ι : Type) where
  now : UtcNow
  keys : Redis.Keys
  calls : ι → SearchCall
  /-- the requests sent on a date -/
  sent : Date → ℕ
  /-- those of them that `INCR` has counted under the key of this date -/
  counted : Date → ℕ

namespace Searches

variable {ι : Type} [DecidableEq ι]

/-- No call has begun. -/
def initial (now : UtcNow) : Searches ι := ⟨now, fun _ => none, fun _ => .idle, fun _ => 0, fun _ => 0⟩

def goTo (s : Searches ι) (i : ι) (c : SearchCall) : Searches ι :=
  { s with calls := Function.update s.calls i c }

def step (client : GNewsClient) (s : Searches ι) : SearchEvent ι → Option (Searches ι)
  | .tick now => if s.now.ms ≤ now.ms then some { s with now := now } else none
  | .start i =>
    match s.calls i with
    | .idle => some (s.goTo i (if client.apiKey.getD "" = "" then .ended else .reading s.now.date))
    | _ => none
  | .get i =>
    match s.calls i with
    | .reading today =>
      some (s.goTo i
        (if client.dailyBudget ≤ currentUsage s.now.ms today s.keys then .ended else .allowed today))
    | _ => none
  | .send i =>
    match s.calls i with
    | .allowed _ =>
      some { s.goTo i (.waiting s.now.date) with
        sent := Function.update s.sent s.now.date (s.sent s.now.date + 1) }
    | _ => none
  | .answer i =>
    match s.calls i with
    | .waiting sentOn => some (s.goTo i (.counting s.now.date sentOn))
    | _ => none
  | .incr i =>
    match s.calls i with
    | .counting today sentOn =>
      match Redis.incr s.now.ms (rateLimitKey today) s.keys with
      | (.ok count, keys) =>
        some { s.goTo i (if count = 1 then .expiring today else .ended) with
          keys := keys
          counted :=
            if today = sentOn then Function.update s.counted today (s.counted today + 1) else s.counted }
      | (.error _, _) => some (s.goTo i .ended)
    | _ => none
  | .expire i =>
    match s.calls i with
    | .expiring today =>
      some { s.goTo i .ended with keys := Redis.expire s.now.ms (rateLimitKey today) rateLimitTtl s.keys }
    | _ => none
  | .stop i => some (s.goTo i .ended)

/-- A check that lets its call pass does so on the date of its key, when the requests of the day are
    all counted and no other call is past its check; and a request is sent on that date too. -/
def Orderly (client : GNewsClient) (s : Searches ι) : SearchEvent ι → Prop
  | .get i => ∀ today, s.calls i = .reading today →
      currentUsage s.now.ms today s.keys < client.dailyBudget →
      today = s.now.date ∧ s.counted today = s.sent today ∧ ∀ j d, s.calls j ≠ .allowed d
  | .send i => s.calls i = .allowed s.now.date
  | _ => True

end Searches

/-! ## The counter of a day -/

theorem rateLimitKey_injective {d e : Date} (h : rateLimitKey d = rateLimitKey e) : d = e := by
  refine Date.isoformat_injective (String.toList_injective ?_)
  have hlist := congrArg String.toList h
  unfold rateLimitKey at hlist
  rw [String.toList_append, String.toList_append] at hlist
  exact List.append_cancel_left hlist

/-- The first instant of a date, and that of the next. -/
def startOf (d : Date) : ℤ := d.days * dayMs

def endOf (d : Date) : ℤ := startOf d + dayMs

theorem UtcNow.startOf_le (t : UtcNow) : startOf t.date ≤ t.ms := by
  have := t.timeOfDay_nonneg
  unfold startOf UtcNow.ms
  omega

theorem UtcNow.lt_endOf (t : UtcNow) : t.ms < endOf t.date := by
  have := t.timeOfDay_lt
  unfold endOf startOf UtcNow.ms
  omega

/-- A key whose time to live begins on its date outlives it. -/
theorem endOf_le_deadline {d : Date} {now : ℤ} (h : startOf d ≤ now) :
    endOf d ≤ now + rateLimitTtl * 1000 := by
  unfold endOf dayMs rateLimitTtl
  omega

namespace Searches

variable {ι : Type} [DecidableEq ι] {client : GNewsClient} {s t : Searches ι}

/-- The key of a date says at least how many of its requests were counted, and is there until the
    date ends. -/
def Counts (s : Searches ι) (d : Date) : Prop :=
  (s.keys (rateLimitKey d) = none ∧ s.counted d = 0) ∨
    ∃ n deadline, s.keys (rateLimitKey d) = some ⟨.integer n, deadline⟩ ∧ (s.counted d : ℤ) ≤ n ∧
      ∀ t ∈ deadline, endOf d ≤ t

/-- What holds of the keys in every state. -/
structure Kept (s : Searches ι) : Prop where
  counts : ∀ d, s.now.ms < endOf d → s.Counts d
  counting : ∀ i today d, s.calls i = .counting today d → startOf today ≤ s.now.ms
  expiring : ∀ i today, s.calls i = .expiring today → startOf today ≤ s.now.ms

omit [DecidableEq ι] in
/-- While the date lasts, its key is found as it is stored. -/
theorem Counts.find {d : Date} (h : s.Counts d) (hd : s.now.ms < endOf d) :
    (Redis.find s.now.ms (rateLimitKey d) s.keys = none ∧ s.counted d = 0) ∨
      ∃ n deadline, Redis.find s.now.ms (rateLimitKey d) s.keys = some ⟨.integer n, deadline⟩ ∧
        (s.counted d : ℤ) ≤ n ∧ ∀ t ∈ deadline, endOf d ≤ t := by
  obtain ⟨hkey, hzero⟩ | ⟨n, deadline, hkey, hn, hdeadline⟩ := h
  · exact .inl ⟨Redis.find_of_none hkey, hzero⟩
  · exact .inr ⟨n, deadline, Redis.find_eq_some_iff.mpr ⟨hkey, fun t ht => hd.trans_le (hdeadline t ht)⟩,
      hn, hdeadline⟩

omit [DecidableEq ι] in
theorem Counts.counted_le_usage {d : Date} (h : s.Counts d) (hd : s.now.ms < endOf d) :
    (s.counted d : ℤ) ≤ currentUsage s.now.ms d s.keys := by
  unfold currentUsage
  obtain ⟨hfind, hzero⟩ | ⟨n, deadline, hfind, hn, -⟩ := h.find hd
  · simp [hfind, hzero]
  · simpa [hfind, usageOf] using hn

omit [DecidableEq ι] in
theorem Counts.congr {d : Date} (h : s.Counts d) (hkeys : t.keys (rateLimitKey d) = s.keys (rateLimitKey d))
    (hcounted : t.counted d = s.counted d) : t.Counts d := by
  unfold Counts
  rw [hkeys, hcounted]
  exact h

@[simp] theorem goTo_calls_self (i : ι) (c : SearchCall) : (s.goTo i c).calls i = c :=
  Function.update_self ..

theorem goTo_calls_of_ne {i j : ι} (h : j ≠ i) (c : SearchCall) : (s.goTo i c).calls j = s.calls j :=
  Function.update_of_ne h ..

/-- Where the calls are after one of them has gone on. -/
theorem calls_goTo {i j : ι} {c d : SearchCall} (h : (s.goTo i c).calls j = d) :
    (j = i ∧ c = d) ∨ s.calls j = d := by
  by_cases hj : j = i
  · subst hj
    exact .inl ⟨rfl, by rwa [goTo_calls_self] at h⟩
  · exact .inr (by rwa [goTo_calls_of_ne hj] at h)

/-- A step that leaves the clock and the counters alone. -/
theorem Kept.goTo (h : s.Kept) {i : ι} {c : SearchCall}
    (hc : ∀ today d, c = .counting today d → startOf today ≤ s.now.ms)
    (he : ∀ today, c = .expiring today → startOf today ≤ s.now.ms) : (s.goTo i c).Kept where
  counts := h.counts
  counting := by
    intro j today d hj
    obtain ⟨-, hcj⟩ | hj := calls_goTo hj
    · exact hc today d hcj
    · exact h.counting j today d hj
  expiring := by
    intro j today hj
    obtain ⟨-, hcj⟩ | hj := calls_goTo hj
    · exact he today hcj
    · exact h.expiring j today hj

/-- `INCR` of the key of `today` for a request of `sentOn`, at a time of that day or later. -/
theorem Kept.incr (h : s.Kept) {i : ι} {today sentOn : Date} (hi : s.calls i = .counting today sentOn)
    {count : ℤ} {keys : Redis.Keys} (hincr : Redis.incr s.now.ms (rateLimitKey today) s.keys = (.ok count, keys)) :
    Kept { s.goTo i (if count = 1 then .expiring today else .ended) with
      keys := keys
      counted :=
        if today = sentOn then Function.update s.counted today (s.counted today + 1) else s.counted } := by
  have hgo : (s.goTo i (if count = 1 then .expiring today else .ended)).Kept := by
    refine h.goTo (fun d e hc => ?_) fun d hc => ?_
    · split at hc <;> cases hc
    · split at hc
      · cases hc
        exact h.counting i today sentOn hi
      · cases hc
  refine ⟨fun d hd => ?_, hgo.counting, hgo.expiring⟩
  have hle :
      ((if today = sentOn then Function.update s.counted today (s.counted today + 1) else s.counted) today : ℤ) ≤
        s.counted today + 1 := by
    split_ifs <;> simp
  by_cases hkey : d = today
  · subst hkey
    -- the key is found, so `INCR` adds one to it and leaves its deadline
    obtain ⟨hfind, hzero⟩ | ⟨n, deadline, hfind, hn, hdeadline⟩ := (h.counts d hd).find hd
    · rw [Redis.incr_of_gone hfind] at hincr
      cases hincr
      refine .inr ⟨1, none, by simp, ?_, by simp⟩
      show ((if d = sentOn then Function.update s.counted d (s.counted d + 1) else s.counted) d : ℤ) ≤ 1
      omega
    · rw [Redis.incr_of_integer hfind] at hincr
      cases hincr
      refine .inr ⟨n + 1, deadline, by simp, ?_, hdeadline⟩
      show ((if d = sentOn then Function.update s.counted d (s.counted d + 1) else s.counted) d : ℤ) ≤ n + 1
      omega
  · refine (h.counts d hd).congr ?_ ?_
    · have hne : rateLimitKey d ≠ rateLimitKey today := fun he => hkey (rateLimitKey_injective he)
      have hkeys := @Redis.incr_of_ne s.now.ms _ _ s.keys hne
      rwa [hincr] at hkeys
    · dsimp only
      split_ifs
      · exact Function.update_of_ne hkey ..
      · rfl

/-- `EXPIRE` of the key of `today`, at a time of that day or later. -/
theorem Kept.expire (h : s.Kept) {i : ι} {today : Date} (hi : s.calls i = .expiring today) :
    Kept { s.goTo i .ended with
      keys := Redis.expire s.now.ms (rateLimitKey today) rateLimitTtl s.keys } := by
  have hgo : (s.goTo i .ended).Kept := h.goTo nofun nofun
  refine ⟨fun d hd => ?_, hgo.counting, hgo.expiring⟩
  by_cases hkey : d = today
  · subst hkey
    obtain ⟨hfind, hzero⟩ | ⟨n, deadline, hfind, hn, hdeadline⟩ := (h.counts d hd).find hd
    · refine (h.counts d hd).congr ?_ rfl
      show Redis.expire s.now.ms (rateLimitKey d) rateLimitTtl s.keys (rateLimitKey d) = _
      unfold Redis.expire
      rw [hfind]
    · refine .inr ⟨n, _, Redis.expire_of_find hfind (by decide), hn, fun t ht => ?_⟩
      cases ht
      exact endOf_le_deadline (h.expiring i d hi)
  · refine (h.counts d hd).congr ?_ rfl
    exact Redis.expire_of_ne (fun he => hkey (rateLimitKey_injective he)) _

theorem Kept.step (h : s.Kept) {a : SearchEvent ι} (hstep : s.step client a = some t) : t.Kept := by
  cases a with
  | tick now =>
    obtain ⟨hle, hs⟩ := Option.ite_none_right_eq_some.mp hstep
    cases hs
    exact
      { counts := fun d hd => h.counts d (hle.trans_lt hd)
        counting := fun i today d hi => (h.counting i today d hi).trans hle
        expiring := fun i today hi => (h.expiring i today hi).trans hle }
  | start i =>
    simp only [Searches.step] at hstep
    split at hstep
    · cases hstep
      split_ifs <;> exact h.goTo nofun nofun
    · cases hstep
  | get i =>
    simp only [Searches.step] at hstep
    split at hstep
    · cases hstep
      split_ifs <;> exact h.goTo nofun nofun
    · cases hstep
  | send i =>
    simp only [Searches.step] at hstep
    split at hstep
    · cases hstep
      have hgo : (s.goTo i (.waiting s.now.date)).Kept := h.goTo nofun nofun
      exact ⟨hgo.counts, hgo.counting, hgo.expiring⟩
    · cases hstep
  | answer i =>
    simp only [Searches.step] at hstep
    split at hstep
    · cases hstep
      refine h.goTo (fun today d hc => ?_) nofun
      cases hc
      exact s.now.startOf_le
    · cases hstep
  | incr i =>
    simp only [Searches.step] at hstep
    split at hstep
    · rename_i today sentOn hi
      split at hstep
      · rename_i count keys hincr
        cases hstep
        exact h.incr hi hincr
      · cases hstep
        exact h.goTo nofun nofun
    · cases hstep
  | expire i =>
    simp only [Searches.step] at hstep
    split at hstep
    · rename_i today hi
      cases hstep
      exact h.expire hi
    · cases hstep
  | stop i =>
    cases hstep
    exact h.goTo nofun nofun

/-! ## The budget -/

/-- What holds while the steps are orderly: one call at most is past its check, and for it there is room. -/
structure Within (client : GNewsClient) (s : Searches ι) : Prop where
  kept : s.Kept
  alone : ∀ i j d e, s.calls i = .allowed d → s.calls j = .allowed e → i = j
  room : ∀ i d, s.calls i = .allowed d → (s.sent d : ℤ) < client.dailyBudget
  sent_le : ∀ d, (s.sent d : ℤ) ≤ max client.dailyBudget 0

omit [DecidableEq ι] in
theorem initial_within (client : GNewsClient) (now : UtcNow) :
    (initial now : Searches ι).Within client where
  kept := ⟨fun _ _ => .inl ⟨rfl, rfl⟩, nofun, nofun⟩
  alone := nofun
  room := nofun
  sent_le := by simp [initial]

omit [DecidableEq ι] in
/-- A step that sends nothing and lets no call pass its check. -/
theorem Within.of_not_allowed (h : s.Within client) (hkept : t.Kept) (hsent : t.sent = s.sent)
    (hcalls : ∀ i d, t.calls i = .allowed d → s.calls i = .allowed d) : t.Within client where
  kept := hkept
  alone := fun i j d e hi hj => h.alone i j d e (hcalls i d hi) (hcalls j e hj)
  room := fun i d hi => by
    rw [hsent]
    exact h.room i d (hcalls i d hi)
  sent_le := by
    rw [hsent]
    exact h.sent_le

theorem allowed_of_goTo {i j : ι} {c : SearchCall} {d : Date} (hc : ∀ d, c ≠ .allowed d)
    (h : (s.goTo i c).calls j = .allowed d) : s.calls j = .allowed d := by
  obtain ⟨-, hcd⟩ | h := calls_goTo h
  · exact absurd hcd (hc d)
  · exact h

/-- A check that lets its call pass: the key says at least how many requests the day has had. -/
theorem Within.get (h : s.Within client) {i : ι} {today : Date} (hi : s.calls i = .reading today)
    (hstep : s.step client (.get i) = some t) (horderly : s.Orderly client (.get i)) : t.Within client := by
  have hkept := h.kept.step hstep
  simp only [Searches.step, hi] at hstep
  cases hstep
  by_cases hfull : client.dailyBudget ≤ currentUsage s.now.ms today s.keys
  · rw [if_pos hfull] at hkept ⊢
    exact h.of_not_allowed hkept rfl fun j d hj => allowed_of_goTo (by simp) hj
  · rw [if_neg hfull] at hkept ⊢
    obtain ⟨hdate, hcounted, hnone⟩ := horderly today hi (not_le.mp hfull)
    have honly : ∀ j d, (s.goTo i (.allowed today)).calls j = .allowed d → j = i ∧ d = today := by
      intro j d hj
      obtain ⟨hji, hc⟩ | hj := calls_goTo hj
      · cases hc
        exact ⟨hji, rfl⟩
      · exact absurd hj (hnone j d)
    have hroom : (s.sent today : ℤ) < client.dailyBudget := by
      have hlast : s.now.ms < endOf today := hdate ▸ s.now.lt_endOf
      have husage := (h.kept.counts today hlast).counted_le_usage hlast
      omega
    exact
      { kept := hkept
        alone := fun j k d e hj hk => (honly j d hj).1.trans (honly k e hk).1.symm
        room := fun j d hj => by
          rw [(honly j d hj).2]
          exact hroom
        sent_le := h.sent_le }

/-- A request sent on the date of the check. -/
theorem Within.send (h : s.Within client) {i : ι} (hi : s.calls i = .allowed s.now.date)
    (hstep : s.step client (.send i) = some t) : t.Within client := by
  have hkept := h.kept.step hstep
  simp only [Searches.step, hi] at hstep
  cases hstep
  have hnone : ∀ j d, (s.goTo i (.waiting s.now.date)).calls j ≠ .allowed d := by
    intro j d hj
    have hold := allowed_of_goTo (by simp) hj
    rw [h.alone j i d s.now.date hold hi, goTo_calls_self] at hj
    cases hj
  exact
    { kept := hkept
      alone := fun j _ d _ hj => absurd hj (hnone j d)
      room := fun j d hj => absurd hj (hnone j d)
      sent_le := fun d => by
        by_cases hd : d = s.now.date
        · subst hd
          have hroom := h.room i s.now.date hi
          simp only [Function.update_self]
          push_cast
          omega
        · simp only [Function.update_of_ne hd]
          exact h.sent_le d }

theorem Within.step (h : s.Within client) {a : SearchEvent ι} (horderly : s.Orderly client a)
    (hstep : s.step client a = some t) : t.Within client := by
  have hkept := h.kept.step hstep
  cases a with
  | tick now =>
    obtain ⟨-, hs⟩ := Option.ite_none_right_eq_some.mp hstep
    cases hs
    exact h.of_not_allowed hkept rfl fun i d hi => hi
  | start i =>
    simp only [Searches.step] at hstep
    split at hstep
    · cases hstep
      refine h.of_not_allowed hkept rfl fun j d hj => allowed_of_goTo (fun d => ?_) hj
      split_ifs <;> nofun
    · cases hstep
  | get i =>
    cases hi : s.calls i with
    | reading today => exact h.get hi hstep horderly
    | _ => simp [Searches.step, hi] at hstep
  | send i => exact h.send horderly hstep
  | answer i =>
    simp only [Searches.step] at hstep
    split at hstep
    · cases hstep
      exact h.of_not_allowed hkept rfl fun j d hj => allowed_of_goTo (by simp) hj
    · cases hstep
  | incr i =>
    simp only [Searches.step] at hstep
    split at hstep
    · split at hstep
      · cases hstep
        refine h.of_not_allowed hkept rfl fun j d hj => allowed_of_goTo (fun d => ?_) hj
        split_ifs <;> nofun
      · cases hstep
        exact h.of_not_allowed hkept rfl fun j d hj => allowed_of_goTo (by simp) hj
    · cases hstep
  | expire i =>
    simp only [Searches.step] at hstep
    split at hstep
    · cases hstep
      exact h.of_not_allowed hkept rfl fun j d hj => allowed_of_goTo (by simp) hj
    · cases hstep
  | stop i =>
    cases hstep
    exact h.of_not_allowed hkept rfl fun j d hj => allowed_of_goTo (by simp) hj

open Transition

/-- In every orderly run at most `daily_budget` requests are sent on any date. -/
theorem sent_le_budget (client : GNewsClient) (now : UtcNow) {s : Searches ι}
    (h : Run (fun s a t => s.step client a = some t) (Orderly client) (initial now) s) (d : Date) :
    (s.sent d : ℤ) ≤ max client.dailyBudget 0 :=
  (h.invariant (initial_within client now) fun _ _ _ hw ho hs => hw.step ho hs).sent_le d

/-! ### Runs on fixed inputs -/

theorem sampleYear_le : 2026 ≤ 9999 := by omega

theorem sampleMonth_le : 1 ≤ 12 := by omega

theorem sampleDay_le : 5 ≤ 31 := by omega

def sampleDate : Date := ⟨2026, 1, 5, sampleYear_le, sampleMonth_le, sampleDay_le⟩

def sampleNow : UtcNow := ⟨sampleDate, 0, le_rfl, by unfold dayMs; omega⟩

/-- A client that may send one request in a day. -/
def sampleClient : GNewsClient := ⟨some "key", 1⟩

theorem sent_le_budget_sample :
    ∃ s : Searches (Fin 2), s.sent sampleDate = 1 ∧
      (s.sent sampleDate : ℤ) ≤ max sampleClient.dailyBudget 0 := by
  have hread : Orderly sampleClient
      ((initial sampleNow : Searches (Fin 2)).goTo 0 (.reading sampleDate)) (.get 0) := by
    intro today hi _
    cases hi
    refine ⟨rfl, rfl, fun j d hj => ?_⟩
    fin_cases j <;> cases hj
  have hstart : step sampleClient (initial sampleNow : Searches (Fin 2)) (.start 0) =
      some ((initial sampleNow).goTo 0 (.reading sampleDate)) := by
    simp [step, initial, sampleClient, sampleNow]
  exact ⟨_, rfl, sent_le_budget sampleClient sampleNow
    (.tail (.send 0) (.tail (.get 0) (.tail (.start 0) .refl trivial hstart) hread rfl) rfl rfl) sampleDate⟩

/-- Two calls read the counter before either has sent: both send, and the budget is one. -/
theorem two_calls_overspend :
    ∃ s : Searches (Fin 2),
      Run (fun s a t => step sampleClient s a = some t) Unconditional (initial sampleNow) s ∧
      max sampleClient.dailyBudget 0 < s.sent sampleDate := by
  have h : (([.start 0, .start 1, .get 0, .get 1, .send 0, .send 1] : List (SearchEvent (Fin 2))).foldlM
      (step sampleClient) (initial sampleNow)).map (fun s => s.sent sampleDate) = some 2 := by
    decide +kernel
  obtain ⟨s, hs, hsent⟩ := Option.map_eq_some_iff.mp h
  exact ⟨s, .of_foldlM _ hs, by rw [hsent]; decide⟩

end Searches

end Nivara.MarketData
