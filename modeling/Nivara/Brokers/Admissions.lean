import Nivara.Brokers.RateLimiter
import Nivara.Lib.Transition
import Nivara.Lib.Window

/-!
# Admissions of the rate limiter

A call adds its timestamp when the number of entries it has counted is below the
maximum. Between its reading of the clock and the count another call may trim with a
later reading, and between the count and the addition another call may add: then the
count is not what the set holds.

Results:

* `admissions_of_run`: in every interleaving in which no count is outdated, every window
  has at most the maximum of the recorded timestamps.
* `two_callers_see_the_same_count`: two calls that count before either adds.
-/

namespace Nivara.Brokers

open SortedSet Transition Window

variable {ι : Type}

/-! ## What is to hold -/

/-- The recorded timestamps. -/
def LimiterState.times (s : LimiterState ι) : List ℚ := s.recorded.map fun e => e.2

/-- Every half-open interval of `window_seconds` has at most `max_requests` admissions. -/
def LimiterState.RateLimited (limiter : GlobalRateLimiter) (s : LimiterState ι) : Prop :=
  AtMost limiter.maxRequests limiter.window s.times

/-! ## The condition -/

/-- No call that has read the clock and not counted yet has read it less than a window
    from the entry's timestamp. -/
def LimiterState.Uncounted (limiter : GlobalRateLimiter) (s : LimiterState ι) (e : ι × ℤ) : Prop :=
  ∀ j, ∀ now ∈ (s.calls j).counting, limiter.window ≤ |(e.2 - now : ℚ)|

/-- The condition on the next step of a call: what it removes is not to be counted by any
    call, and while it adds no other call is about to add for the same window. -/
def LimiterState.CountHolds (limiter : GlobalRateLimiter) (s : LimiterState ι) (i : ι) : Call → Prop
  | .trim now => ∀ e ∈ s.entries, 0 ≤ e.2 → e.2 ≤ now - limiter.windowMs → s.Uncounted limiter e
  | .zadd now => ∀ j, j ≠ i → ∀ now' ∈ (s.calls j).adding, limiter.window ≤ |(now - now' : ℚ)|
  | _ => True

/-- The condition on a step: also the key does not run out with entries to be counted. -/
def LimiterState.CountsHold (limiter : GlobalRateLimiter) (s : LimiterState ι) : Label ι → Prop
  | .advance i _ => s.CountHolds limiter i (s.calls i)
  | .tick ms =>
    s.Expires ms → ∀ e ∈ s.entries, e.2 + limiter.window ≤ s.clock + ms ∧ s.Uncounted limiter e

/-! ## The invariant -/

/-- The recorded admissions that are less than a window from `now` are in the set. -/
def LimiterState.Covered (limiter : GlobalRateLimiter) (s : LimiterState ι) (now : ℤ) : Prop :=
  ∀ e ∈ s.recorded, |(e.2 - now : ℚ)| < limiter.window → e ∈ s.entries

/-- What a call in progress knows. -/
def LimiterState.CallOk (limiter : GlobalRateLimiter) (s : LimiterState ι) : Call → Prop
  | .trim now => now ≤ s.clock ∧ s.Covered limiter now
  | .zcard now => now ≤ s.clock ∧ s.Covered limiter now
  | .zadd now => now ≤ s.clock ∧ near limiter.window (now : ℚ) s.times < limiter.maxRequests
  | _ => True

structure LimiterState.Inv (limiter : GlobalRateLimiter) (s : LimiterState ι) : Prop where
  nodup : s.recorded.Nodup
  added : ∀ e ∈ s.recorded, (s.calls e.1).added
  past : ∀ e ∈ s.recorded, e.2 ≤ s.clock
  /-- The admissions of the last window are in the set. -/
  live : ∀ e ∈ s.recorded, (s.clock - limiter.window : ℚ) < e.2 → e ∈ s.entries
  calls : ∀ i, s.CallOk limiter (s.calls i)
  rateLimited : s.RateLimited limiter

variable {limiter : GlobalRateLimiter} {s t : LimiterState ι}

theorem GlobalRateLimiter.window_pos (limiter : GlobalRateLimiter) : 0 < limiter.window :=
  mul_pos limiter.windowSeconds_pos (by norm_num)

theorem GlobalRateLimiter.windowMs_nonneg (limiter : GlobalRateLimiter) : 0 ≤ limiter.windowMs :=
  Int.floor_nonneg.mpr limiter.window_pos.le

/-- Entries that are dropped and time that passes, when what is dropped is a window old
    and not to be counted by any call. -/
theorem LimiterState.Inv.drop (h : s.Inv limiter) (entries : Entries ι ℤ) (deadline : Option ℤ)
    {clock : ℤ} (hclock : s.clock ≤ clock)
    (hkeep : ∀ e ∈ s.entries, e ∈ entries ∨ (e.2 + limiter.window ≤ clock ∧ s.Uncounted limiter e)) :
    LimiterState.Inv limiter { s with clock := clock, entries := entries, deadline := deadline } where
  nodup := h.nodup
  added := h.added
  past e he := (h.past e he).trans hclock
  live := by
    intro e he hlive
    have hclock' : (s.clock : ℚ) ≤ clock := by exact_mod_cast hclock
    have hlive' : (clock : ℚ) - limiter.window < e.2 := hlive
    rcases hkeep e (h.live e he (by linarith)) with hmem | ⟨hold, -⟩
    · exact hmem
    · linarith
  calls := by
    have hcovered : ∀ j now, (s.calls j).counting = some now → s.Covered limiter now →
        ∀ e ∈ s.recorded, |(e.2 - now : ℚ)| < limiter.window → e ∈ entries := by
      intro j now hj hcov e he hnear
      rcases hkeep e (hcov e he hnear) with hmem | ⟨-, hfar⟩
      · exact hmem
      · exact absurd hnear (not_lt.mpr (hfar j now hj))
    intro j
    have hok := h.calls j
    cases hj : s.calls j with
    | trim now =>
      rw [hj] at hok
      exact ⟨hok.1.trans hclock, hcovered j now (by rw [hj]; rfl) hok.2⟩
    | zcard now =>
      rw [hj] at hok
      exact ⟨hok.1.trans hclock, hcovered j now (by rw [hj]; rfl) hok.2⟩
    | zadd now =>
      rw [hj] at hok
      exact ⟨hok.1.trans hclock, hok.2⟩
    | _ => trivial
  rateLimited := h.rateLimited

/-- How many recorded admissions are near to a time that is covered. -/
theorem LimiterState.Inv.near_le_zcard (h : s.Inv limiter) {now : ℤ} (hcov : s.Covered limiter now) :
    near limiter.window (now : ℚ) s.times ≤ s.entries.zcard := by
  have hsub : s.recorded.filter (fun e => |(e.2 - now : ℚ)| < limiter.window) ⊆ s.entries := by
    intro e he
    obtain ⟨hmem, hnear⟩ := List.mem_filter.mp he
    exact hcov e hmem (of_decide_eq_true hnear)
  calc near limiter.window (now : ℚ) s.times
      = (s.recorded.filter fun e => |(e.2 - now : ℚ)| < limiter.window).length := by
        unfold near LimiterState.times
        rw [List.countP_map, List.countP_eq_length_filter]
        rfl
    _ ≤ s.entries.length := ((h.nodup.filter _).subperm hsub).length_le

variable [DecidableEq ι]

/-- A call goes on and nothing else changes. -/
theorem LimiterState.Inv.goto (h : s.Inv limiter) {i : ι} {c : Call}
    (hadded : (s.calls i).added → c.added) (hc : s.CallOk limiter c) : (s.goto i c).Inv limiter where
  nodup := h.nodup
  added := by
    intro e he
    by_cases hi : e.1 = i
    · rw [hi, goto_calls_self]
      exact hadded (hi ▸ h.added e he)
    · rw [goto_calls_of_ne s c hi]
      exact h.added e he
  past := h.past
  live := h.live
  calls := by
    intro j
    by_cases hj : j = i
    · rw [hj, goto_calls_self]
      exact hc
    · rw [goto_calls_of_ne s c hj]
      exact h.calls j
  rateLimited := h.rateLimited

/-- A call adds its timestamp. -/
theorem LimiterState.Inv.record (h : s.Inv limiter) {i : ι} {now : ℤ} (hi : s.calls i = .zadd now)
    (hothers : ∀ j, j ≠ i → ∀ now' ∈ (s.calls j).adding, limiter.window ≤ |(now - now' : ℚ)|) :
    (LimiterState.goto { s with
      entries := s.entries.zadd i now
      recorded := (i, now) :: s.recorded } i .expire).Inv limiter := by
  have hok := h.calls i
  rw [hi] at hok
  obtain ⟨hpast, hnear⟩ := hok
  have hne : ∀ e ∈ s.recorded, e.1 ≠ i := by
    intro e he heq
    have hadded := h.added e he
    rw [heq, hi] at hadded
    cases hadded
  have hself : (i, now) ∈ s.entries.zadd i now := List.mem_cons_self
  have hkeep : ∀ e ∈ s.recorded, e ∈ s.entries → e ∈ s.entries.zadd i now :=
    fun e he hmem => Entries.mem_zadd_of_ne now hmem (hne e he)
  have hcovered : ∀ now', s.Covered limiter now' →
      ∀ e ∈ (i, now) :: s.recorded, |(e.2 - now' : ℚ)| < limiter.window → e ∈ s.entries.zadd i now := by
    intro now' hcov e he hlt
    rcases List.mem_cons.mp he with rfl | he
    · exact hself
    · exact hkeep e he (hcov e he hlt)
  constructor
  · exact List.nodup_cons.mpr ⟨fun hmem => hne _ hmem rfl, h.nodup⟩
  · intro e he
    by_cases hei : e.1 = i
    · rw [hei, goto_calls_self]
      rfl
    · rw [goto_calls_of_ne _ _ hei]
      rcases List.mem_cons.mp he with rfl | he
      · exact absurd rfl hei
      · exact h.added e he
  · intro e he
    rcases List.mem_cons.mp he with rfl | he
    · exact hpast
    · exact h.past e he
  · intro e he hlive
    rcases List.mem_cons.mp he with rfl | he
    · exact hself
    · exact hkeep e he (h.live e he hlive)
  · intro j
    by_cases hj : j = i
    · rw [hj, goto_calls_self]
      trivial
    · rw [goto_calls_of_ne _ _ hj]
      have hok := h.calls j
      show LimiterState.CallOk limiter _ (s.calls j)
      cases hcall : s.calls j with
      | trim now' =>
        rw [hcall] at hok
        exact ⟨hok.1, hcovered now' hok.2⟩
      | zcard now' =>
        rw [hcall] at hok
        exact ⟨hok.1, hcovered now' hok.2⟩
      | zadd now' =>
        rw [hcall] at hok
        have hfar : ¬ |(now - now' : ℚ)| < limiter.window :=
          not_lt.mpr (hothers j hj now' (by rw [hcall]; rfl))
        refine ⟨hok.1, ?_⟩
        show ((now : ℚ) :: s.times).countP _ < _
        rw [List.countP_cons_of_neg (by rw [decide_eq_true_iff]; exact hfar)]
        exact hok.2
      | _ => trivial
  · exact h.rateLimited.cons hnear

/-- A trim removes what is a window behind its own reading as well. -/
theorem LimiterState.Inv.trim (h : s.Inv limiter) {i : ι} {now : ℤ} (hi : s.calls i = .trim now)
    (huncounted : ∀ e ∈ s.entries, 0 ≤ e.2 → e.2 ≤ now - limiter.windowMs → s.Uncounted limiter e) :
    (LimiterState.goto { s with
      entries := s.entries.removeByScore 0 (now - limiter.windowMs)
      deadline :=
        if (s.entries.removeByScore 0 (now - limiter.windowMs)).isEmpty then none else s.deadline }
      i (.zcard now)).Inv limiter := by
  have hpast : now ≤ s.clock := by
    have hok := h.calls i
    rw [hi] at hok
    exact hok.1
  have hcounting : now ∈ (s.calls i).counting := by rw [hi]; rfl
  have hkeep : ∀ e ∈ s.entries, e ∈ s.entries.removeByScore 0 (now - limiter.windowMs) ∨
      (e.2 + limiter.window ≤ s.clock ∧ s.Uncounted limiter e) := by
    intro e he
    by_cases hold : 0 ≤ e.2 ∧ e.2 ≤ now - limiter.windowMs
    · have hun := huncounted e he hold.1 hold.2
      have hfar := hun i now hcounting
      have hle : e.2 ≤ now := by linarith [hold.2, limiter.windowMs_nonneg]
      have hle' : (e.2 : ℚ) ≤ now := by exact_mod_cast hle
      have hpast' : (now : ℚ) ≤ s.clock := by exact_mod_cast hpast
      rw [abs_sub_comm, abs_of_nonneg (by linarith)] at hfar
      exact .inr ⟨by linarith, hun⟩
    · exact .inl (Entries.mem_removeByScore.mpr ⟨he, hold⟩)
  have hdrop := h.drop (s.entries.removeByScore 0 (now - limiter.windowMs))
    (if (s.entries.removeByScore 0 (now - limiter.windowMs)).isEmpty then none else s.deadline)
    (le_refl _) hkeep
  have hcall := hdrop.calls i
  simp only [hi] at hcall
  exact hdrop.goto (by simp only [hi]; exact id) hcall

/-! ## One step -/

/-- The next step of a call keeps the invariant. -/
theorem LimiterState.Inv.advance (h : s.Inv limiter) {i : ι} {elapsed : ℚ}
    (hcond : s.CountsHold limiter (.advance i elapsed))
    (hstep : s.advance limiter i elapsed (s.calls i) = some t) : t.Inv limiter := by
  have hok := h.calls i
  unfold LimiterState.CountsHold LimiterState.CountHolds at hcond
  unfold LimiterState.advance at hstep
  cases hcall : s.calls i with
  | read =>
    rw [hcall] at hstep
    cases hstep
    refine h.goto (by rw [hcall]; exact id) ⟨le_refl _, fun e he hnear => h.live e he ?_⟩
    linarith [(abs_lt.mp hnear).1]
  | trim now =>
    simp only [hcall] at hstep hcond
    cases hstep
    exact h.trim hcall hcond
  | zcard now =>
    simp only [hcall] at hstep hok
    cases hstep
    refine h.goto (by rw [hcall]; exact fun hf => absurd hf Bool.false_ne_true) ?_
    split_ifs with hcount
    · exact ⟨hok.1, (h.near_le_zcard hok.2).trans_lt hcount⟩
    · trivial
  | zadd now =>
    simp only [hcall] at hstep hcond
    cases hstep
    exact h.record hcall hcond
  | expire =>
    simp only [hcall] at hstep
    cases hstep
    exact (h.drop s.entries _ (le_refl _) fun e he => .inl he).goto (fun _ => rfl) trivial
  | zrange now =>
    simp only [hcall] at hstep
    have hadded : ∀ c : Call, (s.calls i).added → c.added := by
      rw [hcall]
      exact fun c hf => absurd hf Bool.false_ne_true
    cases hold : s.entries.oldestScore with
    | none =>
      simp only [hold] at hstep
      cases hstep
      exact h.goto (hadded _) trivial
    | some oldestScore =>
      simp only [hold] at hstep
      split_ifs at hstep <;> cases hstep <;> exact h.goto (hadded _) trivial
  | sleep =>
    simp only [hcall] at hstep
    cases hstep
    exact h.goto (by rw [hcall]; exact id) trivial
  | returned =>
    simp only [hcall] at hstep
    cases hstep
  | failed e =>
    simp only [hcall] at hstep
    cases hstep

/-- One step of the system keeps the invariant. -/
theorem LimiterState.Inv.step (h : s.Inv limiter) {l : Label ι} (hcond : s.CountsHold limiter l)
    (hstep : s.step limiter l = some t) : t.Inv limiter := by
  cases l with
  | advance i elapsed => exact h.advance hcond hstep
  | tick ms =>
    have hclock : s.clock ≤ s.clock + ms := by omega
    unfold LimiterState.step at hstep
    simp only at hstep
    split_ifs at hstep with hexp <;> cases hstep
    · refine h.drop [] none hclock fun e he => .inr ?_
      have hold := hcond hexp e he
      push_cast
      exact hold
    · exact h.drop s.entries s.deadline hclock fun e he => .inl he

/-! ## Runs -/

omit [DecidableEq ι] in
theorem initial_inv (clock : ℤ) : (initial clock : LimiterState ι).Inv limiter where
  nodup := List.nodup_nil
  added := by intro e he; cases he
  past := by intro e he; cases he
  live := by intro e he; cases he
  calls := fun _ => trivial
  rateLimited := atMost_nil

/-- In every interleaving of `acquire` calls in which a trim removes nothing that a call
    which has read the clock is still to count, and no two calls that are about to add
    have read the clock within one window: every window has at most the maximum of
    the recorded timestamps. -/
theorem admissions_of_run (limiter : GlobalRateLimiter) (clock : ℤ) (s : LimiterState ι)
    (hrun : Run (fun s l t => s.step limiter l = some t) (fun s l => s.CountsHold limiter l)
      (initial clock) s) : s.RateLimited limiter :=
  (hrun.invariant (initial_inv clock) fun _ _ _ h hcond hstep => h.step hcond hstep).rateLimited

/-! ## Two calls -/

section

variable [Fintype ι]

instance (e : ι × ℤ) : Decidable (s.Uncounted limiter e) :=
  inferInstanceAs (Decidable (∀ j, ∀ now ∈ (s.calls j).counting, _))

instance (i : ι) : (c : Call) → Decidable (s.CountHolds limiter i c)
  | .trim now => inferInstanceAs (Decidable (∀ e ∈ s.entries, 0 ≤ e.2 → e.2 ≤ now - limiter.windowMs → _))
  | .zadd _ => inferInstanceAs (Decidable (∀ j, j ≠ i → ∀ now' ∈ (s.calls j).adding, _))
  | .read | .zcard _ | .expire | .zrange _ | .sleep | .returned | .failed _ => isTrue trivial

instance : (l : Label ι) → Decidable (s.CountsHold limiter l)
  | .advance i _ => inferInstanceAs (Decidable (s.CountHolds limiter i (s.calls i)))
  | .tick ms => inferInstanceAs (Decidable (s.Expires ms → ∀ e ∈ s.entries, _))

end

/-- One request a second. -/
def sampleLimiter : GlobalRateLimiter := ⟨1, 1, 30, by decide, by decide, by decide⟩

/-- One call after the other, the second a second later. -/
def callsInTurn : List (Label (Fin 2)) :=
  List.replicate 5 (.advance 0 0) ++ .tick 1000 :: List.replicate 5 (.advance 1 0)

/-- Both calls count before either adds. -/
def callsCrossed : List (Label (Fin 2)) :=
  List.replicate 3 (.advance 0 0) ++ List.replicate 3 (.advance 1 0) ++ [.advance 0 0, .advance 1 0]

theorem admissions_of_run_sample :
    ∃ s, callsInTurn.foldlM (fun (s : LimiterState (Fin 2)) l =>
        if s.CountsHold sampleLimiter l then s.step sampleLimiter l else none) (initial 0) = some s ∧
      s.RateLimited sampleLimiter := by
  obtain ⟨s, hs⟩ := Option.isSome_iff_exists.mp (show (callsInTurn.foldlM (fun (s : LimiterState (Fin 2)) l =>
    if s.CountsHold sampleLimiter l then s.step sampleLimiter l else none) (initial 0)).isSome by
      decide +kernel)
  exact ⟨s, hs, admissions_of_run sampleLimiter 0 s (Run.of_foldlM_guarded _ hs)⟩

/-- Two admissions in the same millisecond. -/
theorem two_callers_see_the_same_count :
    ¬ ∀ s : LimiterState (Fin 2), Run (fun s l t => s.step sampleLimiter l = some t) Unconditional
        (initial 0) s → s.RateLimited sampleLimiter := by
  intro h
  have hrun : (callsCrossed.foldlM (fun (s : LimiterState (Fin 2)) l => s.step sampleLimiter l)
      (initial 0)).map (fun s => s.times) = some [0, 0] := by decide +kernel
  obtain ⟨s, hs, htimes⟩ := Option.map_eq_some_iff.mp hrun
  have hcount := (h s (Run.of_foldlM _ hs) 0).1
  rw [htimes] at hcount
  revert hcount
  decide +kernel

end Nivara.Brokers
