import Mathlib

/-!
# Loops that wait

A loop whose rounds end it, sleep, or go round again at once. The rounds are a stream, as
what a round does depends on what it finds. The loop runs for at most `n` rounds.

* `Timed`: a clock that never goes back, and a sleep that lasts at least as long as
  requested.
* `Capped`: a sleep is at least the floor long and ends, as planned, before the cap.

Results:

* `loop_eq_some`: the result is that of the first round that ends the loop.
* `loop_sum_le`: the sleeps requested come to at most the cap.
* `loop_ends`: when a loop has not ended, each round but `⌊cap / floor⌋` has gone round
  again at once.
-/

namespace Nivara.Retry

variable {K α : Type*}

/-- What one round of the loop does. -/
inductive Round (K α : Type*)
  | done (a : α)
  | sleep (s : K)
  /-- The next round follows at once. -/
  | again

/-- The sleeps that the first rounds request, and the result if one of them ends the loop. -/
def loop (round : ℕ → Round K α) : ℕ → List K × Option α
  | 0 => ([], none)
  | n + 1 =>
    match round 0 with
    | .done a => ([], some a)
    | .sleep s =>
      let rest := loop (fun k => round (k + 1)) n
      (s :: rest.1, rest.2)
    | .again => loop (fun k => round (k + 1)) n

/-! ## The result -/

section Result

variable {round : ℕ → Round K α} {n : ℕ} {a : α}

theorem loop_of_done (h : round 0 = .done a) : loop round (n + 1) = ([], some a) := by
  rw [loop, h]

theorem loop_of_sleep {s : K} (h : round 0 = .sleep s) : loop round (n + 1) =
    (s :: (loop (fun k => round (k + 1)) n).1, (loop (fun k => round (k + 1)) n).2) := by
  rw [loop, h]

theorem loop_of_again (h : round 0 = .again) :
    loop round (n + 1) = loop (fun k => round (k + 1)) n := by
  rw [loop, h]

/-- Round `k` is the first that ends the loop, and ends it with `a`. -/
def EndsAt (round : ℕ → Round K α) (k : ℕ) (a : α) : Prop :=
  round k = .done a ∧ ∀ j < k, ∀ b, round j ≠ .done b

theorem endsAt_zero : EndsAt round 0 a ↔ round 0 = .done a :=
  ⟨fun h => h.1, fun h => ⟨h, fun j hj => absurd hj (Nat.not_lt_zero j)⟩⟩

theorem endsAt_succ {k : ℕ} : EndsAt round (k + 1) a ↔
    (∀ b, round 0 ≠ .done b) ∧ EndsAt (fun k => round (k + 1)) k a := by
  constructor
  · rintro ⟨h, hfirst⟩
    exact ⟨hfirst 0 (Nat.succ_pos k), h, fun j hj => hfirst (j + 1) (Nat.succ_lt_succ hj)⟩
  · rintro ⟨hzero, h, hfirst⟩
    refine ⟨h, fun j hj => ?_⟩
    cases j with
    | zero => exact hzero
    | succ j => exact hfirst j (Nat.lt_of_succ_lt_succ hj)

/-- The loop ends within one more round when it ends in the first, or in the rest. -/
theorem exists_endsAt_succ : (∃ k < n + 1, EndsAt round k a) ↔
    round 0 = .done a ∨
      (∀ b, round 0 ≠ .done b) ∧ ∃ k < n, EndsAt (fun k => round (k + 1)) k a := by
  constructor
  · rintro ⟨k, hk, h⟩
    cases k with
    | zero => exact .inl (endsAt_zero.mp h)
    | succ k => exact .inr ⟨(endsAt_succ.mp h).1, k, Nat.lt_of_succ_lt_succ hk, (endsAt_succ.mp h).2⟩
  · rintro (h | ⟨hzero, k, hk, h⟩)
    · exact ⟨0, Nat.succ_pos n, endsAt_zero.mpr h⟩
    · exact ⟨k + 1, Nat.succ_lt_succ hk, endsAt_succ.mpr ⟨hzero, h⟩⟩

theorem loop_eq_some : (loop round n).2 = some a ↔ ∃ k < n, EndsAt round k a := by
  induction n generalizing round with
  | zero =>
    constructor
    · intro h
      cases h
    · rintro ⟨k, hk, -⟩
      exact absurd hk (Nat.not_lt_zero k)
  | succ n ih =>
    rw [exists_endsAt_succ, ← ih]
    cases h : round 0 with
    | done b =>
      rw [loop_of_done h]
      simp
    | sleep s =>
      rw [loop_of_sleep h]
      simp
    | again =>
      rw [loop_of_again h]
      simp

variable (again : ℕ → Prop) [DecidablePred again]

/-- A loop that has not ended has slept in each round that has not gone round again. -/
theorem loop_length_add (hagain : ∀ k, round k = .again → again k) {n : ℕ}
    (h : (loop round n).2 = none) : n ≤ (loop round n).1.length + Nat.count again n := by
  induction n generalizing round again with
  | zero => exact Nat.zero_le _
  | succ n ih =>
    rw [Nat.count_succ']
    cases hround : round 0 with
    | done a =>
      rw [loop_of_done hround] at h
      cases h
    | sleep s =>
      rw [loop_of_sleep hround] at h ⊢
      have hrest := ih (fun k => again (k + 1)) (fun k => hagain (k + 1)) h
      rw [List.length_cons]
      omega
    | again =>
      rw [loop_of_again hround] at h ⊢
      have hrest := ih (fun k => again (k + 1)) (fun k => hagain (k + 1)) h
      rw [if_pos (hagain 0 hround)]
      omega

end Result

/-! ## The time it takes -/

section Time

variable [Field K] [LinearOrder K]

/-- `elapsed k` is what the clock says in round `k` has elapsed. -/
structure Timed (round : ℕ → Round K α) (elapsed : ℕ → K) : Prop where
  nonneg : 0 ≤ elapsed 0
  mono : ∀ k, elapsed k ≤ elapsed (k + 1)
  slept : ∀ k s, round k = .sleep s → elapsed k + s ≤ elapsed (k + 1)

structure Capped (round : ℕ → Round K α) (elapsed : ℕ → K) (floor cap : K) : Prop where
  floor_le : ∀ k s, round k = .sleep s → floor ≤ s
  le_cap : ∀ k s, round k = .sleep s → elapsed k + s ≤ cap

variable {round : ℕ → Round K α} {elapsed : ℕ → K} {floor cap : K}

theorem Timed.tail (h : Timed round elapsed) :
    Timed (fun k => round (k + 1)) fun k => elapsed (k + 1) :=
  ⟨h.nonneg.trans (h.mono 0), fun k => h.mono (k + 1), fun k => h.slept (k + 1)⟩

theorem Capped.tail (h : Capped round elapsed floor cap) :
    Capped (fun k => round (k + 1)) (fun k => elapsed (k + 1)) floor cap :=
  ⟨fun k => h.floor_le (k + 1), fun k => h.le_cap (k + 1)⟩

variable [IsStrictOrderedRing K]

/-- What has elapsed and all that is still requested are within the cap. -/
theorem loop_fits (ht : Timed round elapsed) (hc : Capped round elapsed floor cap) (n : ℕ) :
    (loop round n).1 = [] ∨ elapsed 0 + (loop round n).1.sum ≤ cap := by
  induction n generalizing round elapsed with
  | zero => exact .inl rfl
  | succ n ih =>
    have hrest := ih ht.tail hc.tail
    cases h : round 0 with
    | done a =>
      rw [loop_of_done h]
      exact .inl rfl
    | sleep s =>
      rw [loop_of_sleep h, List.sum_cons]
      refine .inr ?_
      rcases hrest with hnil | hle
      · rw [hnil, List.sum_nil, add_zero]
        exact hc.le_cap 0 s h
      · have hslept := ht.slept 0 s h
        linarith
    | again =>
      rw [loop_of_again h]
      refine hrest.imp_right fun hle => ?_
      have hmono := ht.mono 0
      linarith

theorem loop_sum_le (ht : Timed round elapsed) (hc : Capped round elapsed floor cap) (hcap : 0 ≤ cap)
    (n : ℕ) : (loop round n).1.sum ≤ cap := by
  rcases loop_fits ht hc n with hnil | hle
  · rw [hnil]
    exact hcap
  · have hnonneg := ht.nonneg
    linarith

theorem loop_length_le (hc : Capped round elapsed floor cap) (n : ℕ) :
    (loop round n).1.length * floor ≤ (loop round n).1.sum := by
  induction n generalizing round elapsed with
  | zero => simp [loop]
  | succ n ih =>
    have hrest := ih hc.tail
    cases h : round 0 with
    | done a =>
      rw [loop_of_done h]
      simp
    | sleep s =>
      rw [loop_of_sleep h, List.sum_cons, List.length_cons]
      have hfloor := hc.floor_le 0 s h
      push_cast
      linarith
    | again =>
      rw [loop_of_again h]
      exact hrest

/-- The loop ends once it has gone through more rounds than sleeps fit and rounds have
    gone round again at once. -/
theorem loop_ends [FloorSemiring K] (again : ℕ → Prop) [DecidablePred again]
    (ht : Timed round elapsed) (hc : Capped round elapsed floor cap)
    (hfloor : 0 < floor) (hcap : 0 ≤ cap) (hagain : ∀ k, round k = .again → again k) {n : ℕ}
    (hn : ⌊cap / floor⌋₊ + Nat.count again n < n) : ∃ a, (loop round n).2 = some a := by
  cases h : (loop round n).2 with
  | some a => exact ⟨a, rfl⟩
  | none =>
    have hlength := loop_length_add again hagain h
    have hsum : (loop round n).1.length * floor ≤ cap :=
      (loop_length_le hc n).trans (loop_sum_le ht hc hcap n)
    have hfit : (loop round n).1.length ≤ ⌊cap / floor⌋₊ := Nat.le_floor ((le_div_iff₀ hfloor).mpr hsum)
    omega

end Time

end Nivara.Retry
