import Mathlib

/-!
# Counters that start again

A counter lives for one window and is then gone; the next call starts another one. What it
has let pass is listed by the lives of the counter, newest first.

Results:

* `Ordered.open`, `Ordered.pass`: a new life when the last one is over, a new time in the
  life that goes on.
* `Ordered.countP_le_two_mul`: lives that let `n` pass each let at most `2 n` pass in any
  interval of the length of the window, since an interval meets two lives at most.
-/

namespace Nivara.FixedWindow

variable {τ : Type*} [AddCommGroup τ] [LinearOrder τ] [IsOrderedAddMonoid τ]

/-- One life of the counter: its start, and the times of what has passed. -/
structure Life (τ : Type*) where
  start : τ
  times : List τ
  deriving DecidableEq

/-- All that has passed. -/
def times (lives : List (Life τ)) : List τ := lives.flatMap (·.times)

/-- Lives of at most `n` times each, a window apart. -/
structure Ordered (n : ℕ) (window : τ) (lives : List (Life τ)) : Prop where
  atMost : ∀ l ∈ lives, l.times.length ≤ n
  within : ∀ l ∈ lives, ∀ t ∈ l.times, l.start ≤ t ∧ t < l.start + window
  apart : lives.Pairwise fun newer older => older.start + window ≤ newer.start

variable {n : ℕ} {window : τ} {l : Life τ} {lives : List (Life τ)}

omit [IsOrderedAddMonoid τ] in
theorem ordered_nil : Ordered n window ([] : List (Life τ)) := ⟨nofun, nofun, List.Pairwise.nil⟩

omit [IsOrderedAddMonoid τ] in
theorem Ordered.tail (h : Ordered n window (l :: lives)) : Ordered n window lives :=
  ⟨fun m hm => h.atMost m (List.mem_cons_of_mem _ hm), fun m hm => h.within m (List.mem_cons_of_mem _ hm),
    (List.pairwise_cons.mp h.apart).2⟩

omit [IsOrderedAddMonoid τ] in
/-- A new life, when all the others are over. -/
theorem Ordered.open (h : Ordered n window lives) {now : τ} (hover : ∀ m ∈ lives, m.start + window ≤ now) :
    Ordered n window (⟨now, []⟩ :: lives) where
  atMost := by
    intro m hm
    rcases List.mem_cons.mp hm with rfl | hm
    · exact Nat.zero_le n
    · exact h.atMost m hm
  within := by
    intro m hm
    rcases List.mem_cons.mp hm with rfl | hm
    · exact nofun
    · exact h.within m hm
  apart := List.pairwise_cons.mpr ⟨hover, h.apart⟩

omit [IsOrderedAddMonoid τ] in
/-- One more in the newest life. -/
theorem Ordered.pass (h : Ordered n window (l :: lives)) {now : τ} (hlength : l.times.length < n)
    (hstart : l.start ≤ now) (hnow : now < l.start + window) :
    Ordered n window (⟨l.start, now :: l.times⟩ :: lives) where
  atMost := by
    intro m hm
    rcases List.mem_cons.mp hm with rfl | hm
    · exact hlength
    · exact h.tail.atMost m hm
  within := by
    intro m hm t ht
    rcases List.mem_cons.mp hm with rfl | hm
    · rcases List.mem_cons.mp ht with rfl | ht
      · exact ⟨hstart, hnow⟩
      · exact h.within l List.mem_cons_self t ht
    · exact h.tail.within m hm t ht
  apart := List.pairwise_cons.mpr (List.pairwise_cons.mp h.apart)

omit [IsOrderedAddMonoid τ] in
/-- The older lives are over when a newer one starts. -/
theorem Ordered.lt_start (h : Ordered n window (l :: lives)) {m : Life τ} (hm : m ∈ lives) {t : τ}
    (ht : t ∈ m.times) : t < l.start :=
  (h.tail.within m hm t ht).2.trans_le ((List.pairwise_cons.mp h.apart).1 m hm)

/-- An interval of the length of the window meets at most two of the lives. -/
theorem Ordered.countP_le_two_mul (h : Ordered n window lives) {a b : τ} (hab : b ≤ a + window) :
    (times lives).countP (fun t => a ≤ t ∧ t ≤ b) ≤ 2 * n := by
  induction lives with
  | nil => exact Nat.zero_le _
  | cons l lives ih =>
    have hfirst := (List.countP_le_length (p := fun t => decide (a ≤ t ∧ t ≤ b))).trans
      (h.atMost l List.mem_cons_self)
    unfold times at ih ⊢
    rw [List.flatMap_cons, List.countP_append]
    by_cases hmeets : ∃ t ∈ l.times, a ≤ t ∧ t ≤ b
    · -- the newest life reaches into the interval, which then starts after the end of the life
      -- before the previous one
      obtain ⟨t, ht, -, htb⟩ := hmeets
      have hstart : l.start ≤ a + window := ((h.within l List.mem_cons_self t ht).1.trans htb).trans hab
      suffices hrest : (lives.flatMap (·.times)).countP (fun t => a ≤ t ∧ t ≤ b) ≤ n by omega
      cases lives with
      | nil => exact Nat.zero_le n
      | cons m older =>
        have hm : m.start ≤ a := by
          have hapart := (List.pairwise_cons.mp h.apart).1 m List.mem_cons_self
          exact le_of_add_le_add_right (hapart.trans hstart)
        have holder : (older.flatMap (·.times)).countP (fun t => a ≤ t ∧ t ≤ b) = 0 := by
          refine List.countP_eq_zero.mpr fun t ht hin => ?_
          obtain ⟨k, hk, htk⟩ := List.mem_flatMap.mp ht
          have hlt := (h.tail.lt_start hk htk).trans_le hm
          exact absurd (of_decide_eq_true hin).1 (not_le.mpr hlt)
        rw [List.flatMap_cons, List.countP_append, holder]
        exact (List.countP_le_length).trans (h.atMost m (List.mem_cons_of_mem _ List.mem_cons_self))
    · have hnone : l.times.countP (fun t => decide (a ≤ t ∧ t ≤ b)) = 0 := by
        refine List.countP_eq_zero.mpr fun t ht hin => hmeets ⟨t, ht, of_decide_eq_true hin⟩
      have hrest := ih h.tail
      omega

end Nivara.FixedWindow
