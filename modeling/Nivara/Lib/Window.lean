import Mathlib

/-!
# Times in a sliding window

Lists of times and the half-open intervals of one length, the window.

Results:

* `AtMost.cons`: when fewer than `n` times are less than a window away from `t`, a list
  with at most `n` times in every window stays one when `t` is added.
-/

namespace Nivara.Window

variable {α : Type*} [AddCommGroup α] [LinearOrder α] [IsOrderedAddMonoid α]

/-- How many times are less than a window away from `t`. -/
def near (window t : α) (times : List α) : ℕ := times.countP fun e => |e - t| < window

/-- Every half-open interval of the length of the window has at most `n` of the times. -/
def AtMost (n : ℕ) (window : α) (times : List α) : Prop :=
  ∀ t, times.countP (fun e => t ≤ e ∧ e < t + window) ≤ n ∧
    times.countP (fun e => t < e ∧ e ≤ t + window) ≤ n

variable {n : ℕ} {window t u : α} {times : List α}

/-- Two times in one half-open interval are less than its length apart. -/
theorem abs_sub_lt_of_mem_Ico {e : α} (ht : u ≤ t ∧ t < u + window) (he : u ≤ e ∧ e < u + window) :
    |e - t| < window := by
  rw [abs_sub_lt_iff, sub_lt_iff_lt_add', sub_lt_iff_lt_add']
  exact ⟨he.2.trans_le (add_le_add_left ht.1 window), ht.2.trans_le (add_le_add_left he.1 window)⟩

theorem abs_sub_lt_of_mem_Ioc {e : α} (ht : u < t ∧ t ≤ u + window) (he : u < e ∧ e ≤ u + window) :
    |e - t| < window := by
  rw [abs_sub_lt_iff, sub_lt_iff_lt_add', sub_lt_iff_lt_add']
  exact ⟨he.2.trans_lt (add_lt_add_left ht.1 window), ht.2.trans_lt (add_lt_add_left he.1 window)⟩

omit [IsOrderedAddMonoid α] in
/-- A count over times that include `t` only when all of them are near to it. -/
theorem countP_cons_le (p : α → Bool) (hp : p t → ∀ e, p e → |e - t| < window)
    (hnear : near window t times < n) (h : times.countP p ≤ n) : (t :: times).countP p ≤ n := by
  by_cases ht : p t
  · have hle : times.countP p ≤ near window t times := by
      refine List.countP_mono_left fun e _ he => ?_
      exact decide_eq_true (hp ht e he)
    rw [List.countP_cons_of_pos ht]
    omega
  · rw [List.countP_cons_of_neg ht]
    exact h

/-- A time with fewer than `n` others near to it can be added. -/
theorem AtMost.cons (h : AtMost n window times) (hnear : near window t times < n) :
    AtMost n window (t :: times) := by
  intro u
  refine ⟨countP_cons_le _ (fun ht e he => ?_) hnear (h u).1,
    countP_cons_le _ (fun ht e he => ?_) hnear (h u).2⟩
  · exact abs_sub_lt_of_mem_Ico (of_decide_eq_true ht) (of_decide_eq_true he)
  · exact abs_sub_lt_of_mem_Ioc (of_decide_eq_true ht) (of_decide_eq_true he)

omit [IsOrderedAddMonoid α] in
theorem atMost_nil : AtMost n window ([] : List α) := fun _ => ⟨Nat.zero_le n, Nat.zero_le n⟩

end Nivara.Window
