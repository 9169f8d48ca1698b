import Mathlib

/-!
# Drawdown

How far the last of a list of values lies below the highest, as a part of the highest.

Results:

* `drawdown_nonneg`, `drawdown_le`, `mul_le_last`: it is the least part by which every value must be
  lowered not to exceed the last.
* `drawdown_sum_le`: a sum of columns has no higher drawdown than a bound for each of them.
-/

namespace Nivara.Drawdown

variable {K : Type*} [Field K] [LinearOrder K] {xs : List K} {d : K}

/-- The drawdown of the last value. -/
def drawdown : List K → K
  | [] => 0
  | first :: values =>
    let peak := values.foldl max first
    let current := (first :: values).getLast (List.cons_ne_nil _ _)
    if peak ≤ 0 then 0 else max 0 ((peak - current) / peak)

theorem drawdown_eq (h : xs ≠ []) :
    drawdown xs = if xs.max h ≤ 0 then 0 else max 0 ((xs.max h - xs.getLast h) / xs.max h) := by
  cases xs with
  | nil => exact absurd rfl h
  | cons first values => rfl

theorem drawdown_nonneg (xs : List K) : 0 ≤ drawdown xs := by
  by_cases h : xs = []
  · rw [h]
    rfl
  · rw [drawdown_eq h]
    split_ifs
    · exact le_rfl
    · exact le_max_left _ _

variable [IsStrictOrderedRing K]

/-- A part by which every value is lowered to the last bounds the drawdown. -/
theorem drawdown_le (hne : xs ≠ []) (hd : 0 ≤ d) (h : ∀ x ∈ xs, (1 - d) * x ≤ xs.getLast hne) :
    drawdown xs ≤ d := by
  rw [drawdown_eq hne]
  split_ifs with hpeak
  · exact hd
  · have hle := h _ (List.max_mem hne)
    refine max_le hd ?_
    rw [div_le_iff₀ (not_le.mp hpeak)]
    linarith

/-- Lowered by the drawdown, no value exceeds the last. -/
theorem mul_le_last (hne : xs ≠ []) (hpos : ∀ x ∈ xs, 0 < x) (hd : drawdown xs ≤ d) (hd1 : d ≤ 1) :
    ∀ x ∈ xs, (1 - d) * x ≤ xs.getLast hne := by
  intro x hx
  have hpeak : 0 < xs.max hne := hpos _ (List.max_mem hne)
  rw [drawdown_eq hne, if_neg hpeak.not_ge] at hd
  have hcurrent := (le_max_right _ _).trans hd
  rw [div_le_iff₀ hpeak] at hcurrent
  have hle : x ≤ xs.max hne := List.le_max_of_mem hx
  calc (1 - d) * x ≤ (1 - d) * xs.max hne := mul_le_mul_of_nonneg_left hle (sub_nonneg.mpr hd1)
    _ ≤ xs.getLast hne := by linarith

theorem drawdown_le_one (hpos : ∀ x ∈ xs, 0 < x) : drawdown xs ≤ 1 := by
  by_cases hne : xs = []
  · rw [hne]
    exact zero_le_one
  · refine drawdown_le hne zero_le_one fun x hx => ?_
    rw [sub_self, zero_mul]
    exact (hpos _ (List.getLast_mem hne)).le

/-- A sum of columns, each with the drawdown in bounds. -/
theorem drawdown_sum_le {σ ι : Type*} {columns : List σ} {index : List ι} {v : σ → ι → K} (hne : index ≠ [])
    (hd : 0 ≤ d) (h : ∀ s ∈ columns, ∀ t ∈ index, (1 - d) * v s t ≤ v s (index.getLast hne)) :
    drawdown (index.map fun t => (columns.map fun s => v s t).sum) ≤ d := by
  have hmap : (index.map fun t => (columns.map fun s => v s t).sum) ≠ [] := by simpa using hne
  refine drawdown_le hmap hd fun x hx => ?_
  obtain ⟨t, ht, rfl⟩ := List.mem_map.mp hx
  rw [List.getLast_map, ← List.sum_map_mul_left]
  exact List.sum_le_sum fun s hs => h s hs t ht

end Nivara.Drawdown
