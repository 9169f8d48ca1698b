import Mathlib

/-!
# The Herfindahl index

The sum of the squares of normalised magnitudes, over an ordered field.

Results:

* `hhi_eq_div`: the squares of the weights over the square of their magnitude.
* `one_div_length_le_hhi`, `hhi_le_one`: the range of the index.
* `Alike`: what the index reads of the weights, and which changes of them it does not see.
* `hhi_split`, `hhi_split_eq_iff`: what splitting a weight in two takes from the index.
-/

namespace Nivara.Herfindahl

variable {K : Type*} [Field K] [LinearOrder K]

/-- The total of the magnitudes. -/
def magnitude (ws : List K) : K := (ws.map fun w => |w|).sum

/-- The index. -/
def hhi (ws : List K) : K := ((ws.map fun w => |w| / magnitude ws).map fun w => w * w).sum

variable [IsStrictOrderedRing K] {ws a b c : List K} {x y : K}

theorem abs_le_magnitude (h : x ∈ ws) : |x| ≤ magnitude ws :=
  List.single_le_sum (by simp) _ (List.mem_map_of_mem h)

omit [IsStrictOrderedRing K] in
theorem hhi_eq_div (ws : List K) : hhi ws = (ws.map fun w => w * w).sum / magnitude ws ^ 2 := by
  have hsquares : ((ws.map fun w => |w| / magnitude ws).map fun w => w * w) =
      ws.map fun w => (w * w) * (magnitude ws ^ 2)⁻¹ := by
    rw [List.map_map]
    apply List.map_congr_left
    intro w _
    rw [Function.comp_apply, div_mul_div_comm, abs_mul_abs_self, sq, div_eq_mul_inv]
  unfold hhi
  rw [hsquares, List.sum_map_mul_right, div_eq_mul_inv]

theorem magnitude_nonneg (ws : List K) : 0 ≤ magnitude ws := List.sum_nonneg (by simp)

/-! ## The range -/

/-- The square of a sum is at most the number of terms times the sum of the squares. -/
theorem sq_sum_le_length_mul (l : List K) : l.sum ^ 2 ≤ l.length * (l.map fun x => x ^ 2).sum := by
  have hsum : l.sum = ∑ i : Fin l.length, l[i.1] := by
    rw [Fin.sum_univ_fun_getElem l fun x => x, List.map_id']
  rw [hsum, ← Fin.sum_univ_fun_getElem]
  simpa using sq_sum_le_card_mul_sum_sq (s := Finset.univ) (f := fun i : Fin l.length => l[i.1])

omit [LinearOrder K] [IsStrictOrderedRing K] in
/-- The products with what is left of a total. -/
theorem sum_mul_sub (l : List K) (c : K) :
    (l.map fun x => x * (c - x)).sum = c * l.sum - (l.map fun x => x ^ 2).sum := by
  induction l with
  | nil => simp
  | cons x l ih =>
    rw [List.map_cons, List.map_cons, List.sum_cons, List.sum_cons, List.sum_cons, ih]
    ring

/-- The sum of the squares of shares that add up to 1. -/
theorem one_div_length_le_sum_sq {shares : List K} (h : shares.sum = 1) :
    1 / (shares.length : K) ≤ (shares.map fun x => x ^ 2).sum := by
  have hle := sq_sum_le_length_mul shares
  rw [h, one_pow] at hle
  have hpos : (0 : K) < shares.length := by
    rw [Nat.cast_pos, List.length_pos_iff]
    rintro rfl
    exact zero_ne_one h
  rw [div_le_iff₀ hpos, mul_comm]
  exact hle

/-- Shares that are not negative have squares that are not larger. -/
theorem sum_sq_le_one {shares : List K} (h : shares.sum = 1) (hnonneg : ∀ x ∈ shares, 0 ≤ x) :
    (shares.map fun x => x ^ 2).sum ≤ 1 := by
  have hle : ∀ x ∈ shares, x ^ 2 ≤ x := by
    intro x hx
    have hx1 : x ≤ 1 := (List.single_le_sum hnonneg x hx).trans_eq h
    calc x ^ 2 = x * x := sq x
      _ ≤ x * 1 := mul_le_mul_of_nonneg_left hx1 (hnonneg x hx)
      _ = x := mul_one x
  calc (shares.map fun x => x ^ 2).sum ≤ (shares.map fun x => x).sum := List.sum_le_sum hle
    _ = 1 := by rw [List.map_id', h]

/-- The normalised magnitudes. -/
def shares (ws : List K) : List K := ws.map fun w => |w| / magnitude ws

omit [IsStrictOrderedRing K] in
theorem hhi_eq_sum_sq (ws : List K) : hhi ws = ((shares ws).map fun x => x ^ 2).sum := by
  unfold hhi shares
  congr 2
  funext w
  rw [sq]

omit [IsStrictOrderedRing K] in
theorem sum_shares (h : magnitude ws ≠ 0) : (shares ws).sum = 1 := by
  have hdiv : shares ws = (ws.map fun w => |w|).map (· * (magnitude ws)⁻¹) := by
    unfold shares
    rw [List.map_map]
    exact List.map_congr_left fun w _ => div_eq_mul_inv _ _
  rw [hdiv, List.sum_map_mul_right, List.map_id']
  exact mul_inv_cancel₀ h

/-- The index of `n` weights is at least `1 / n`. -/
theorem one_div_length_le_hhi (h : magnitude ws ≠ 0) : 1 / (ws.length : K) ≤ hhi ws := by
  have hle := one_div_length_le_sum_sq (sum_shares h)
  rwa [← hhi_eq_sum_sq, shares, List.length_map] at hle

/-- And at most 1. -/
theorem hhi_le_one (h : magnitude ws ≠ 0) : hhi ws ≤ 1 := by
  rw [hhi_eq_sum_sq]
  apply sum_sq_le_one (sum_shares h)
  intro x hx
  obtain ⟨w, -, rfl⟩ := List.mem_map.mp hx
  exact div_nonneg (abs_nonneg w) (magnitude_nonneg ws)

/-! ## What the index does not see -/

/-- Weights with the same index. -/
structure Alike (ws ws' : List K) : Prop where
  length : ws.length = ws'.length
  magnitude : magnitude ws ≤ 0 ↔ magnitude ws' ≤ 0
  hhi : hhi ws = hhi ws'

omit [IsStrictOrderedRing K] in
/-- The order of the weights. -/
theorem alike_of_perm {ws ws' : List K} (h : ws.Perm ws') : Alike ws ws' := by
  have hmagnitude : magnitude ws = magnitude ws' := (h.map _).sum_eq
  refine ⟨h.length_eq, by rw [hmagnitude], ?_⟩
  unfold hhi
  rw [hmagnitude]
  exact ((h.map _).map _).sum_eq

omit [IsStrictOrderedRing K] in
/-- Their signs. -/
theorem alike_of_abs {ws ws' : List K} (h : ws.map (fun w => |w|) = ws'.map fun w => |w|) :
    Alike ws ws' := by
  have hmagnitude : magnitude ws = magnitude ws' := congrArg List.sum h
  have hshares : ∀ c, (ws.map fun w => |w| / c) = ws'.map fun w => |w| / c := by
    intro c
    have hdiv := congrArg (List.map (· / c)) h
    rwa [List.map_map, List.map_map] at hdiv
  refine ⟨by simpa using congrArg List.length h, by rw [hmagnitude], ?_⟩
  unfold hhi
  rw [hmagnitude, hshares]

theorem magnitude_scale (c : K) (ws : List K) : magnitude (ws.map (c * ·)) = |c| * magnitude ws := by
  unfold magnitude
  rw [List.map_map, ← List.sum_map_mul_left]
  congr 2
  funext w
  exact abs_mul c w

/-- Their unit. -/
theorem alike_scale {c : K} (hc : 0 < c) (ws : List K) : Alike (ws.map (c * ·)) ws := by
  have habs : |c| ≠ 0 := abs_ne_zero.mpr hc.ne'
  have hshares : ∀ m : K, ((ws.map (c * ·)).map fun w => |w| / (|c| * m)) = ws.map fun w => |w| / m := by
    intro m
    rw [List.map_map]
    apply List.map_congr_left
    intro w _
    rw [Function.comp_apply, abs_mul, mul_div_mul_left _ _ habs]
  refine ⟨List.length_map _, ?_, ?_⟩
  · rw [magnitude_scale, abs_of_pos hc]
    exact smul_nonpos_iff_nonpos_of_pos_left hc
  · unfold hhi
    rw [magnitude_scale, hshares]

/-! ## Splitting a weight -/

/-- Weights of one sign: splitting keeps the magnitude. -/
theorem magnitude_split (h : 0 ≤ x * y) :
    magnitude (a ++ x :: b ++ y :: c) = magnitude (a ++ (x + y) :: b ++ c) := by
  have habs : |x + y| = |x| + |y| := (abs_add_eq_add_abs_iff x y).mpr (mul_nonneg_iff.mp h)
  unfold magnitude
  simp only [List.map_append, List.map_cons, List.sum_append, List.sum_cons, habs]
  ring

/-- Splitting a weight takes twice the product of the two shares from the index. -/
theorem hhi_split (h : 0 ≤ x * y) :
    hhi (a ++ (x + y) :: b ++ c) =
      hhi (a ++ x :: b ++ y :: c) + 2 * (x * y) / magnitude (a ++ (x + y) :: b ++ c) ^ 2 := by
  rw [hhi_eq_div, hhi_eq_div, magnitude_split h, ← add_div]
  congr 1
  simp only [List.map_append, List.map_cons, List.sum_append, List.sum_cons]
  ring

/-- The index stays only when a part is empty. -/
theorem hhi_split_eq_iff (h : 0 ≤ x * y) :
    hhi (a ++ x :: b ++ y :: c) = hhi (a ++ (x + y) :: b ++ c) ↔ x = 0 ∨ y = 0 := by
  rw [hhi_split h, left_eq_add, div_eq_zero_iff, pow_eq_zero_iff two_ne_zero, mul_eq_zero, mul_eq_zero]
  constructor
  · rintro ((h2 | h0) | hmag)
    · exact absurd h2 two_ne_zero
    · exact h0
    · rw [← magnitude_split h] at hmag
      have hx : |x| ≤ magnitude (a ++ x :: b ++ y :: c) := abs_le_magnitude (by simp)
      rw [hmag] at hx
      exact .inl (abs_nonpos_iff.mp hx)
  · exact fun h0 => .inl (.inr h0)

end Nivara.Herfindahl
