import Mathlib

/-!
# Correlation coefficients

Pearson's coefficient of two columns over rows, in an ordered field with square roots. It is
undefined where a column is constant.

Results:

* `cross_sq_le`: the inequality of Cauchy and Schwarz for deviations from the mean.
* `abs_pearson_le_one`, `pearson_comm`, `pearson_self`: a coefficient lies between −1 and 1, is
  symmetric, and 1 for a column with itself.
* `gram_nonneg`: coefficients of columns over the same rows form a positive semidefinite matrix.
-/

namespace Nivara.Correlations

variable {τ K : Type*} [Field K]

/-! ## Sums of deviations -/

def mean (x : τ → K) (rows : List τ) : K := (rows.map x).sum / rows.length

/-- The deviation of a row from the mean. -/
def deviation (x : τ → K) (rows : List τ) (t : τ) : K := x t - mean x rows

/-- The sum of the products of deviations. -/
def cross (x y : τ → K) (rows : List τ) : K :=
  (rows.map fun t => deviation x rows t * deviation y rows t).sum

theorem cross_comm (x y : τ → K) (rows : List τ) : cross x y rows = cross y x rows := by
  simp only [cross, mul_comm]

/-- Columns of other rows. -/
theorem cross_map {σ : Type*} (f : σ → τ) (x y : τ → K) (rows : List σ) :
    cross x y (rows.map f) = cross (x ∘ f) (y ∘ f) rows := by
  have hmean : ∀ z : τ → K, mean z (rows.map f) = mean (z ∘ f) rows := fun z => by
    simp only [mean, List.map_map, List.length_map]
  simp only [cross, deviation, hmean, List.map_map]
  rfl

/-- Columns that agree on the rows. -/
theorem cross_congr {x x' y y' : τ → K} {rows : List τ} (hx : ∀ t ∈ rows, x t = x' t)
    (hy : ∀ t ∈ rows, y t = y' t) : cross x y rows = cross x' y' rows := by
  have hmx : mean x rows = mean x' rows := by rw [mean, mean, List.map_congr_left hx]
  have hmy : mean y rows = mean y' rows := by rw [mean, mean, List.map_congr_left hy]
  unfold cross
  congr 1
  apply List.map_congr_left
  intro t ht
  rw [deviation, deviation, deviation, deviation, hmx, hmy, hx t ht, hy t ht]

theorem sum_map_eq_univ (f : τ → K) (rows : List τ) :
    (rows.map f).sum = ∑ i : Fin rows.length, f rows[i] := by
  rw [← List.sum_ofFn]
  congr 1
  apply List.ext_getElem
  · simp
  · intro n h h'
    simp

variable [LinearOrder K] [IsStrictOrderedRing K]

theorem cross_self_nonneg (x : τ → K) (rows : List τ) : 0 ≤ cross x x rows := by
  apply List.sum_nonneg
  intro a ha
  obtain ⟨t, -, rfl⟩ := List.mem_map.mp ha
  exact mul_self_nonneg _

theorem cross_sq_le (x y : τ → K) (rows : List τ) :
    cross x y rows * cross x y rows ≤ cross x x rows * cross y y rows := by
  have h := Finset.sum_mul_sq_le_sq_mul_sq Finset.univ (fun i : Fin rows.length => deviation x rows rows[i])
    fun i => deviation y rows rows[i]
  simp only [pow_two] at h
  simpa only [cross, sum_map_eq_univ] using h

/-- Where the deviations of a column vanish, so do its products with any other. -/
theorem cross_eq_zero_of_self {x : τ → K} {rows : List τ} (h : cross x x rows = 0) (y : τ → K) :
    cross x y rows = 0 := by
  have hle := cross_sq_le x y rows
  rw [h, zero_mul] at hle
  exact mul_self_eq_zero.mp (le_antisymm hle (mul_self_nonneg _))

/-- A column is constant exactly when its deviations vanish. -/
theorem cross_self_eq_zero_iff {x : τ → K} {rows : List τ} :
    cross x x rows = 0 ↔ ∀ t ∈ rows, ∀ t' ∈ rows, x t = x t' := by
  have hsum : cross x x rows = 0 ↔ ∀ t ∈ rows, deviation x rows t = 0 := by
    constructor
    · intro h t ht
      have hle : deviation x rows t * deviation x rows t ≤ cross x x rows := by
        apply List.single_le_sum
        · intro a ha
          obtain ⟨t', -, rfl⟩ := List.mem_map.mp ha
          exact mul_self_nonneg _
        · exact List.mem_map.mpr ⟨t, ht, rfl⟩
      exact mul_self_eq_zero.mp (le_antisymm (h ▸ hle) (mul_self_nonneg _))
    · intro h
      apply List.sum_eq_zero
      intro a ha
      obtain ⟨t, ht, rfl⟩ := List.mem_map.mp ha
      show deviation x rows t * deviation x rows t = 0
      rw [h t ht, zero_mul]
  rw [hsum]
  constructor
  · intro h t ht t' ht'
    rw [sub_eq_zero.mp (h t ht), sub_eq_zero.mp (h t' ht')]
  · intro h t ht
    have hall : rows.map x = List.replicate rows.length (x t) := by
      rw [List.eq_replicate_iff]
      refine ⟨List.length_map .., fun a ha => ?_⟩
      obtain ⟨t', ht', rfl⟩ := List.mem_map.mp ha
      exact h t' ht' t ht
    have hlength : (rows.length : K) ≠ 0 := by
      exact_mod_cast (List.length_pos_of_mem ht).ne'
    rw [deviation, mean, hall, List.sum_replicate, nsmul_eq_mul, mul_div_cancel_left₀ _ hlength, sub_self]

/-! ## Square roots -/

/-- A square root of what is not negative. -/
structure SquareRoot (K : Type*) [Field K] [LinearOrder K] where
  sqrt : K → K
  nonneg : ∀ x, 0 ≤ x → 0 ≤ sqrt x
  mul_self : ∀ x, 0 ≤ x → sqrt x * sqrt x = x

namespace SquareRoot

variable (r : SquareRoot K) {x y : K}

omit [IsStrictOrderedRing K] in
theorem sqrt_eq_zero_iff (hx : 0 ≤ x) : r.sqrt x = 0 ↔ x = 0 := by
  rw [← mul_self_eq_zero, r.mul_self x hx]

theorem sqrt_mul (hx : 0 ≤ x) (hy : 0 ≤ y) : r.sqrt (x * y) = r.sqrt x * r.sqrt y := by
  have hxy := mul_nonneg hx hy
  refine (mul_self_inj (r.nonneg _ hxy) (mul_nonneg (r.nonneg x hx) (r.nonneg y hy))).mp ?_
  rw [r.mul_self _ hxy, mul_mul_mul_comm, r.mul_self x hx, r.mul_self y hy]

theorem sqrt_mul_self (hx : 0 ≤ x) : r.sqrt (x * x) = x := by
  rw [r.sqrt_mul hx hx, r.mul_self x hx]

end SquareRoot

/-- The root of the reals. -/
noncomputable def realRoot : SquareRoot ℝ where
  sqrt := Real.sqrt
  nonneg := fun x _ => Real.sqrt_nonneg x
  mul_self := fun _ hx => Real.mul_self_sqrt hx

/-! ## Coefficients -/

/-- Pearson's coefficient, `none` where a column is constant. -/
def pearson (r : SquareRoot K) (x y : τ → K) (rows : List τ) : Option K :=
  let divisor := r.sqrt (cross x x rows * cross y y rows)
  if divisor = 0 then none else some (cross x y rows / divisor)

variable (r : SquareRoot K) {x y : τ → K} {rows : List τ}

omit [IsStrictOrderedRing K] in
theorem pearson_comm : pearson r x y rows = pearson r y x rows := by
  simp only [pearson, cross_comm x y, mul_comm (cross x x rows)]

omit [IsStrictOrderedRing K] in
/-- Columns of other rows. -/
theorem pearson_map {σ : Type*} (f : σ → τ) (x y : τ → K) (rows : List σ) :
    pearson r x y (rows.map f) = pearson r (x ∘ f) (y ∘ f) rows := by
  simp only [pearson, cross_map]

omit [IsStrictOrderedRing K] in
/-- Columns that agree on the rows. -/
theorem pearson_congr {x' y' : τ → K} (hx : ∀ t ∈ rows, x t = x' t) (hy : ∀ t ∈ rows, y t = y' t) :
    pearson r x y rows = pearson r x' y' rows := by
  simp only [pearson, cross_congr hx hy, cross_congr hx hx, cross_congr hy hy]

/-- It is defined exactly where neither column is constant. -/
theorem pearson_eq_none_iff : pearson r x y rows = none ↔ cross x x rows = 0 ∨ cross y y rows = 0 := by
  have hnonneg := mul_nonneg (cross_self_nonneg x rows) (cross_self_nonneg y rows)
  unfold pearson
  rw [← mul_eq_zero, ← r.sqrt_eq_zero_iff hnonneg]
  simp

theorem pearson_self (h : cross x x rows ≠ 0) : pearson r x x rows = some 1 := by
  unfold pearson
  simp only [r.sqrt_mul_self (cross_self_nonneg x rows), h, if_false, div_self h]

theorem abs_pearson_le_one {c : K} (h : pearson r x y rows = some c) : |c| ≤ 1 := by
  have hnonneg := mul_nonneg (cross_self_nonneg x rows) (cross_self_nonneg y rows)
  simp only [pearson] at h
  split_ifs at h with hzero
  cases h
  have hpos : 0 < r.sqrt (cross x x rows * cross y y rows) :=
    lt_of_le_of_ne (r.nonneg _ hnonneg) (Ne.symm hzero)
  rw [abs_div, abs_of_pos hpos, div_le_one hpos]
  apply abs_le_of_sq_le_sq _ hpos.le
  rw [pow_two, pow_two, r.mul_self _ hnonneg]
  exact cross_sq_le x y rows

/-- A deviation in units of its column, 0 for a constant column. -/
def standard (r : SquareRoot K) (x : τ → K) (rows : List τ) (t : τ) : K :=
  deviation x rows t / r.sqrt (cross x x rows)

theorem pearson_eq_sum : (pearson r x y rows).getD 0 =
    (rows.map fun t => standard r x rows t * standard r y rows t).sum := by
  have hroot := r.sqrt_mul (cross_self_nonneg x rows) (cross_self_nonneg y rows)
  have hsum : (rows.map fun t => standard r x rows t * standard r y rows t).sum =
      cross x y rows / (r.sqrt (cross x x rows) * r.sqrt (cross y y rows)) := by
    simp only [cross, sum_map_eq_univ, Finset.sum_div, standard, div_mul_div_comm]
  rw [hsum, ← hroot]
  unfold pearson
  simp only
  split_ifs with hzero
  · rw [hzero, div_zero]
    rfl
  · rfl

/-- Any weighting of columns has a sum of coefficients that is not negative. -/
theorem gram_nonneg {κ : Type*} (columns : List κ) (value : κ → τ → K) (w : κ → K) (rows : List τ) :
    0 ≤ (columns.map fun a => (columns.map fun b =>
      w a * w b * (pearson r (value a) (value b) rows).getD 0).sum).sum := by
  have hsquare : (columns.map fun a => (columns.map fun b =>
      w a * w b * (pearson r (value a) (value b) rows).getD 0).sum).sum =
      (rows.map fun t => (columns.map fun a => w a * standard r (value a) rows t).sum *
        (columns.map fun b => w b * standard r (value b) rows t).sum).sum := by
    simp only [pearson_eq_sum, sum_map_eq_univ, Finset.sum_mul_sum]
    simp only [Finset.mul_sum]
    rw [eq_comm, Finset.sum_comm]
    apply Finset.sum_congr rfl
    intro a _
    rw [Finset.sum_comm]
    apply Finset.sum_congr rfl
    intro b _
    apply Finset.sum_congr rfl
    intro t _
    ring
  rw [hsquare]
  apply List.sum_nonneg
  intro a ha
  obtain ⟨t, -, rfl⟩ := List.mem_map.mp ha
  exact mul_self_nonneg _

end Nivara.Correlations
