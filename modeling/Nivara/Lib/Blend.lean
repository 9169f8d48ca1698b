import Mathlib

/-!
# Weighted blends

A blend of values `v k` with weights `w k` over a list of keys, in an ordered field.

Results:

* `total_renormalize`, `renormalize_nonneg`: weights divided by their total.
* `shares_eq_iff`: two valuations give the same shares exactly when they are proportional.
* `blend_le`, `le_blend`: a blend with weights of total 1 stays within the bounds of its values.
* `exists_le_blend`, `exists_blend_le`: such a blend lies between the values of two keys it weighs.
* `blend_le_blend`: a blend is monotone in its values.
* `abs_mix_sub_le`, `min_le_mix`, `mix_le_max`: how far a share moves a value towards another.
-/

namespace Nivara.Blend

variable {κ K : Type*} [Field K]

/-- The total of the weights. -/
def total (w : κ → K) (ks : List κ) : K := (ks.map w).sum

/-- The weights divided by their total. -/
def renormalize (w : κ → K) (ks : List κ) : κ → K := fun k => w k / total w ks

/-- The weighted sum of the values. -/
def blend (w v : κ → K) (ks : List κ) : K := (ks.map fun k => w k * v k).sum

/-- `d` with the share `x` given to `a`. -/
def mix (x d a : K) : K := d * (1 - x) + x * a

variable {w w' v : κ → K} {ks : List κ} {k : κ} {c d a x y : K}

@[simp] theorem total_nil : total w [] = 0 := rfl

@[simp] theorem total_cons : total w (k :: ks) = w k + total w ks := rfl

@[simp] theorem blend_nil : blend w v [] = 0 := rfl

@[simp] theorem blend_cons : blend w v (k :: ks) = w k * v k + blend w v ks := rfl

theorem total_mul_right (ks : List κ) : total (fun k => w k * c) ks = total w ks * c := by
  unfold total
  rw [List.sum_map_mul_right]

theorem blend_mul_right (ks : List κ) : blend (fun k => w k * c) v ks = blend w v ks * c := by
  induction ks with
  | nil => simp
  | cons k ks ih => rw [blend_cons, blend_cons, ih]; ring

theorem blend_neg (ks : List κ) : blend w (fun k => -v k) ks = -blend w v ks := by
  induction ks with
  | nil => simp
  | cons k ks ih => rw [blend_cons, blend_cons, ih]; ring

/-- Weights divided by a total that is not zero have the total 1. -/
theorem total_renormalize (h : total w ks ≠ 0) : total (renormalize w ks) ks = 1 := by
  have hinv : renormalize w ks = fun k => w k * (total w ks)⁻¹ := funext fun k => div_eq_mul_inv _ _
  rw [hinv, total_mul_right, mul_inv_cancel₀ h]

variable [LinearOrder K] [IsStrictOrderedRing K]

theorem total_nonneg (h : ∀ k ∈ ks, 0 ≤ w k) : 0 ≤ total w ks := by
  unfold total
  exact List.sum_nonneg (by simpa using h)

theorem total_pos (h : ∀ k ∈ ks, 0 < w k) (hks : ks ≠ []) : 0 < total w ks := by
  obtain ⟨k, l, rfl⟩ := List.exists_cons_of_ne_nil hks
  have hl : 0 ≤ total w l := total_nonneg fun k hk => (h k (List.mem_cons_of_mem _ hk)).le
  have hk : 0 < w k := h k (by simp)
  rw [total_cons]
  linarith

theorem renormalize_nonneg (h : ∀ k ∈ ks, 0 ≤ w k) (hk : 0 ≤ w k) : 0 ≤ renormalize w ks k :=
  div_nonneg hk (total_nonneg h)

/-- A blend is at most its total times a bound of its values. -/
theorem blend_le_total_mul (hw : ∀ k ∈ ks, 0 ≤ w k) (hv : ∀ k ∈ ks, v k ≤ c) :
    blend w v ks ≤ total w ks * c := by
  induction ks with
  | nil => simp
  | cons k ks ih =>
    have ih := ih (fun k hk => hw k (List.mem_cons_of_mem _ hk)) fun k hk => hv k (List.mem_cons_of_mem _ hk)
    have hk : w k * v k ≤ w k * c := mul_le_mul_of_nonneg_left (hv k (by simp)) (hw k (by simp))
    rw [blend_cons, total_cons, add_mul]
    linarith

theorem total_mul_le_blend (hw : ∀ k ∈ ks, 0 ≤ w k) (hv : ∀ k ∈ ks, c ≤ v k) :
    total w ks * c ≤ blend w v ks := by
  induction ks with
  | nil => simp
  | cons k ks ih =>
    have ih := ih (fun k hk => hw k (List.mem_cons_of_mem _ hk)) fun k hk => hv k (List.mem_cons_of_mem _ hk)
    have hk : w k * c ≤ w k * v k := mul_le_mul_of_nonneg_left (hv k (by simp)) (hw k (by simp))
    rw [blend_cons, total_cons, add_mul]
    linarith

/-- A blend whose weights sum to 1 is at most a bound of its values. -/
theorem blend_le (hw : ∀ k ∈ ks, 0 ≤ w k) (htotal : total w ks = 1) (hv : ∀ k ∈ ks, v k ≤ c) :
    blend w v ks ≤ c := by
  simpa [htotal] using blend_le_total_mul hw hv

theorem le_blend (hw : ∀ k ∈ ks, 0 ≤ w k) (htotal : total w ks = 1) (hv : ∀ k ∈ ks, c ≤ v k) :
    c ≤ blend w v ks := by
  simpa [htotal] using total_mul_le_blend hw hv

/-- A blend whose weights sum to 1 is at least the value of some key that it weighs. -/
theorem exists_le_blend (hw : ∀ k ∈ ks, 0 ≤ w k) (htotal : total w ks = 1) :
    ∃ k ∈ ks, w k ≠ 0 ∧ v k ≤ blend w v ks := by
  by_contra! h
  set b := blend w v ks with hb
  have hle : ∀ k ∈ ks, w k * b ≤ w k * v k := by
    intro k hk
    by_cases h0 : w k = 0
    · simp [h0]
    · exact mul_le_mul_of_nonneg_left (h k hk h0).le (hw k hk)
  -- some weight is positive, and there the inequality is strict
  obtain ⟨k, hk, h0⟩ : ∃ k ∈ ks, w k ≠ 0 := by
    by_contra! hzero
    have : total w ks = 0 := List.sum_eq_zero (by simpa using hzero)
    simp [this] at htotal
  have hlt : w k * b < w k * v k :=
    mul_lt_mul_of_pos_left (h k hk h0) (lt_of_le_of_ne (hw k hk) (Ne.symm h0))
  have hsum : total (fun k => w k * b) ks < b := List.sum_lt_sum _ _ hle ⟨k, hk, hlt⟩
  rw [total_mul_right, htotal, one_mul] at hsum
  exact lt_irrefl _ hsum

/-- A blend whose weights sum to 1 is at most the value of some key that it weighs. -/
theorem exists_blend_le (hw : ∀ k ∈ ks, 0 ≤ w k) (htotal : total w ks = 1) :
    ∃ k ∈ ks, w k ≠ 0 ∧ blend w v ks ≤ v k := by
  obtain ⟨k, hk, h0, hle⟩ := exists_le_blend (v := fun k => -v k) hw htotal
  refine ⟨k, hk, h0, ?_⟩
  rw [blend_neg] at hle
  linarith

/-- Values that are higher, key by key, under the same weights have a higher blend. -/
theorem blend_le_blend {ι : Type*} {w' v' : ι → K} {ks' : List ι}
    (h : List.Forall₂ (fun k k' => 0 ≤ w k ∧ w k = w' k' ∧ v k ≤ v' k') ks ks') :
    blend w v ks ≤ blend w' v' ks' := by
  induction h with
  | nil => simp
  | @cons k k' l l' hk _ ih =>
    obtain ⟨hnonneg, hweight, hvalue⟩ := hk
    have hle : w k * v k ≤ w' k' * v' k' := by
      rw [← hweight]
      exact mul_le_mul_of_nonneg_left hvalue hnonneg
    rw [blend_cons, blend_cons]
    exact add_le_add hle ih

/-- A share of at most `y` moves a value by at most `y` of the distance. -/
theorem abs_mix_sub_le (hx : 0 ≤ x) (hxy : x ≤ y) : |mix x d a - d| ≤ y * |a - d| := by
  have hmix : mix x d a - d = x * (a - d) := by
    unfold mix
    ring
  rw [hmix, abs_mul, abs_of_nonneg hx]
  exact mul_le_mul_of_nonneg_right hxy (abs_nonneg _)

theorem min_le_mix (hx : 0 ≤ x) (hx1 : x ≤ 1) : min d a ≤ mix x d a := by
  have hd : min d a * (1 - x) ≤ d * (1 - x) := mul_le_mul_of_nonneg_right (min_le_left d a) (by linarith)
  have ha : x * min d a ≤ x * a := mul_le_mul_of_nonneg_left (min_le_right d a) hx
  unfold mix
  linarith

theorem mix_le_max (hx : 0 ≤ x) (hx1 : x ≤ 1) : mix x d a ≤ max d a := by
  have hd : d * (1 - x) ≤ max d a * (1 - x) := mul_le_mul_of_nonneg_right (le_max_left d a) (by linarith)
  have ha : x * a ≤ x * max d a := mul_le_mul_of_nonneg_left (le_max_right d a) hx
  unfold mix
  linarith

/-! ## Shares -/

/-- The shares of the keys in a total, when it is positive. -/
def shares (w : κ → K) (ks : List κ) : List K := if 0 < total w ks then ks.map (renormalize w ks) else []

omit [IsStrictOrderedRing K] in
theorem shares_of_pos (h : 0 < total w ks) : shares w ks = ks.map (renormalize w ks) := if_pos h

omit [IsStrictOrderedRing K] in
theorem shares_of_nonpos (h : total w ks ≤ 0) : shares w ks = [] := if_neg (not_lt.mpr h)

omit [IsStrictOrderedRing K] in
/-- The shares are those of the list of values. -/
theorem shares_congr {ι : Type*} {f : ι → K} {l : List ι} (h : l.map f = ks.map w) : shares f l = shares w ks := by
  have htotal : total f l = total w ks := congrArg List.sum h
  have hshares : ∀ c, (l.map fun a => f a / c) = ks.map fun k => w k / c := by
    intro c
    have hdiv := congrArg (List.map (· / c)) h
    rwa [List.map_map, List.map_map] at hdiv
  unfold shares renormalize
  rw [htotal, hshares]

omit [IsStrictOrderedRing K] in
/-- A positive total has shares. -/
theorem shares_eq_nil_iff : shares w ks = [] ↔ total w ks ≤ 0 := by
  constructor
  · intro h
    by_contra hpos
    rw [shares_of_pos (not_le.mp hpos), List.map_eq_nil_iff] at h
    rw [h] at hpos
    exact hpos le_rfl
  · exact shares_of_nonpos

/-- Two valuations give the same shares exactly when neither total is positive or one is a
    positive multiple of the other. -/
theorem shares_eq_iff :
    shares w ks = shares w' ks ↔
      (total w ks ≤ 0 ∧ total w' ks ≤ 0) ∨ (0 < total w ks ∧ ∃ c, 0 < c ∧ ∀ k ∈ ks, w' k = c * w k) := by
  by_cases hw : total w ks ≤ 0
  · rw [shares_of_nonpos hw, eq_comm, shares_eq_nil_iff]
    simp [hw, not_lt.mpr hw]
  · push Not at hw
    rw [shares_of_pos hw]
    by_cases hw' : total w' ks ≤ 0
    · rw [shares_of_nonpos hw']
      constructor
      · intro h
        rw [List.map_eq_nil_iff.mp h] at hw
        exact absurd hw (lt_irrefl _)
      · rintro (⟨h, -⟩ | ⟨-, c, hc, hk⟩)
        · exact absurd hw (not_lt.mpr h)
        · have htotal : total w' ks = total (fun k => w k * c) ks :=
            congrArg List.sum (List.map_congr_left fun k hmem => by rw [hk k hmem, mul_comm])
          rw [htotal, total_mul_right] at hw'
          exact absurd (mul_pos hw hc) (not_lt.mpr hw')
    · push Not at hw'
      rw [shares_of_pos hw', List.map_inj_left]
      constructor
      · intro h
        refine .inr ⟨hw, total w' ks / total w ks, div_pos hw' hw, fun k hk => ?_⟩
        have heq : w k / total w ks = w' k / total w' ks := h k hk
        rw [div_eq_div_iff hw.ne' hw'.ne'] at heq
        rw [div_mul_eq_mul_div, eq_div_iff hw.ne', ← heq, mul_comm]
      · rintro (⟨h, -⟩ | ⟨-, c, hc, hmul⟩) k hk
        · exact absurd hw (not_lt.mpr h)
        · have htotal : total w' ks = total w ks * c := by
            rw [← total_mul_right]
            exact congrArg List.sum (List.map_congr_left fun k hmem => by rw [hmul k hmem, mul_comm])
          unfold renormalize
          rw [htotal, hmul k hk, mul_comm c, mul_div_mul_right _ _ hc.ne']

end Nivara.Blend
