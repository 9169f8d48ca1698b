import Mathlib

/-!
# Interpolated order statistics

The sorted values of a sample, and the value at a fractional rank between two of them.

Results:

* `insertionSort_le_insertionSort`: values that are lower one by one are lower in their order.
* `sort_eq_of_perm`: the order of a sample does not read the order of its values.
* `interpolate_mono`: a higher rank has a higher value; `interpolate_zero` is the lowest.
* `interpolate_le_interpolate`: lower values have a lower value at every rank.
-/

namespace Nivara.OrderStatistics

/-! ## Sorted values -/

section Sorted

variable {K : Type*} [LinearOrder K] {xs ys : List K} {a b d : K} {i j : ℕ}

theorem orderedInsert_of_pairwise (h : (a :: xs).Pairwise (· ≤ ·)) :
    xs.orderedInsert (· ≤ ·) a = a :: xs := by
  cases xs with
  | nil => rfl
  | cons x xs => exact List.orderedInsert_cons_of_le _ _ ((List.pairwise_cons.mp h).1 x List.mem_cons_self)

/-- A value put into its place among values that are lower one by one. -/
theorem orderedInsert_le_orderedInsert (h : List.Forall₂ (· ≤ ·) xs ys) (hxs : xs.Pairwise (· ≤ ·))
    (hys : ys.Pairwise (· ≤ ·)) (hab : a ≤ b) :
    List.Forall₂ (· ≤ ·) (xs.orderedInsert (· ≤ ·) a) (ys.orderedInsert (· ≤ ·) b) := by
  induction h generalizing a b with
  | nil => exact .cons hab .nil
  | @cons x y xs ys hxy htail ih =>
    have hxs' := (List.pairwise_cons.mp hxs).2
    have hys' := (List.pairwise_cons.mp hys).2
    by_cases hax : a ≤ x <;> by_cases hby : b ≤ y
    · rw [List.orderedInsert_cons_of_le _ _ hax, List.orderedInsert_cons_of_le _ _ hby]
      exact .cons hab (.cons hxy htail)
    · -- `x` is the value that takes the place of `b`
      rw [List.orderedInsert_cons_of_le _ _ hax, List.orderedInsert_of_not_le _ _ hby,
        ← orderedInsert_of_pairwise hxs]
      exact .cons (hax.trans hxy) (ih hxs' hys' (hxy.trans (not_le.mp hby).le))
    · rw [List.orderedInsert_of_not_le _ _ hax, List.orderedInsert_cons_of_le _ _ hby,
        ← orderedInsert_of_pairwise hys]
      exact .cons ((not_le.mp hax).le.trans hab) (ih hxs' hys' (hab.trans hby))
    · rw [List.orderedInsert_of_not_le _ _ hax, List.orderedInsert_of_not_le _ _ hby]
      exact .cons hxy (ih hxs' hys' hab)

/-- Values that are lower one by one are so in their order. -/
theorem insertionSort_le_insertionSort (h : List.Forall₂ (· ≤ ·) xs ys) :
    List.Forall₂ (· ≤ ·) (xs.insertionSort (· ≤ ·)) (ys.insertionSort (· ≤ ·)) := by
  induction h with
  | nil => exact .nil
  | cons hxy _ ih =>
    rw [List.insertionSort_cons, List.insertionSort_cons]
    exact orderedInsert_le_orderedInsert ih (List.pairwise_insertionSort _ _)
      (List.pairwise_insertionSort _ _) hxy

theorem sort_eq_of_perm (h : xs.Perm ys) : xs.insertionSort (· ≤ ·) = ys.insertionSort (· ≤ ·) := by
  have hperm :=
    (List.perm_insertionSort (· ≤ ·) xs).trans (h.trans (List.perm_insertionSort (· ≤ ·) ys).symm)
  exact hperm.eq_of_pairwise' (List.pairwise_insertionSort _ _) (List.pairwise_insertionSort _ _)

theorem getD_le_getD (hs : xs.Pairwise (· ≤ ·)) (hij : i ≤ j) (hj : j < xs.length) :
    xs.getD i d ≤ xs.getD j d := by
  rw [List.getD_eq_getElem _ _ (hij.trans_lt hj), List.getD_eq_getElem _ _ hj]
  rcases hij.eq_or_lt with rfl | hlt
  · exact le_rfl
  · exact List.pairwise_iff_getElem.mp hs i j (hij.trans_lt hj) hj hlt

theorem getD_le_getD_of_forall₂ (h : List.Forall₂ (· ≤ ·) xs ys) (i : ℕ) : xs.getD i d ≤ ys.getD i d := by
  induction h generalizing i with
  | nil => exact le_rfl
  | cons hxy _ ih =>
    cases i with
    | zero => exact hxy
    | succ i => exact ih i

end Sorted

/-! ## The value at a rank -/

variable {K : Type*} [Field K] [LinearOrder K] [FloorRing K]

/-- The value at a rank, counted from 0: between the two values whose ranks it lies between. -/
def interpolate (s : List K) (rank : K) : K :=
  let below := s.getD ⌊rank⌋.toNat 0
  let above := s.getD (⌊rank⌋.toNat + 1) 0
  below + (rank - ⌊rank⌋) * (above - below)

variable [IsStrictOrderedRing K] {s t : List K} {rank rank' : K}

theorem interpolate_zero (s : List K) : interpolate s 0 = s.getD 0 0 := by
  have hfloor : ⌊(0 : K)⌋ = 0 := Int.floor_zero
  unfold interpolate
  rw [hfloor]
  simp

/-- The fraction of a rank is a share. -/
theorem fract_mem (rank : K) : 0 ≤ rank - ⌊rank⌋ ∧ rank - ⌊rank⌋ ≤ 1 :=
  ⟨sub_nonneg.mpr (Int.floor_le rank), (sub_lt_iff_lt_add'.mpr (Int.lt_floor_add_one rank)).le⟩

/-- Lower values have a lower value at every rank. -/
theorem interpolate_le_interpolate (h : List.Forall₂ (· ≤ ·) s t) (rank : K) :
    interpolate s rank ≤ interpolate t rank := by
  obtain ⟨hnonneg, hle⟩ := fract_mem rank
  have hbelow := getD_le_getD_of_forall₂ (d := 0) h ⌊rank⌋.toNat
  have habove := getD_le_getD_of_forall₂ (d := 0) h (⌊rank⌋.toNat + 1)
  have hleft := mul_le_mul_of_nonneg_left hbelow (sub_nonneg.mpr hle)
  have hright := mul_le_mul_of_nonneg_left habove hnonneg
  unfold interpolate
  dsimp only
  linarith

/-- The whole part of a rank that is in the sample. -/
theorem floor_toNat_lt (h0 : 0 ≤ rank) (hlen : rank ≤ s.length - 1) :
    ⌊rank⌋.toNat < s.length ∧ ((⌊rank⌋.toNat : ℕ) : K) = ⌊rank⌋ := by
  have hnonneg : 0 ≤ ⌊rank⌋ := Int.floor_nonneg.mpr h0
  have hcast : ((⌊rank⌋.toNat : ℕ) : K) = ⌊rank⌋ := by
    rw [← Int.cast_natCast, Int.toNat_of_nonneg hnonneg]
  refine ⟨?_, hcast⟩
  have hlt : ((⌊rank⌋.toNat : ℕ) : K) < s.length := by
    rw [hcast]
    linarith [Int.floor_le rank]
  exact_mod_cast hlt

/-- The value at a rank lies between the two values next to it. -/
theorem interpolate_mem (hs : s.Pairwise (· ≤ ·)) (h0 : 0 ≤ rank) (hlen : rank ≤ s.length - 1) :
    s.getD ⌊rank⌋.toNat 0 ≤ interpolate s rank ∧
      (⌊rank⌋.toNat + 1 < s.length → interpolate s rank ≤ s.getD (⌊rank⌋.toNat + 1) 0) := by
  obtain ⟨hnonneg, hle⟩ := fract_mem rank
  obtain ⟨hfloor, hcast⟩ := floor_toNat_lt h0 hlen
  unfold interpolate
  dsimp only
  by_cases hlt : ⌊rank⌋.toNat + 1 < s.length
  · have hstep := getD_le_getD (d := 0) hs (Nat.le_succ ⌊rank⌋.toNat) hlt
    have hlow := mul_le_mul_of_nonneg_left hstep hnonneg
    have hhigh := mul_le_mul_of_nonneg_left hstep (sub_nonneg.mpr hle)
    exact ⟨by linarith, fun _ => by linarith⟩
  · -- the highest rank is a whole one
    have hlast : s.length = ⌊rank⌋.toNat + 1 := by omega
    have hwhole : rank - ⌊rank⌋ = 0 := by
      rw [hlast, Nat.cast_add, Nat.cast_one, add_sub_cancel_right, hcast] at hlen
      exact le_antisymm (sub_nonpos.mpr hlen) hnonneg
    rw [hwhole, zero_mul, add_zero]
    exact ⟨le_rfl, fun h => absurd h hlt⟩

/-- A higher rank has a higher value. -/
theorem interpolate_mono (hs : s.Pairwise (· ≤ ·)) (h0 : 0 ≤ rank) (hle : rank ≤ rank')
    (hlen : rank' ≤ s.length - 1) : interpolate s rank ≤ interpolate s rank' := by
  have hlen' : rank ≤ s.length - 1 := hle.trans hlen
  obtain ⟨hlt', hcast'⟩ := floor_toNat_lt (h0.trans hle) hlen
  rcases (Int.floor_mono hle).eq_or_lt with heq | hlt
  · by_cases hstep : ⌊rank'⌋.toNat + 1 < s.length
    · have hvalues := getD_le_getD (d := 0) hs (Nat.le_succ ⌊rank'⌋.toNat) hstep
      have hmul := mul_le_mul_of_nonneg_right hle (sub_nonneg.mpr hvalues)
      unfold interpolate
      rw [heq]
      dsimp only
      linarith
    · -- both are the highest rank
      have hlast : s.length = ⌊rank'⌋.toNat + 1 := by omega
      have hwhole : rank' ≤ ⌊rank'⌋ := by
        rwa [hlast, Nat.cast_add, Nat.cast_one, add_sub_cancel_right, hcast'] at hlen
      have hranks : rank = rank' := le_antisymm hle (hwhole.trans (heq ▸ Int.floor_le rank))
      rw [hranks]
  · have hnat : ⌊rank⌋.toNat + 1 ≤ ⌊rank'⌋.toNat := by
      have hnonneg : 0 ≤ ⌊rank⌋ := Int.floor_nonneg.mpr h0
      omega
    calc interpolate s rank ≤ s.getD (⌊rank⌋.toNat + 1) 0 :=
          (interpolate_mem hs h0 hlen').2 (hnat.trans_lt hlt')
      _ ≤ s.getD ⌊rank'⌋.toNat 0 := getD_le_getD hs hnat hlt'
      _ ≤ interpolate s rank' := (interpolate_mem hs (h0.trans hle) hlen).1

end Nivara.OrderStatistics
