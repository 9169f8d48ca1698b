import Nivara.Common.Decimal

/-!
# Where the roundings of the default context fall

A positive result is a whole number of units of its own last digit (`Representable`), the unit
being `ulp`. A value that is not representable is rounded to the nearest one that is, and a tie to
the even number of units.

Results:

* `roundHalfEven_le_iff`, `le_roundHalfEven_iff`: which values are rounded below, and above, an
  integer.
* `roundHalfEven_mono`: a rounding keeps the order.
* `inContext_mono`: so does the context.
* `inContext_le_of_le`: a representable bound survives the rounding.
* `inContext_add_le_iff`: when a value above a representable one is rounded down to it, across the
  powers of ten.
* `le_inContext_iff`: when a value is rounded up to a whole number of its units.
-/

namespace Nivara.Decimal

/-! ## Half to even -/

theorem roundHalfEven_le_iff {x : ℚ} {n : ℤ} :
    roundHalfEven x ≤ n ↔ x < n + 1 / 2 ∨ (x = n + 1 / 2 ∧ n % 2 = 0) := by
  have hfloor : (⌊x⌋ : ℚ) ≤ x := Int.floor_le x
  have hlt : x < ⌊x⌋ + 1 := Int.lt_floor_add_one x
  unfold roundHalfEven
  dsimp only
  rcases lt_trichotomy ⌊x⌋ n with hn | hn | hn
  · have hcast : (⌊x⌋ : ℚ) + 1 ≤ n := by exact_mod_cast hn
    refine iff_of_true ?_ (.inl (by linarith))
    split_ifs <;> omega
  · -- the floor is the integer itself, and the rounding decides
    subst hn
    split_ifs with hround
    · refine iff_of_true le_rfl (hround.imp (fun h => by linarith) fun h => ⟨by linarith [h.1], h.2⟩)
    · refine iff_of_false (by omega) fun h => hround ?_
      exact h.imp (fun h => by linarith) fun h => ⟨by linarith [h.1], h.2⟩
  · have hcast : (n : ℚ) + 1 ≤ ⌊x⌋ := by exact_mod_cast hn
    refine iff_of_false (by split_ifs <;> omega) ?_
    rintro (h | ⟨h, -⟩) <;> linarith

theorem le_roundHalfEven_iff {x : ℚ} {n : ℤ} :
    n ≤ roundHalfEven x ↔ n - 1 / 2 < x ∨ (x = n - 1 / 2 ∧ n % 2 = 0) := by
  have hbelow : roundHalfEven x ≤ n - 1 ↔ x < n - 1 / 2 ∨ (x = n - 1 / 2 ∧ (n - 1) % 2 = 0) := by
    rw [roundHalfEven_le_iff]
    have hhalf : ((n - 1 : ℤ) : ℚ) + 1 / 2 = n - 1 / 2 := by push_cast; ring
    rw [hhalf]
  have hnot : n ≤ roundHalfEven x ↔ ¬ roundHalfEven x ≤ n - 1 := by omega
  rw [hnot, hbelow]
  rcases lt_trichotomy x (n - 1 / 2) with hx | hx | hx
  · exact iff_of_false (fun h => h (.inl hx)) (by rintro (h | ⟨h, -⟩) <;> linarith)
  · have hparity : (n - 1) % 2 = 0 ↔ ¬ n % 2 = 0 := by omega
    simp only [hx, lt_irrefl, true_and, false_or, hparity, not_not]
  · exact iff_of_true (by rintro (h | ⟨h, -⟩) <;> linarith) (.inl hx)

/-- A tie next to an even integer is rounded to it. -/
theorem roundHalfEven_le_iff_of_even {x : ℚ} {n : ℤ} (h : n % 2 = 0) :
    roundHalfEven x ≤ n ↔ x ≤ n + 1 / 2 := by
  rw [roundHalfEven_le_iff, and_iff_left h, le_iff_lt_or_eq]

theorem le_roundHalfEven_iff_of_even {x : ℚ} {n : ℤ} (h : n % 2 = 0) :
    n ≤ roundHalfEven x ↔ n - 1 / 2 ≤ x := by
  rw [le_roundHalfEven_iff, and_iff_left h, le_iff_lt_or_eq, eq_comm]

theorem roundHalfEven_intCast (n : ℤ) : roundHalfEven n = n :=
  le_antisymm (roundHalfEven_mem le_rfl le_rfl).2 (roundHalfEven_mem le_rfl le_rfl).1

/-- A rounding keeps the order. -/
theorem roundHalfEven_mono {x y : ℚ} (h : x ≤ y) : roundHalfEven x ≤ roundHalfEven y := by
  rw [le_roundHalfEven_iff]
  rcases le_roundHalfEven_iff.mp (le_refl (roundHalfEven x)) with hlt | ⟨heq, heven⟩
  · exact .inl (hlt.trans_le h)
  · rcases (heq ▸ h).eq_or_lt with hy | hlt
    · exact .inr ⟨hy.symm, heven⟩
    · exact .inl hlt

/-! ## The unit of the last digit -/

/-- One unit of the last of the 28 digits of `x`. -/
def ulp (x : ℚ) : ℚ := 10 ^ (Int.log 10 |x| - 27)

theorem ulp_pos (x : ℚ) : 0 < ulp x := zpow_pos (by norm_num) _

theorem inContext_eq {x : ℚ} (hx : 0 < x) : inContext x = roundHalfEven (x / ulp x) * ulp x :=
  if_neg hx.ne'

/-- The digits of `x` begin at a power of ten. -/
theorem pow_mul_ulp {x : ℚ} (hx : 0 < x) : 10 ^ 27 * ulp x = 10 ^ Int.log 10 x := by
  unfold ulp
  rw [abs_of_pos hx, zpow_sub₀ (by norm_num)]
  exact mul_div_cancel₀ _ (by norm_num)

theorem pow_succ_mul_ulp {x : ℚ} (hx : 0 < x) : 10 ^ 28 * ulp x = 10 ^ (Int.log 10 x + 1) := by
  rw [zpow_add_one₀ (by norm_num), ← pow_mul_ulp hx]
  ring

theorem pow_mul_ulp_le {x : ℚ} (hx : 0 < x) : 10 ^ 27 * ulp x ≤ x := by
  rw [pow_mul_ulp hx]
  exact_mod_cast Int.zpow_log_le_self (by norm_num) hx

theorem lt_pow_mul_ulp {x : ℚ} (hx : 0 < x) : x < 10 ^ 28 * ulp x := by
  rw [pow_succ_mul_ulp hx]
  exact_mod_cast Int.lt_zpow_succ_log_self (b := 10) (by norm_num) x

theorem ulp_eq_of_log {x y : ℚ} (hx : 0 < x) (hy : 0 < y) (h : Int.log 10 x = Int.log 10 y) :
    ulp x = ulp y := by
  unfold ulp
  rw [abs_of_pos hx, abs_of_pos hy, h]

/-- Powers of ten apart, the digits of the one begin where those of the other have ended. -/
theorem pow_mul_ulp_le_of_log {x y : ℚ} (hx : 0 < x) (hy : 0 < y) (h : Int.log 10 x < Int.log 10 y) :
    10 ^ 28 * ulp x ≤ 10 ^ 27 * ulp y := by
  rw [pow_succ_mul_ulp hx, pow_mul_ulp hy]
  exact zpow_le_zpow_right₀ (by norm_num) h

/-! ## Results of the context -/

/-- A whole number of units of its own last digit. -/
def Representable (x : ℚ) : Prop := ∃ k : ℤ, x = k * ulp x

theorem inContext_le_units_iff {x : ℚ} (hx : 0 < x) {k : ℤ} :
    inContext x ≤ k * ulp x ↔ x < (k + 1 / 2) * ulp x ∨ (x = (k + 1 / 2) * ulp x ∧ k % 2 = 0) := by
  rw [inContext_eq hx, mul_le_mul_iff_left₀ (ulp_pos x), Int.cast_le, roundHalfEven_le_iff,
    div_lt_iff₀ (ulp_pos x), div_eq_iff (ulp_pos x).ne']

theorem units_le_inContext_iff {x : ℚ} (hx : 0 < x) {k : ℤ} :
    k * ulp x ≤ inContext x ↔ (k - 1 / 2) * ulp x < x ∨ (x = (k - 1 / 2) * ulp x ∧ k % 2 = 0) := by
  rw [inContext_eq hx, mul_le_mul_iff_left₀ (ulp_pos x), Int.cast_le, le_roundHalfEven_iff,
    lt_div_iff₀ (ulp_pos x), div_eq_iff (ulp_pos x).ne']

/-- A whole number of units that bounds a value bounds its rounding. -/
theorem inContext_le_units {x : ℚ} (hx : 0 < x) {k : ℤ} (hle : x ≤ k * ulp x) : inContext x ≤ k * ulp x :=
  (inContext_le_units_iff hx).mpr (.inl (by linarith [ulp_pos x]))

theorem units_le_inContext {x : ℚ} (hx : 0 < x) {k : ℤ} (hle : k * ulp x ≤ x) : k * ulp x ≤ inContext x :=
  (units_le_inContext_iff hx).mpr (.inl (by linarith [ulp_pos x]))

/-- A rounding stays between the powers of ten around the value. -/
theorem inContext_mem {x : ℚ} (hx : 0 < x) :
    10 ^ 27 * ulp x ≤ inContext x ∧ inContext x ≤ 10 ^ 28 * ulp x := by
  have hlo : (((10 ^ 27 : ℤ)) : ℚ) ≤ x / ulp x := by
    rw [le_div_iff₀ (ulp_pos x)]
    exact_mod_cast pow_mul_ulp_le hx
  have hhi : x / ulp x ≤ ((10 ^ 28 : ℤ) : ℚ) := by
    rw [div_le_iff₀ (ulp_pos x)]
    exact_mod_cast (lt_pow_mul_ulp hx).le
  obtain ⟨hround, hround'⟩ := roundHalfEven_mem hlo hhi
  rw [inContext_eq hx]
  refine ⟨mul_le_mul_of_nonneg_right ?_ (ulp_pos x).le, mul_le_mul_of_nonneg_right ?_ (ulp_pos x).le⟩
  · exact_mod_cast hround
  · exact_mod_cast hround'

theorem inContext_pos {x : ℚ} (hx : 0 < x) : 0 < inContext x :=
  (mul_pos (by norm_num) (ulp_pos x)).trans_le (inContext_mem hx).1

theorem inContext_zero : inContext 0 = 0 := if_pos rfl

theorem representable_inContext {x : ℚ} (hx : 0 < x) : Representable (inContext x) := by
  have hpos := inContext_pos hx
  obtain ⟨hlo, hhi⟩ := inContext_mem hx
  rcases hhi.lt_or_eq with hlt | heq
  · -- the rounding stays within the digits of `x`
    have hlog : Int.log 10 (inContext x) = Int.log 10 x := by
      rw [pow_succ_mul_ulp hx] at hlt
      rw [pow_mul_ulp hx] at hlo
      apply le_antisymm
      · exact Int.lt_add_one_iff.mp ((Int.lt_zpow_iff_log_lt (by norm_num) hpos).mp (by exact_mod_cast hlt))
      · exact (Int.zpow_le_iff_le_log (by norm_num) hpos).mp (by exact_mod_cast hlo)
    refine ⟨roundHalfEven (x / ulp x), ?_⟩
    rw [ulp_eq_of_log hpos hx hlog]
    exact inContext_eq hx
  · -- it is the next power of ten
    refine ⟨10 ^ 27, ?_⟩
    rw [pow_succ_mul_ulp hx] at heq
    have hlog : Int.log 10 (inContext x) = Int.log 10 x + 1 := by
      rw [heq]
      exact Int.log_zpow (b := 10) (by norm_num) _
    have hunits := pow_mul_ulp hpos
    rw [hlog, ← heq] at hunits
    push_cast
    exact hunits.symm

/-- A value at most as high as a representable one is rounded to one at most as high. -/
theorem inContext_le_of_le {x y : ℚ} (hx : 0 < x) (hy : Representable y) (hle : x ≤ y) :
    inContext x ≤ y := by
  have hypos : 0 < y := hx.trans_le hle
  rcases (Int.log_mono_right (b := 10) hx hle).lt_or_eq with hlog | hlog
  · exact (inContext_mem hx).2.trans ((pow_mul_ulp_le_of_log hx hypos hlog).trans (pow_mul_ulp_le hypos))
  · obtain ⟨k, hk⟩ := hy
    have hulp := ulp_eq_of_log hx hypos hlog
    rw [hk, ← hulp] at hle ⊢
    exact inContext_le_units hx hle

/-- A rounding keeps the order of positive values. -/
theorem inContext_mono {x y : ℚ} (hx : 0 < x) (hle : x ≤ y) : inContext x ≤ inContext y := by
  have hy : 0 < y := hx.trans_le hle
  rcases (Int.log_mono_right (b := 10) hx hle).lt_or_eq with hlog | hlog
  · exact (inContext_mem hx).2.trans ((pow_mul_ulp_le_of_log hx hy hlog).trans (inContext_mem hy).1)
  · have hround : roundHalfEven (x / ulp x) ≤ roundHalfEven (y / ulp x) :=
      roundHalfEven_mono (div_le_div_of_nonneg_right hle (ulp_pos x).le)
    rw [inContext_eq hx, inContext_eq hy, ← ulp_eq_of_log hx hy hlog]
    exact mul_le_mul_of_nonneg_right (Int.cast_le.mpr hround) (ulp_pos x).le

/-- A value that is not positive is rounded to one that is not. -/
theorem inContext_nonpos {x : ℚ} (hx : x ≤ 0) : inContext x ≤ 0 := by
  unfold inContext
  split_ifs
  · exact le_rfl
  · have hunit : (0 : ℚ) < 10 ^ (Int.log 10 |x| - 27) := zpow_pos (by norm_num) _
    have hround := roundHalfEven_mono (div_nonpos_of_nonpos_of_nonneg hx hunit.le)
    have hzero : roundHalfEven 0 = 0 := roundHalfEven_intCast 0
    rw [hzero] at hround
    exact mul_nonpos_of_nonpos_of_nonneg (Int.cast_nonpos.mpr hround) hunit.le

/-! ## What a rounding takes away and adds -/

/-- What lies `gap` from `target`, a whole number of units, is rounded to it. -/
def WithinHalf (unit gap target : ℚ) : Prop :=
  gap < unit / 2 ∨ (gap = unit / 2 ∧ ⌊target / unit⌋ % 2 = 0)

instance decidableWithinHalf (unit gap target : ℚ) : Decidable (WithinHalf unit gap target) :=
  inferInstanceAs (Decidable (_ ∨ _))

theorem withinHalf_units {unit gap : ℚ} (hunit : 0 < unit) (k : ℤ) :
    WithinHalf unit gap (k * unit) ↔ gap < unit / 2 ∨ (gap = unit / 2 ∧ k % 2 = 0) := by
  unfold WithinHalf
  rw [mul_div_cancel_right₀ _ hunit.ne', Int.floor_intCast]

theorem WithinHalf.le {unit gap target : ℚ} (h : WithinHalf unit gap target) : gap ≤ unit / 2 :=
  h.elim le_of_lt fun h => h.1.le

theorem WithinHalf.of_lt {unit gap gap' target : ℚ} (h : WithinHalf unit gap target) (hlt : gap' < gap) :
    WithinHalf unit gap' target := .inl (hlt.trans_le h.le)

/-- A value above a representable one is rounded down to it when it is within half a unit. -/
theorem inContext_add_le_iff {y gap : ℚ} (hy : 0 < y) (hrep : Representable y) (hgap : 0 < gap) :
    inContext (y + gap) ≤ y ↔ WithinHalf (ulp y) gap y := by
  have hpos : 0 < y + gap := by linarith
  obtain ⟨k, hk⟩ := hrep
  rcases (Int.log_mono_right (b := 10) hy (by linarith : y ≤ y + gap)).lt_or_eq with hlog | hlog
  · -- the value has reached the next power of ten, which is a unit or more away
    have hpow := pow_mul_ulp_le_of_log hy hpos hlog
    have hfar : ulp y ≤ gap := by
      have hk' : k ≤ 10 ^ 28 - 1 := by
        have hlt := hk.symm.trans_lt (lt_pow_mul_ulp hy)
        rw [mul_lt_mul_iff_left₀ (ulp_pos y)] at hlt
        have hlt : k < 10 ^ 28 := by exact_mod_cast hlt
        omega
      have hcast : (k : ℚ) ≤ 10 ^ 28 - 1 := by exact_mod_cast hk'
      have hle : y ≤ (10 ^ 28 - 1) * ulp y :=
        hk.trans_le (mul_le_mul_of_nonneg_right hcast (ulp_pos y).le)
      linarith [pow_mul_ulp_le hpos]
    refine iff_of_false (not_le.mpr ?_) fun h => ?_
    · exact (lt_pow_mul_ulp hy).trans_le (hpow.trans (inContext_mem hpos).1)
    · linarith [h.le, ulp_pos y]
  · have hulp := ulp_eq_of_log hy hpos hlog
    have hwithin : WithinHalf (ulp y) gap (k * ulp y) ↔ gap < ulp y / 2 ∨ (gap = ulp y / 2 ∧ k % 2 = 0) :=
      withinHalf_units (ulp_pos y) k
    rw [← hk] at hwithin
    have hunits := inContext_le_units_iff hpos (k := k)
    rw [← hulp, ← hk] at hunits
    rw [hunits, hwithin]
    have hhalf : (k + 1 / 2) * ulp y = y + ulp y / 2 := by linear_combination -hk
    rw [hhalf]
    constructor <;> exact Or.imp (fun h => by linarith) (And.imp_left fun h => by linarith)

/-- A value is rounded up to a whole number of its units when it is within half a unit. -/
theorem le_inContext_iff {x : ℚ} (hx : 0 < x) (k : ℤ) :
    k * ulp x ≤ inContext x ↔ WithinHalf (ulp x) (k * ulp x - x) (k * ulp x) := by
  rw [units_le_inContext_iff hx, withinHalf_units (ulp_pos x)]
  have hhalf : (k - 1 / 2) * ulp x = k * ulp x - ulp x / 2 := by ring
  rw [hhalf]
  constructor <;> exact Or.imp (fun h => by linarith) (And.imp_left fun h => by linarith)

end Nivara.Decimal
