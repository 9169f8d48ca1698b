import Nivara.Common.DecimalRounding
import Nivara.Safety.ValidateAction

/-!
# Position sizes

The model of `app/safety/position_sizer.py` in the default context, and the law of its boundary: the
quantity of `max_allowed_qty` is accepted and one step of the quantisation more is not.

* The limit `portfolio_value * max_pct` is rounded to 28 digits, the quotient of it and the price as
  well, the quotient is cut to eight decimals, and the product of the quantity and the price is
  rounded again.
* `quantize` raises an `InvalidOperation` when its result has more than 28 digits.

Results:

* `isWithinLimit_eq`: the helper and the check of the guardian agree on all inputs.
* `maxAllowedQty_eq`: which of the two steps around the exact quotient the quantity is, and when
  there is none.
* `multiply_le_iff`: which quantities are accepted.
* `boundaryLaw_iff`: the law holds exactly when the two roundings go together and the quotient is
  small enough.
-/

namespace Nivara.Safety

open Decimal

/-! ## The helper -/

/-- The whole part, toward zero. -/
def truncate (x : ℚ) : ℤ := if 0 ≤ x then ⌊x⌋ else -⌊-x⌋

/-- `x.quantize(Decimal("0.00000001"), rounding=ROUND_DOWN)`; `none` is an `InvalidOperation`. -/
def quantizeDown (x : ℚ) : Option ℚ :=
  let n := truncate (x * 10 ^ 8)
  if n.natAbs < 10 ^ 28 then some (n / 10 ^ 8) else none

/-- `PositionSizer.max_allowed_qty`. -/
def maxAllowedQty (portfolioValue price maxPositionPct : ℚ) : Option ℚ :=
  if price ≤ 0 then some 0
  else
    let raw := divide (multiply portfolioValue maxPositionPct) price
    quantizeDown raw

/-- `PositionSizer.is_within_limit`. -/
def isWithinLimit (proposedValue portfolioValue maxPct : ℚ) : Bool :=
  if portfolioValue ≤ 0 then false else decide (proposedValue ≤ multiply portfolioValue maxPct)

/-! ## The law of the boundary -/

/-- `PositionSizer._QUANTIZE`, one step of the quantities. -/
def quantum : ℚ := 1 / 10 ^ 8

/-- The two validators agree, and the quantity of `max_allowed_qty` is the last one within the
    limit. -/
structure BoundaryLaw (portfolioValue price maxPositionPct : ℚ) : Prop where
  agree : ∀ (userId instrumentId : UUID) (proposedValue portfolioValue maxPct : ℚ) (s : SafetyStore),
    (validatePositionSize userId instrumentId proposedValue portfolioValue maxPct s).1.allowed =
      isWithinLimit proposedValue portfolioValue maxPct
  boundary : ∃ qty, maxAllowedQty portfolioValue price maxPositionPct = some qty ∧
    isWithinLimit (multiply qty price) portfolioValue maxPositionPct = true ∧
    isWithinLimit (multiply (qty + quantum) price) portfolioValue maxPositionPct = false

theorem isWithinLimit_eq (userId instrumentId : UUID) (proposedValue portfolioValue maxPct : ℚ)
    (s : SafetyStore) :
    (validatePositionSize userId instrumentId proposedValue portfolioValue maxPct s).1.allowed =
      isWithinLimit proposedValue portfolioValue maxPct := by
  show (positionSize instrumentId proposedValue portfolioValue maxPct).allowed = _
  unfold positionSize isWithinLimit
  split_ifs with hzero hlimit
  · rfl
  · exact (decide_eq_false (not_le.mpr hlimit)).symm
  · exact (decide_eq_true (not_lt.mp hlimit)).symm

/-! ## The quantity -/

/-- The first quantity of eight decimals above `x`. -/
def nextStep (x : ℚ) : ℚ := (⌊x * 10 ^ 8⌋ + 1) / 10 ^ 8

theorem lt_nextStep (x : ℚ) : x < nextStep x := by
  rw [nextStep, lt_div_iff₀ (by norm_num)]
  exact Int.lt_floor_add_one _

theorem nextStep_sub (x : ℚ) : nextStep x - quantum = ⌊x * 10 ^ 8⌋ / 10 ^ 8 := by
  unfold nextStep quantum
  ring

theorem nextStep_sub_le (x : ℚ) : nextStep x - quantum ≤ x := by
  rw [nextStep_sub, div_le_iff₀ (by norm_num)]
  exact Int.floor_le _

theorem nextStep_sub_nonneg {x : ℚ} (hx : 0 ≤ x) : 0 ≤ nextStep x - quantum := by
  have hfloor : 0 ≤ ⌊x * 10 ^ 8⌋ := Int.floor_nonneg.mpr (mul_nonneg hx (by norm_num))
  rw [nextStep_sub]
  exact div_nonneg (by exact_mod_cast hfloor) (by norm_num)

/-- Below 10 ^ 20, a step is a whole number of the last units. -/
theorem quantum_eq_units {x : ℚ} (hx : 0 < x) (hlt : x < 10 ^ 20) : ∃ n : ℕ, quantum = n * ulp x := by
  have hlog : Int.log 10 x < 20 := (Int.lt_zpow_iff_log_lt (by norm_num) hx).mp (by exact_mod_cast hlt)
  refine ⟨10 ^ (19 - Int.log 10 x).toNat, ?_⟩
  have hexp : ((19 - Int.log 10 x).toNat : ℤ) = 19 - Int.log 10 x := Int.toNat_of_nonneg (by omega)
  rw [ulp, abs_of_pos hx]
  push_cast
  rw [← zpow_natCast, hexp, ← zpow_add₀ (by norm_num)]
  norm_num [quantum]

/-- The quotient is rounded up to the next step, or stays below it. -/
theorem floor_inContext {x : ℚ} (hx : 0 < x) (hlt : x < 10 ^ 20) :
    ⌊inContext x * 10 ^ 8⌋ =
      if WithinHalf (ulp x) (nextStep x - x) (nextStep x) then ⌊x * 10 ^ 8⌋ + 1 else ⌊x * 10 ^ 8⌋ := by
  obtain ⟨n, hn⟩ := quantum_eq_units hx hlt
  have hfloor := Int.floor_le (x * 10 ^ 8)
  have hsteps : ∀ k : ℤ, (k : ℚ) / 10 ^ 8 = (k * n : ℤ) * ulp x := by
    intro k
    have hstep : (k : ℚ) / 10 ^ 8 = k * quantum := by unfold quantum; ring
    rw [hstep, hn]
    push_cast
    ring
  have hnext : nextStep x = ((⌊x * 10 ^ 8⌋ + 1) * n : ℤ) * ulp x := by
    rw [← hsteps, nextStep]
    push_cast
    rfl
  have hlow : (⌊x * 10 ^ 8⌋ : ℚ) / 10 ^ 8 ≤ inContext x := by
    rw [← div_le_iff₀ (by norm_num), hsteps] at hfloor
    rw [hsteps]
    exact units_le_inContext hx hfloor
  have hhigh : inContext x ≤ nextStep x := by
    have hnextlt := lt_nextStep x
    rw [hnext] at hnextlt ⊢
    exact inContext_le_units hx hnextlt.le
  rw [nextStep, le_div_iff₀ (by norm_num)] at hhigh
  rw [div_le_iff₀ (by norm_num)] at hlow
  have hup := le_inContext_iff hx ((⌊x * 10 ^ 8⌋ + 1) * n)
  rw [← hnext] at hup
  split_ifs with hround
  · have hreached := hup.mpr hround
    rw [nextStep, div_le_iff₀ (by norm_num)] at hreached
    rw [Int.floor_eq_iff]
    push_cast
    exact ⟨hreached, by linarith⟩
  · have hbelow := not_le.mp (mt hup.mp hround)
    rw [nextStep, lt_div_iff₀ (by norm_num)] at hbelow
    exact Int.floor_eq_iff.mpr ⟨hlow, hbelow⟩

/-- The quotient of 28 digits and eight decimals. -/
theorem inContext_lt_iff {x : ℚ} (hx : 0 < x) : inContext x < 10 ^ 20 ↔ x < 10 ^ 20 - 5 / 10 ^ 9 := by
  have hpow : ∀ y : ℚ, 0 < y → Int.log 10 y = 19 → ulp y = 1 / 10 ^ 8 := by
    intro y hy hlog
    rw [ulp, abs_of_pos hy, hlog]
    norm_num
  rcases lt_trichotomy (Int.log 10 x) 19 with hlog | hlog | hlog
  · -- a digit or more is left
    have hlt : 10 ^ 28 * ulp x ≤ 10 ^ 19 := by
      rw [pow_succ_mul_ulp hx]
      exact_mod_cast zpow_le_zpow_right₀ (by norm_num : (1 : ℚ) ≤ 10) (by omega : Int.log 10 x + 1 ≤ 19)
    have hround := (inContext_mem hx).2
    have hdigits := lt_pow_mul_ulp hx
    exact iff_of_true (by linarith) (by linarith)
  · have hunits := units_le_inContext_iff hx (k := 10 ^ 28)
    rw [hpow x hx hlog] at hunits
    rw [← not_le, ← not_le, not_iff_not]
    have hle : (10 : ℚ) ^ 20 ≤ inContext x ↔ ((10 ^ 28 : ℤ) : ℚ) * (1 / 10 ^ 8) ≤ inContext x := by norm_num
    rw [hle, hunits, le_iff_lt_or_eq]
    norm_num
    exact or_congr_right eq_comm
  · have hge : (10 : ℚ) ^ 20 ≤ 10 ^ 27 * ulp x := by
      rw [pow_mul_ulp hx]
      exact_mod_cast zpow_le_zpow_right₀ (by norm_num : (1 : ℚ) ≤ 10) (by omega : 20 ≤ Int.log 10 x)
    have hround := (inContext_mem hx).1
    have hdigits := pow_mul_ulp_le hx
    exact iff_of_false (by linarith) (by linarith)

/-- The quantity: the step above the exact quotient when the division has reached it, and otherwise
    the one below. -/
theorem maxAllowedQty_eq {portfolioValue price maxPositionPct x : ℚ} (hprice : 0 < price)
    (hx : x = multiply portfolioValue maxPositionPct / price) (hpos : 0 < x) :
    maxAllowedQty portfolioValue price maxPositionPct =
      if x < 10 ^ 20 - 5 / 10 ^ 9 then
        some (if WithinHalf (ulp x) (nextStep x - x) (nextStep x) then nextStep x else nextStep x - quantum)
      else none := by
  have hraw := inContext_pos hpos
  have hunfold : maxAllowedQty portfolioValue price maxPositionPct = quantizeDown (inContext x) := by
    rw [maxAllowedQty, if_neg (not_le.mpr hprice), divide, ← hx]
  have htruncate : truncate (inContext x * 10 ^ 8) = ⌊inContext x * 10 ^ 8⌋ :=
    if_pos (mul_pos hraw (by norm_num)).le
  have hnonneg : 0 ≤ ⌊inContext x * 10 ^ 8⌋ := Int.floor_nonneg.mpr (mul_pos hraw (by norm_num)).le
  have hdigits : (⌊inContext x * 10 ^ 8⌋).natAbs < 10 ^ 28 ↔ x < 10 ^ 20 - 5 / 10 ^ 9 := by
    rw [← inContext_lt_iff hpos]
    have hfloor : (⌊inContext x * 10 ^ 8⌋).natAbs < 10 ^ 28 ↔ ⌊inContext x * 10 ^ 8⌋ < 10 ^ 28 := by omega
    rw [hfloor, Int.floor_lt]
    push_cast
    constructor <;> intro h <;> linarith
  rw [hunfold, quantizeDown]
  simp only [htruncate, hdigits]
  split_ifs with hlt hround
  · rw [floor_inContext hpos (by linarith), if_pos hround, nextStep]
    push_cast
    rfl
  · rw [floor_inContext hpos (by linarith), if_neg hround, nextStep_sub]
  · rfl

/-! ## The limit -/

/-- The product of the price and a quantity `excess` above the exact quotient is rounded back to the
    limit. -/
def RoundedBack (limit price excess : ℚ) : Prop :=
  0 < limit ∧ WithinHalf (ulp limit) (price * excess) limit

instance decidableRoundedBack (limit price excess : ℚ) : Decidable (RoundedBack limit price excess) :=
  inferInstanceAs (Decidable (_ ∧ _))

theorem RoundedBack.of_lt {limit price excess excess' : ℚ} (hprice : 0 < price)
    (h : RoundedBack limit price excess) (hlt : excess' < excess) : RoundedBack limit price excess' :=
  ⟨h.1, h.2.of_lt (mul_lt_mul_of_pos_left hlt hprice)⟩

/-- A quantity is within the limit when it is at most the exact quotient, or its product is rounded
    back. -/
theorem multiply_le_iff {limit price qty : ℚ} (hlimit : 0 < limit) (hrep : Representable limit)
    (hprice : 0 < price) (hqty : 0 ≤ qty) :
    multiply qty price ≤ limit ↔ qty ≤ limit / price ∨ RoundedBack limit price (qty - limit / price) := by
  rcases le_or_gt qty (limit / price) with hle | hgt
  · refine iff_of_true ?_ (.inl hle)
    rw [le_div_iff₀ hprice] at hle
    rcases hqty.lt_or_eq with hqty | rfl
    · exact inContext_le_of_le (mul_pos hqty hprice) hrep hle
    · rw [multiply, zero_mul, inContext_zero]
      exact hlimit.le
  · have hgap : qty * price = limit + price * (qty - limit / price) := by field_simp; ring
    have hpos : 0 < price * (qty - limit / price) := mul_pos hprice (sub_pos.mpr hgt)
    rw [multiply, hgap, inContext_add_le_iff hlimit hrep hpos]
    constructor
    · exact fun h => .inr ⟨hlimit, h⟩
    · rintro (h | h)
      · exact absurd h (not_le.mpr hgt)
      · exact h.2

/-- With `x` the exact quotient of the limit and the price: it is below the last quantity of 28
    digits, the division rounds it up to the next step exactly when the product of that step and the
    price is rounded back to the limit, and the product of the step after it is not. -/
structure RoundsTogether (limit price : ℚ) : Prop where
  fits : limit / price < 10 ^ 20 - 5 / 10 ^ 9
  together : WithinHalf (ulp (limit / price)) (nextStep (limit / price) - limit / price)
      (nextStep (limit / price)) ↔ RoundedBack limit price (nextStep (limit / price) - limit / price)
  apart : ¬ RoundedBack limit price (nextStep (limit / price) + quantum - limit / price)

theorem boundaryLaw_of_zero {portfolioValue price maxPositionPct : ℚ} (hvalue : 0 < portfolioValue)
    (hprice : 0 < price) (hlimit : multiply portfolioValue maxPositionPct = 0) :
    BoundaryLaw portfolioValue price maxPositionPct := by
  refine ⟨isWithinLimit_eq, 0, ?_, ?_, ?_⟩
  · rw [maxAllowedQty, if_neg (not_le.mpr hprice), hlimit, divide, zero_div, inContext_zero]
    decide +kernel
  · rw [isWithinLimit, if_neg (not_le.mpr hvalue), hlimit, multiply, zero_mul, inContext_zero]
    exact decide_eq_true le_rfl
  · rw [isWithinLimit, if_neg (not_le.mpr hvalue), hlimit, zero_add]
    exact decide_eq_false (not_le.mpr (inContext_pos (mul_pos (by norm_num [quantum]) hprice)))

theorem roundsTogether_zero (price : ℚ) : RoundsTogether 0 price := by
  have hzero : (0 : ℚ) / price = 0 := zero_div _
  have hback : ∀ excess, ¬ RoundedBack 0 price excess := fun _ h => lt_irrefl _ h.1
  refine ⟨?_, iff_of_false ?_ (hback _), hback _⟩
  · rw [hzero]
    norm_num
  · rw [hzero]
    decide +kernel

theorem multiply_nonneg {a b : ℚ} (ha : 0 < a) (hb : 0 ≤ b) :
    multiply a b = 0 ∨ (0 < multiply a b ∧ Representable (multiply a b)) := by
  rcases hb.lt_or_eq with hb | rfl
  · exact .inr ⟨inContext_pos (mul_pos ha hb), representable_inContext (mul_pos ha hb)⟩
  · exact .inl (by rw [multiply, mul_zero, inContext_zero])

/-- A quantity is at the boundary when it is within the limit and the next one is not. -/
theorem boundaryLaw_of_qty {portfolioValue price maxPositionPct qty : ℚ}
    (hqty : maxAllowedQty portfolioValue price maxPositionPct = some qty) :
    BoundaryLaw portfolioValue price maxPositionPct ↔
      isWithinLimit (multiply qty price) portfolioValue maxPositionPct = true ∧
        ¬ isWithinLimit (multiply (qty + quantum) price) portfolioValue maxPositionPct = true := by
  rw [Bool.not_eq_true]
  constructor
  · rintro ⟨-, qty', hqty', hwithin⟩
    rw [hqty, Option.some.injEq] at hqty'
    rwa [hqty']
  · exact fun h => ⟨isWithinLimit_eq, qty, hqty, h⟩

/-- The law holds exactly when the roundings of the quotient and of the product go together. -/
theorem boundaryLaw_iff (portfolioValue price maxPositionPct : ℚ) (hvalue : 0 < portfolioValue)
    (hpct : 0 ≤ maxPositionPct) (hprice : 0 < price) :
    BoundaryLaw portfolioValue price maxPositionPct ↔
      RoundsTogether (multiply portfolioValue maxPositionPct) price := by
  rcases multiply_nonneg hvalue hpct with hzero | ⟨hlimit, hrep⟩
  · rw [hzero]
    exact iff_of_true (boundaryLaw_of_zero hvalue hprice hzero) (roundsTogether_zero price)
  have hwithin : ∀ qty, 0 ≤ qty →
      (isWithinLimit (multiply qty price) portfolioValue maxPositionPct = true ↔
        qty ≤ multiply portfolioValue maxPositionPct / price ∨
          RoundedBack (multiply portfolioValue maxPositionPct) price
            (qty - multiply portfolioValue maxPositionPct / price)) := by
    intro qty hqty
    rw [isWithinLimit, if_neg (not_le.mpr hvalue), decide_eq_true_iff]
    exact multiply_le_iff hlimit hrep hprice hqty
  have hpos := div_pos hlimit hprice
  have hqty := maxAllowedQty_eq hprice rfl hpos
  have hnext := lt_nextStep (multiply portfolioValue maxPositionPct / price)
  have hbelow := nextStep_sub_le (multiply portfolioValue maxPositionPct / price)
  have hnonneg := nextStep_sub_nonneg hpos.le
  have hquantum : 0 < quantum := by norm_num [quantum]
  by_cases hfits : multiply portfolioValue maxPositionPct / price < 10 ^ 20 - 5 / 10 ^ 9
  swap
  · -- `quantize` raises
    rw [if_neg hfits] at hqty
    refine iff_of_false (fun h => ?_) fun h => hfits h.fits
    obtain ⟨qty, hsome, -⟩ := h.boundary
    exact Option.some_ne_none qty (hsome.symm.trans hqty)
  rw [if_pos hfits] at hqty
  split_ifs at hqty with hup
  · -- the quantity is the step above the exact quotient
    rw [boundaryLaw_of_qty hqty, hwithin _ (by linarith), hwithin _ (by linarith)]
    constructor
    · rintro ⟨haccepted, hrejected⟩
      have hback := haccepted.resolve_left (not_le.mpr hnext)
      exact ⟨hfits, iff_of_true hup hback, fun h => hrejected (.inr h)⟩
    · rintro ⟨-, htogether, hapart⟩
      refine ⟨.inr (htogether.mp hup), ?_⟩
      rintro (hle | hback)
      · linarith
      · exact hapart hback
  · -- it is the step below, so that it is accepted
    rw [boundaryLaw_of_qty hqty, sub_add_cancel, hwithin _ hnonneg, hwithin _ (by linarith)]
    constructor
    · rintro ⟨-, hrejected⟩
      have hnot := fun h => hrejected (.inr h)
      exact ⟨hfits, iff_of_false hup hnot, fun h => hnot (h.of_lt hprice (by linarith))⟩
    · rintro ⟨-, htogether, -⟩
      refine ⟨.inl hbelow, ?_⟩
      rintro (hle | hback)
      · linarith
      · exact hup (htogether.mpr hback)

/-- A tenth of 500 at a price of three. -/
theorem boundaryLaw_iff_sample : BoundaryLaw 500 3 (1 / 10) :=
  (boundaryLaw_iff 500 3 (1 / 10) (by norm_num) (by norm_num) (by norm_num)).mpr
    ⟨by decide +kernel, by decide +kernel, by decide +kernel⟩

/-- A price of 22 digits, where the product of the quantity is above the limit. -/
theorem maxAllowedQty_rejected :
    ¬ ∀ portfolioValue price maxPositionPct : ℚ, 0 < portfolioValue → 0 ≤ maxPositionPct → 0 < price →
      BoundaryLaw portfolioValue price maxPositionPct := by
  intro h
  have hlaw := h (9936928052068369913497106306 / 10 ^ 27) (954967286926594420198 / 10 ^ 20) 1
    (by norm_num) (by norm_num) (by norm_num)
  obtain ⟨qty, hqty, haccepted, -⟩ := hlaw.boundary
  have hvalue : maxAllowedQty (9936928052068369913497106306 / 10 ^ 27) (954967286926594420198 / 10 ^ 20) 1 =
      some (104055167 / 10 ^ 8) := by decide +kernel
  rw [hvalue, Option.some.injEq] at hqty
  subst hqty
  revert haccepted
  decide +kernel

end Nivara.Safety
