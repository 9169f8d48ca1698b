import Nivara.Common.DecimalContext
import Nivara.Lib.Raises

/-!
# The exchange rate in a return

`compute_fx_attribution` (`intelligence/fx_attribution.py`, lines 64–167): the returns of a position in
its own and in the base currency, and the note that shows them.

* `str.upper` is a parameter.
* The text of a number has one decimal: `_fmt_pct` puts a `+` before what is not negative, and the
  number brings its own `-`, which a `-0.0` has as well.

Results:

* `grid_rounded`: which values a rounded quotient can have next to 1, to 0.9995 and to `10 ^ 25 + 1`.
* `attribution_eq_ok_iff`: when the returns can be shown, and what is shown.
* `fmtPct_reads_iff`, `currencyMovePhrase_says`: which of the texts say what they show.
* `note_reads_iff`: for which positions the note can be read back.
* `smallLoss_has_two_signs`: a loss of a thousandth of a per cent.
-/

namespace Nivara.Intelligence

open Decimal

/-! ## Model -/

/-- `FxAttribution`. -/
structure FxAttribution where
  stockReturnPct : FiniteDecimal
  fxImpactPct : FiniteDecimal
  baseReturnPct : FiniteDecimal
  noteText : String
  deriving DecidableEq, Repr

/-- What `compute_fx_attribution` raises. -/
inductive AttributionError
  | valueError (message : String)
  /-- A signal that is no `ValueError`. -/
  | signal (s : Signal)
  deriving DecidableEq, Repr

/-- Digits, a point and the last digit. -/
def oneDecimal (n : ℕ) : List Char := Nat.toDigits 10 (n / 10) ++ '.' :: Nat.toDigits 10 (n % 10)

/-- `f"{value:.1f}"`. -/
def fixedText (value : FiniteDecimal) : List Char :=
  (if value.negative then ['-'] else []) ++ oneDecimal (roundHalfEven (|value.value| * 10)).toNat

/-- `_fmt_pct`. -/
def fmtPct (value : FiniteDecimal) : String :=
  String.ofList ((if 0 ≤ value.value then ['+'] else []) ++ fixedText value ++ ['%'])

/-- `_currency_move_phrase`. -/
def currencyMovePhrase (ccy : String) (pct : FiniteDecimal) : Except Signal String := do
  let absPct ← (Number.finite (← fix |pct.value|)).quantize
  if 0 < pct.value then return s!"{ccy} weakened {absPct.str}%"
  if pct.value < 0 then return s!"{ccy} strengthened {absPct.str}%"
  return s!"{ccy} flat"

/-- The guard of one argument (lines 132–139): a `NaN` is not compared. -/
def checkPositive (name : String) : PyDecimal → Except AttributionError Number
  | .nan .. => .error (.signal .invalidOperation)
  | .infinity false => .ok (.infinity false)
  | .infinity true => .error (.valueError (name ++ " must be > 0, got Decimal('-Infinity')"))
  | .finite negative coefficient exponent =>
    let val : FiniteDecimal := ⟨negative, coefficient, exponent⟩
    if val.value ≤ 0 then .error (.valueError (name ++ " must be > 0, got Decimal('" ++ val.str ++ "')"))
    else .ok (.finite val.value)

/-- The handler of line 144. -/
def ratioError : Signal → AttributionError
  | .invalidOperation =>
    .valueError "invalid inputs for fx attribution: [<class 'decimal.InvalidOperation'>]"
  | .divisionByZero => .valueError "invalid inputs for fx attribution: [<class 'decimal.DivisionByZero'>]"
  | .overflow => .signal .overflow

/-- `note_text`. -/
def formatNote (label native base phrase : String) (stockReturn baseReturn : FiniteDecimal) : String :=
  s!"{label} {fmtPct stockReturn} {native}, {phrase}, your {base} return: {fmtPct baseReturn}"

/-- `(ratio - Decimal("1")) * Decimal("100")`. -/
def returnOf (ratio : Number) : Except Signal Number := do
  (← ratio.subtract (.finite 1)).multiply (.finite 100)

/-- Lines 147–167: the returns of two ratios. -/
def attribution (label native base : String) (stockRatio fxRatio : Number) :
    Except Signal FxAttribution := do
  let stockReturn ← returnOf stockRatio
  let fxImpact ← returnOf fxRatio
  let baseReturn ← returnOf (← stockRatio.multiply fxRatio)
  let stockReturnDisp ← stockReturn.quantize
  let fxImpactDisp ← fxImpact.quantize
  let baseReturnDisp ← baseReturn.quantize
  let phrase ← currencyMovePhrase base fxImpactDisp
  return {
    stockReturnPct := stockReturnDisp
    fxImpactPct := fxImpactDisp
    baseReturnPct := baseReturnDisp
    noteText := formatNote label native base phrase stockReturnDisp baseReturnDisp }

/-- Lines 141–167. -/
def attributionOf (label native base : String) (cost price atOpen current : Number) :
    Except AttributionError FxAttribution := do
  let stockRatio ← (price.divide cost).mapError ratioError
  let fxRatio ← (current.divide atOpen).mapError ratioError
  (attribution label native base stockRatio fxRatio).mapError .signal

/-- `compute_fx_attribution`. -/
def computeFxAttribution (upper : String → String) (costBasisNative currentPriceNative : PyDecimal)
    (nativeCcy baseCcy : String) (fxAtOpen fxCurrent : PyDecimal) (symbol : Option String) :
    Except AttributionError (Option FxAttribution) := do
  if upper nativeCcy = upper baseCcy then return none
  let cost ← checkPositive "cost_basis_native" costBasisNative
  let price ← checkPositive "current_price_native" currentPriceNative
  let atOpen ← checkPositive "fx_at_open" fxAtOpen
  let current ← checkPositive "fx_current" fxCurrent
  let label := (symbol.filter (· ≠ "")).getD "Position"
  some <$> attributionOf label (upper nativeCcy) (upper baseCcy) cost price atOpen current

/-! ## Readings of the note -/

/-- A text of digits with one decimal. -/
def ReadsMagnitude (text : List Char) (x : ℚ) : Prop :=
  ∃ digits tenth, text = digits ++ ['.', tenth] ∧ digits ≠ [] ∧
    (∀ c ∈ digits ++ [tenth], c.isDigit = true) ∧ x = Nat.ofDigitChars 10 (digits ++ [tenth]) 0 / 10

/-- One sign, digits, one decimal and a percent sign. -/
def ReadsPct (text : String) (x : ℚ) : Prop :=
  ∃ (negative : Bool) (unsigned : List Char) (magnitude : ℚ),
    text.toList = (if negative then '-' else '+') :: unsigned ++ ['%'] ∧
      ReadsMagnitude unsigned magnitude ∧ x = if negative then -magnitude else magnitude

/-- The phrase names the direction of the move and, unless there is none, its size. -/
structure PhraseSays (phrase base : String) (pct : ℚ) : Prop where
  weakened : 0 < pct →
    ∃ text : String, phrase = s!"{base} weakened {text}%" ∧ ReadsMagnitude text.toList |pct|
  strengthened : pct < 0 →
    ∃ text : String, phrase = s!"{base} strengthened {text}%" ∧ ReadsMagnitude text.toList |pct|
  flat : pct = 0 → phrase = s!"{base} flat"

/-- The note is made of its parts, and each of them says what the field has. -/
structure FxAttribution.Readable (a : FxAttribution) (label native base : String) : Prop where
  note : ∃ phrase, a.noteText = formatNote label native base phrase a.stockReturnPct a.baseReturnPct ∧
    PhraseSays phrase base a.fxImpactPct.value
  stock : ReadsPct (fmtPct a.stockReturnPct) a.stockReturnPct.value
  base : ReadsPct (fmtPct a.baseReturnPct) a.baseReturnPct.value

/-! ## Roundings of a quotient -/

/-- A quotient as the context rounds it: at most one unit of its last digit below each of three values
    when it is below it. -/
structure Grid (x : ℚ) : Prop where
  nonneg : 0 ≤ x
  one : x < 1 → x ≤ 1 - 1 / 10 ^ 28
  flat : x < 9995 / 10000 → x ≤ 9995 / 10000 - 1 / 10 ^ 28
  limit : x < 10 ^ 25 + 1 → x ≤ 10 ^ 25 + 99 / 100

theorem exact_zero : Exact 0 := ⟨0, 0, by norm_num, by norm_num, by simp⟩

theorem grid_rounded {x : ℚ} (hx : 0 ≤ x) : Grid (rounded x) where
  nonneg := le_rounded_of_le exact_zero hx
  one h := by
    have hpred := rounded_le_pred (x := x) (d := -28) (k := 10 ^ 28) (by norm_num) (by norm_num) le_rfl
    norm_num at hpred h ⊢
    exact hpred h
  flat h := by
    have hpred := rounded_le_pred (x := x) (d := -28) (k := 9995 * 10 ^ 24) (by norm_num) (by norm_num)
      (by norm_num)
    norm_num at hpred h ⊢
    exact hpred h
  limit h := by
    have hpred := rounded_le_pred (x := x) (d := -2) (k := 10 ^ 27 + 100) (by norm_num) (by norm_num)
      (by norm_num)
    norm_num at hpred h ⊢
    exact hpred h

/-- From where a quotient is too large to be shown, before it is rounded. -/
def tooLarge : ℚ := 10 ^ 25 + 199 / 200

theorem rounded_lt_limit_iff {x : ℚ} : rounded x < 10 ^ 25 + 1 ↔ x < tooLarge := by
  have hiff := le_rounded_iff (x := x) (d := -2) (k := 10 ^ 27 + 100) (by norm_num) (by norm_num)
    (by norm_num) (by norm_num)
  have hnot := hiff.not
  rw [not_le, not_le] at hnot
  unfold tooLarge
  norm_num at hnot ⊢
  exact hnot

theorem rounded_lt_one_iff {x : ℚ} : rounded x < 1 ↔ x < 1 - 5 / 10 ^ 29 := by
  have hiff := le_rounded_iff (x := x) (d := -28) (k := 10 ^ 28) (by norm_num) (by norm_num)
    (by norm_num) le_rfl
  have hnot := hiff.not
  rw [not_le, not_le] at hnot
  norm_num at hnot ⊢
  exact hnot

theorem flat_le_rounded_iff {x : ℚ} : 9995 / 10000 ≤ rounded x ↔ 9995 / 10000 - 5 / 10 ^ 29 ≤ x := by
  have hiff := le_rounded_iff (x := x) (d := -28) (k := 9995 * 10 ^ 24) (by norm_num) (by norm_num)
    (by norm_num) (by norm_num)
  norm_num at hiff ⊢
  exact hiff

/-! ## Returns -/

/-- The return of a quotient, in per cent. -/
def percentReturn (x : ℚ) : ℚ := rounded (rounded (x - 1) * 100)

/-- The return as it is shown. -/
def shown (x : ℚ) : FiniteDecimal :=
  ⟨percentReturn x < 0, (roundHalfEven (|percentReturn x| * 10)).toNat, -1⟩

theorem exact_of_int {y : ℚ} (k : ℤ) (e : ℤ) (hk : |k| ≤ 10 ^ 28) (he : -1000026 ≤ e) (h : k * 10 ^ e = y) :
    Exact y :=
  ⟨k, e, hk, he, h.symm⟩

/-- Bounds of 28 digits for the excess of a quotient over 1 and for its percentage carry over. -/
theorem percentReturn_le {x b : ℚ} (hb : Exact b) (hb' : Exact (b * 100)) (h : x - 1 ≤ b) :
    percentReturn x ≤ b * 100 :=
  rounded_le_of_le hb' (mul_le_mul_of_nonneg_right (rounded_le_of_le hb h) (by norm_num))

theorem le_percentReturn {x b : ℚ} (hb : Exact b) (hb' : Exact (b * 100)) (h : b ≤ x - 1) :
    b * 100 ≤ percentReturn x :=
  le_rounded_of_le hb' (mul_le_mul_of_nonneg_right (le_rounded_of_le hb h) (by norm_num))

theorem Grid.percentReturn_neg_iff {x : ℚ} (h : Grid x) : percentReturn x < 0 ↔ x < 1 := by
  constructor
  · intro hneg
    by_contra hle
    have hzero := le_percentReturn (x := x) exact_zero (by rw [zero_mul]; exact exact_zero) (by linarith)
    linarith
  · intro hlt
    have hbound := percentReturn_le (x := x) (b := -(1 / 10 ^ 28))
      (exact_of_int (-1) (-28) (by norm_num) (by norm_num) (by norm_num))
      (exact_of_int (-1) (-26) (by norm_num) (by norm_num) (by norm_num)) (by linarith [h.one hlt])
    exact hbound.trans_lt (by norm_num)

theorem Grid.flat_iff {x : ℚ} (h : Grid x) : -(1 / 20) ≤ percentReturn x ↔ 9995 / 10000 ≤ x := by
  constructor
  · intro hle
    by_contra hlt
    have hbound := percentReturn_le (x := x) (b := -(5 / 10000 + 1 / 10 ^ 28))
      (exact_of_int (-(5 * 10 ^ 24 + 1)) (-28) (by norm_num) (by norm_num) (by norm_num))
      (exact_of_int (-(5 * 10 ^ 24 + 1)) (-26) (by norm_num) (by norm_num) (by norm_num))
      (by linarith [h.flat (not_le.mp hlt)])
    norm_num at hbound
    linarith
  · intro hle
    have hbound := le_percentReturn (x := x) (b := -(5 / 10000))
      (exact_of_int (-5) (-4) (by norm_num) (by norm_num) (by norm_num))
      (exact_of_int (-5) (-2) (by norm_num) (by norm_num) (by norm_num)) (by linarith)
    norm_num at hbound
    linarith

/-- The size of a return that can be shown. -/
theorem Grid.percentReturn_mem {x : ℚ} (h : Grid x) (hx : x < 10 ^ 25 + 1) :
    -100 ≤ percentReturn x ∧ percentReturn x ≤ 10 ^ 27 - 1 := by
  have hlow := le_percentReturn (x := x) (b := -1)
    (exact_of_int (-1) 0 (by norm_num) (by norm_num) (by norm_num))
    (exact_of_int (-100) 0 (by norm_num) (by norm_num) (by norm_num)) (by linarith [h.nonneg])
  have hhigh := percentReturn_le (x := x) (b := 10 ^ 25 - 1 / 100)
    (exact_of_int (10 ^ 27 - 1) (-2) (by norm_num) (by norm_num) (by norm_num))
    (exact_of_int (10 ^ 27 - 1) 0 (by norm_num) (by norm_num) (by norm_num)) (by linarith [h.limit hx])
  norm_num at hlow hhigh ⊢
  exact ⟨hlow, hhigh⟩

/-- A return below the limit is shown. -/
theorem Grid.quantize_returnOf {x : ℚ} (h : Grid x) (hx : x < 10 ^ 25 + 1) :
    returnOf (.finite x) = .ok (.finite (percentReturn x)) ∧
      (Number.finite (percentReturn x)).quantize = .ok (shown x) := by
  obtain ⟨hlow, hhigh⟩ := h.percentReturn_mem hx
  have hexcess : |x - 1| ≤ 10 ^ 25 := abs_le.mpr ⟨by linarith [h.nonneg], by linarith⟩
  have hround : |rounded (x - 1)| ≤ 10 ^ 25 := by
    have hexact : Exact (10 ^ 25) := exact_of_int 1 25 (by norm_num) (by norm_num) (by norm_num)
    exact abs_le.mpr ⟨le_rounded_of_le hexact.neg (abs_le.mp hexcess).1,
      rounded_le_of_le hexact (abs_le.mp hexcess).2⟩
  have hsub : fix (x - 1) = .ok (rounded (x - 1)) := fix_eq_ok_of_abs_le (hexcess.trans (by norm_num))
  have hmul : fix (rounded (x - 1) * 100) = .ok (percentReturn x) := by
    refine fix_eq_ok_of_abs_le ?_
    rw [abs_mul, abs_of_pos (by norm_num : (0 : ℚ) < 100)]
    linarith
  constructor
  · unfold returnOf Number.subtract Number.multiply
    simp only [hsub, hmul, Functor.map, Except.map, Bind.bind, Except.bind]
  · refine quantize_eq_ok_iff.mpr ⟨?_, rfl⟩
    have hsize : |percentReturn x| * 10 ≤ ((10 ^ 28 - 10 : ℤ) : ℚ) := by
      have := abs_le.mpr ⟨by linarith, hhigh⟩
      push_cast
      linarith
    have hround := roundHalfEven_mono hsize
    rw [roundHalfEven_intCast] at hround
    omega

/-- A return from the limit on is not. -/
theorem quantize_returnOf_ne_ok {x : ℚ} (hx : 10 ^ 25 + 1 ≤ x) {n : Number} {d : FiniteDecimal}
    (h : returnOf (.finite x) = .ok n) : n.quantize ≠ .ok d := by
  have hbound := le_percentReturn (x := x) (b := 10 ^ 25)
    (exact_of_int 1 25 (by norm_num) (by norm_num) (by norm_num))
    (exact_of_int 1 27 (by norm_num) (by norm_num) (by norm_num)) (by linarith)
  have hn : n = .finite (percentReturn x) := by
    unfold returnOf Number.subtract at h
    obtain ⟨m, hm, h⟩ := Loop.of_bind_eq_ok h
    obtain ⟨y, hy, rfl⟩ := Loop.of_map_eq_ok hm
    unfold Number.multiply at h
    obtain ⟨z, hz, rfl⟩ := Loop.of_map_eq_ok h
    rw [← (fix_eq_ok_iff.mp hz).2, ← (fix_eq_ok_iff.mp hy).2]
    rfl
  rw [hn]
  intro hd
  have hsmall := (quantize_eq_ok_iff.mp hd).1
  have hsize : ((10 ^ 28 : ℤ) : ℚ) ≤ |percentReturn x| * 10 := by
    have := le_abs_self (percentReturn x)
    push_cast
    linarith
  have hround := roundHalfEven_mono hsize
  rw [roundHalfEven_intCast] at hround
  omega

/-! ## What is shown -/

section Shown

variable {r s : ℚ} {label native base : String} {a : FxAttribution}

/-- What has one decimal is a number of tenths. -/
theorem value_tenths (negative : Bool) (c : ℕ) :
    (⟨negative, c, -1⟩ : FiniteDecimal).value = if negative then -((c : ℚ) / 10) else c / 10 := by
  unfold FiniteDecimal.value
  cases negative <;> norm_num <;> ring

theorem abs_value_tenths (negative : Bool) (c : ℕ) :
    |(⟨negative, c, -1⟩ : FiniteDecimal).value| = c / 10 := by
  have hnonneg : (0 : ℚ) ≤ c / 10 := by positivity
  rw [value_tenths]
  cases negative
  · exact abs_of_nonneg hnonneg
  · rw [if_pos rfl, abs_neg, abs_of_nonneg hnonneg]

theorem roundHalfEven_tenths (c : ℕ) : roundHalfEven ((c : ℚ) / 10 * 10) = c := by
  rw [div_mul_cancel₀ _ (by norm_num)]
  exact_mod_cast roundHalfEven_intCast c

/-- The phrase of a move that is shown. -/
theorem currencyMovePhrase_eq {negative : Bool} {c : ℕ} (hc : c < 10 ^ 28) (base : String) :
    currencyMovePhrase base ⟨negative, c, -1⟩ =
      .ok (if 0 < (⟨negative, c, -1⟩ : FiniteDecimal).value then
          s!"{base} weakened {(⟨false, c, -1⟩ : FiniteDecimal).str}%"
        else if (⟨negative, c, -1⟩ : FiniteDecimal).value < 0 then
          s!"{base} strengthened {(⟨false, c, -1⟩ : FiniteDecimal).str}%"
        else s!"{base} flat") := by
  have hexact : Exact ((c : ℚ) / 10) := by
    refine exact_of_int c (-1) ?_ (by norm_num) ?_
    · rw [Nat.abs_cast]
      exact_mod_cast hc.le
    · norm_num
      ring
  have hfix : fix ((c : ℚ) / 10) = .ok (c / 10) := by
    have hsize : |(c : ℚ) / 10| ≤ 10 ^ 28 := by
      rw [abs_of_nonneg (by positivity)]
      have : (c : ℚ) < 10 ^ 28 := by exact_mod_cast hc
      linarith
    rw [fix_eq_ok_of_abs_le hsize, rounded_eq_of_exact hexact]
  have hquantize : (Number.finite ((c : ℚ) / 10)).quantize = .ok ⟨false, c, -1⟩ := by
    have hnonneg : (0 : ℚ) ≤ c / 10 := by positivity
    rw [quantize_eq_ok_iff, abs_of_nonneg hnonneg, roundHalfEven_tenths, Int.toNat_natCast]
    refine ⟨hc, ?_⟩
    simp [not_lt.mpr hnonneg]
  unfold currencyMovePhrase
  rw [abs_value_tenths, hfix]
  simp only [Bind.bind, Except.bind, hquantize]
  split_ifs <;> rfl

/-- What has been shown of a quotient is its return, which is below the limit. -/
theorem Grid.of_quantize {x : ℚ} {n : Number} {d : FiniteDecimal} (h : Grid x)
    (hn : returnOf (.finite x) = .ok n) (hd : n.quantize = .ok d) : x < 10 ^ 25 + 1 ∧ d = shown x := by
  have hlt : x < 10 ^ 25 + 1 := lt_of_not_ge fun hx => quantize_returnOf_ne_ok hx hn hd
  obtain ⟨hn', hd'⟩ := h.quantize_returnOf hlt
  cases hn.symm.trans hn'
  exact ⟨hlt, Except.ok.inj (hd.symm.trans hd')⟩

theorem coefficient_lt {x : ℚ} (h : Grid x) (hx : x < 10 ^ 25 + 1) : (shown x).coefficient < 10 ^ 28 :=
  (quantize_eq_ok_iff.mp (h.quantize_returnOf hx).2).1

/-- The returns are shown exactly when all three quotients are below the limit. -/
theorem attribution_eq_ok_iff (hr : Grid r) (hs : Grid s) :
    attribution label native base (.finite r) (.finite s) = .ok a ↔
      (r < 10 ^ 25 + 1 ∧ s < 10 ^ 25 + 1 ∧ rounded (r * s) < 10 ^ 25 + 1) ∧
        ∃ phrase, currencyMovePhrase base (shown s) = .ok phrase ∧
          a = ⟨shown r, shown s, shown (rounded (r * s)),
            formatNote label native base phrase (shown r) (shown (rounded (r * s)))⟩ := by
  have hprod : Grid (rounded (r * s)) := grid_rounded (mul_nonneg hr.nonneg hs.nonneg)
  unfold attribution
  constructor
  · intro h
    obtain ⟨stockReturn, hstock, h⟩ := Loop.of_bind_eq_ok h
    obtain ⟨fxImpact, hfx, h⟩ := Loop.of_bind_eq_ok h
    obtain ⟨product, hproduct, h⟩ := Loop.of_bind_eq_ok h
    obtain ⟨baseReturn, hbase, h⟩ := Loop.of_bind_eq_ok h
    obtain ⟨stockDisp, hstockDisp, h⟩ := Loop.of_bind_eq_ok h
    obtain ⟨fxDisp, hfxDisp, h⟩ := Loop.of_bind_eq_ok h
    obtain ⟨baseDisp, hbaseDisp, h⟩ := Loop.of_bind_eq_ok h
    obtain ⟨phrase, hphrase, h⟩ := Loop.of_bind_eq_ok h
    obtain ⟨y, hy, rfl⟩ := Loop.of_map_eq_ok hproduct
    obtain rfl := (fix_eq_ok_iff.mp hy).2
    obtain ⟨hstockLt, rfl⟩ := hr.of_quantize hstock hstockDisp
    obtain ⟨hfxLt, rfl⟩ := hs.of_quantize hfx hfxDisp
    obtain ⟨hbaseLt, rfl⟩ := hprod.of_quantize hbase hbaseDisp
    exact ⟨⟨hstockLt, hfxLt, hbaseLt⟩, phrase, hphrase, (Except.ok.inj h).symm⟩
  · rintro ⟨⟨hstockLt, hfxLt, hbaseLt⟩, phrase, hphrase, rfl⟩
    obtain ⟨hstock, hstockDisp⟩ := hr.quantize_returnOf hstockLt
    obtain ⟨hfx, hfxDisp⟩ := hs.quantize_returnOf hfxLt
    obtain ⟨hbase, hbaseDisp⟩ := hprod.quantize_returnOf hbaseLt
    have hfix : fix (r * s) = .ok (rounded (r * s)) := by
      refine fix_eq_ok_of_abs_le ?_
      have hlt := rounded_lt_limit_iff.mp hbaseLt
      unfold tooLarge at hlt
      rw [abs_of_nonneg (mul_nonneg hr.nonneg hs.nonneg)]
      linarith
    have hproduct : (Number.finite r).multiply (.finite s) = .ok (.finite (rounded (r * s))) := by
      unfold Number.multiply
      simp only [hfix, Functor.map, Except.map]
    simp only [hstock, hfx, hproduct, hbase, hstockDisp, hfxDisp, hbaseDisp, hphrase, Bind.bind,
      Except.bind, pure, Except.pure]

/-! ## Texts -/

theorem readsMagnitude_oneDecimal (c : ℕ) : ReadsMagnitude (oneDecimal c) (c / 10) := by
  have htenth : Nat.toDigits 10 (c % 10) = [(c % 10).digitChar] :=
    Nat.toDigits_of_lt_base (Nat.mod_lt _ (by norm_num))
  refine ⟨Nat.toDigits 10 (c / 10), (c % 10).digitChar, ?_, Nat.toDigits_ne_nil, ?_, ?_⟩
  · unfold oneDecimal
    rw [htenth]
  · intro d hd
    rw [← htenth, List.mem_append] at hd
    exact hd.elim NumberTexts.isDigit_of_mem_toDigits NumberTexts.isDigit_of_mem_toDigits
  · have hvalue : Nat.ofDigitChars 10 (Nat.toDigits 10 (c / 10) ++ [(c % 10).digitChar]) 0 = c := by
      have hsplit := Nat.toDigits_append_toDigits (b := 10) (n := c / 10) (d := c % 10)
      rw [← htenth]
      rcases Nat.eq_zero_or_pos (c / 10) with hzero | hpos
      · rw [hzero, Nat.toDigits_zero, Nat.ofDigitChars_append]
        change Nat.ofDigitChars 10 (Nat.toDigits 10 (c % 10)) 0 = c
        rw [Nat.ofDigitChars_ten_toDigits]
        omega
      · rw [hsplit (by norm_num) hpos (Nat.mod_lt _ (by norm_num)), Nat.ofDigitChars_ten_toDigits]
        omega
    rw [hvalue]

/-- `str` of a number of tenths. -/
theorem str_tenths (c : ℕ) : (⟨false, c, -1⟩ : FiniteDecimal).str.toList = oneDecimal c := by
  have hlength : 0 < (Nat.toDigits 10 c).length := Nat.length_toDigits_pos
  have htenth : Nat.toDigits 10 (c % 10) = [(c % 10).digitChar] :=
    Nat.toDigits_of_lt_base (Nat.mod_lt _ (by norm_num))
  have hparts : FiniteDecimal.parts ⟨false, c, -1⟩ =
      ⟨Nat.toDigits 10 (c / 10), Nat.toDigits 10 (c % 10), none⟩ := by
    unfold FiniteDecimal.parts FiniteDecimal.placePoint
    dsimp only
    have hdot : (if (-1 : ℤ) ≤ 0 ∧ -6 < -1 + ((Nat.toDigits 10 c).length : ℤ) then
        -1 + ((Nat.toDigits 10 c).length : ℤ) else 1) = -1 + (Nat.toDigits 10 c).length :=
      if_pos (by omega)
    rw [hdot]
    rcases Nat.lt_or_ge c 10 with hlt | hge
    · have hone : Nat.toDigits 10 c = [c.digitChar] := Nat.toDigits_of_lt_base hlt
      rw [hone, Nat.div_eq_of_lt hlt, Nat.mod_eq_of_lt hlt, hone, Nat.toDigits_zero]
      rfl
    · -- the point stands before the last digit
      have hsplit : Nat.toDigits 10 c = Nat.toDigits 10 (c / 10) ++ [(c % 10).digitChar] :=
        Nat.toDigits_of_base_le (by norm_num) hge
      have hpos : 0 < (Nat.toDigits 10 (c / 10)).length := Nat.length_toDigits_pos
      have hleft : (-1 + ((Nat.toDigits 10 c).length : ℤ)) = (Nat.toDigits 10 (c / 10)).length := by
        rw [hsplit, List.length_append, List.length_singleton]
        push_cast
        ring
      rw [hleft, if_neg (by omega), if_neg (by omega), Int.toNat_natCast, hsplit, htenth,
        List.take_left, List.drop_left, if_pos rfl]
  unfold FiniteDecimal.str oneDecimal NumberTexts.NumberText.chars NumberTexts.NumberText.fractionChars
    NumberTexts.NumberText.exponentChars
  rw [String.toList_ofList, hparts, if_neg Bool.false_ne_true, if_neg Nat.toDigits_ne_nil]
  simp

/-- A phrase says what it shows. -/
theorem currencyMovePhrase_says {negative : Bool} {c : ℕ} {phrase : String} (hc : c < 10 ^ 28)
    (h : currencyMovePhrase base ⟨negative, c, -1⟩ = .ok phrase) :
    PhraseSays phrase base (⟨negative, c, -1⟩ : FiniteDecimal).value := by
  rw [currencyMovePhrase_eq hc] at h
  obtain rfl := Except.ok.inj h
  have hreads : ReadsMagnitude (⟨false, c, -1⟩ : FiniteDecimal).str.toList
      |(⟨negative, c, -1⟩ : FiniteDecimal).value| := by
    rw [str_tenths, abs_value_tenths]
    exact readsMagnitude_oneDecimal c
  constructor
  · intro hpos
    rw [if_pos hpos]
    exact ⟨_, rfl, hreads⟩
  · intro hneg
    rw [if_neg (not_lt.mpr hneg.le), if_pos hneg]
    exact ⟨_, rfl, hreads⟩
  · intro hzero
    rw [hzero, if_neg (lt_irrefl _), if_neg (lt_irrefl _)]

/-- A percentage says what it shows, but for a negative zero, which gets two signs. -/
theorem fmtPct_reads_iff (negative : Bool) (c : ℕ) :
    ReadsPct (fmtPct ⟨negative, c, -1⟩) (⟨negative, c, -1⟩ : FiniteDecimal).value ↔
      ¬ (negative = true ∧ c = 0) := by
  have htext : (fmtPct ⟨negative, c, -1⟩).toList =
      (if 0 ≤ (⟨negative, c, -1⟩ : FiniteDecimal).value then ['+'] else []) ++
        ((if negative then ['-'] else []) ++ oneDecimal c) ++ ['%'] := by
    unfold fmtPct fixedText
    rw [String.toList_ofList, abs_value_tenths, roundHalfEven_tenths, Int.toNat_natCast]
  unfold ReadsPct
  rw [htext, value_tenths]
  cases negative with
  | false =>
    refine iff_of_true ⟨false, oneDecimal c, c / 10, ?_, readsMagnitude_oneDecimal c, rfl⟩ (by simp)
    rw [if_neg Bool.false_ne_true, if_pos (by positivity)]
    rfl
  | true =>
    rcases Nat.eq_zero_or_pos c with rfl | hpos
    · refine iff_of_false ?_ (by simp)
      rintro ⟨negative, unsigned, magnitude, heq, ⟨digits, tenth, rfl, hne, hdigits, -⟩, -⟩
      obtain ⟨digit, digits, rfl⟩ := List.exists_cons_of_ne_nil hne
      -- the second sign stands where a digit has to stand
      rw [if_pos rfl, if_pos (by norm_num)] at heq
      have hminus : digit = '-' := (List.cons.inj (List.cons.inj heq).2).1.symm
      have := hdigits digit (by simp)
      rw [hminus] at this
      exact absurd this (by decide)
    · have hc : (0 : ℚ) < c := by exact_mod_cast hpos
      refine iff_of_true ⟨true, oneDecimal c, c / 10, ?_, readsMagnitude_oneDecimal c, rfl⟩ ?_
      · rw [if_pos rfl, if_neg (by rw [not_le]; linarith)]
        rfl
      · rintro ⟨-, rfl⟩
        exact lt_irrefl _ hpos

end Shown

/-! ## Quotients -/

/-- A positive number, or the positive infinity. -/
def Positive : Number → Prop
  | .finite x => 0 < x
  | .infinity negative => negative = false

/-- The exact quotient of positive numbers, when it is finite. -/
def quotient : Number → Number → Option ℚ
  | .finite x, .finite y => some (x / y)
  | .finite _, .infinity _ => some 0
  | .infinity _, _ => none

/-- The returns of two quotients, and of their product, can be shown. -/
structure Shows (stock fx : ℚ) : Prop where
  ofStock : stock < tooLarge
  ofFx : fx < tooLarge
  ofBase : rounded stock * rounded fx < tooLarge

section Quotients

variable {a b n : Number} {q c f : ℚ} {label native base : String} {price atOpen : Number}
  {out : FxAttribution}

theorem quotient_nonneg (ha : Positive a) (hb : Positive b) (h : quotient a b = some q) : 0 ≤ q := by
  cases a with
  | infinity negative => cases h
  | finite x =>
    cases b with
    | infinity negative => exact (Option.some_inj.mp h).le
    | finite y =>
      obtain rfl := Option.some_inj.mp h
      exact (div_pos ha hb).le

theorem divide_of_quotient (ha : Positive a) (hb : Positive b) (h : quotient a b = some q)
    (hq : q < tooLarge) : a.divide b = .ok (.finite (rounded q)) := by
  have hnonneg := quotient_nonneg ha hb h
  cases a with
  | infinity negative => cases h
  | finite x =>
    cases b with
    | infinity negative =>
      obtain rfl := Option.some_inj.mp h
      rw [rounded_eq_of_exact exact_zero]
      rfl
    | finite y =>
      obtain rfl := Option.some_inj.mp h
      have hsize : |x / y| ≤ 10 ^ 28 := by
        unfold tooLarge at hq
        rw [abs_of_nonneg hnonneg]
        linarith
      have hy : y ≠ 0 := ne_of_gt hb
      rw [Number.divide_finite hy, fix_eq_ok_of_abs_le hsize]
      rfl

theorem of_divide (ha : Positive a) (hb : Positive b) (h : a.divide b = .ok n) :
    (∃ q, quotient a b = some q ∧ n = .finite (rounded q)) ∨
      (quotient a b = none ∧ n = .infinity false) := by
  cases a with
  | infinity negative =>
    obtain rfl : negative = false := ha
    cases b with
    | infinity negative => cases h
    | finite y =>
      cases h
      exact .inr ⟨rfl, by simp [not_lt.mpr (le_of_lt (show 0 < y from hb))]⟩
  | finite x =>
    cases b with
    | infinity negative =>
      cases h
      exact .inl ⟨0, rfl, by rw [rounded_eq_of_exact exact_zero]⟩
    | finite y =>
      have hy : y ≠ 0 := ne_of_gt hb
      rw [Number.divide_finite hy] at h
      obtain ⟨r, hr, rfl⟩ := Loop.of_map_eq_ok h
      exact .inl ⟨_, rfl, by rw [(fix_eq_ok_iff.mp hr).2]⟩

/-- The return of an infinite quotient is not shown. -/
theorem attribution_infinity_ne_ok (negative : Bool) (fx : Number) :
    attribution label native base (.infinity negative) fx ≠ .ok out := by
  intro h
  unfold attribution at h
  obtain ⟨stockReturn, hstock, h⟩ := Loop.of_bind_eq_ok h
  obtain ⟨_, -, h⟩ := Loop.of_bind_eq_ok h
  obtain ⟨_, -, h⟩ := Loop.of_bind_eq_ok h
  obtain ⟨_, -, h⟩ := Loop.of_bind_eq_ok h
  obtain ⟨_, hdisp, -⟩ := Loop.of_bind_eq_ok h
  unfold returnOf at hstock
  obtain ⟨m, hm, hstock⟩ := Loop.of_bind_eq_ok hstock
  cases hm
  rw [Number.multiply_infinity (by norm_num)] at hstock
  cases hstock
  cases hdisp

/-- What is shown of positive numbers, and when. -/
theorem attributionOf_eq_ok_iff (hc : 0 < c) (hf : 0 < f) (hprice : Positive price)
    (hopen : Positive atOpen) :
    attributionOf label native base (.finite c) price atOpen (.finite f) = .ok out ↔
      ∃ stock fx, quotient price (.finite c) = some stock ∧ quotient (.finite f) atOpen = some fx ∧
        Shows stock fx ∧
        ∃ phrase, currencyMovePhrase base (shown (rounded fx)) = .ok phrase ∧
          out = ⟨shown (rounded stock), shown (rounded fx),
            shown (rounded (rounded stock * rounded fx)),
            formatNote label native base phrase (shown (rounded stock))
              (shown (rounded (rounded stock * rounded fx)))⟩ := by
  unfold attributionOf
  constructor
  · intro h
    obtain ⟨stockRatio, hstock, h⟩ := Loop.of_bind_eq_ok h
    obtain ⟨fxRatio, hfx, h⟩ := Loop.of_bind_eq_ok h
    rw [Raises.mapError_eq_ok] at hstock hfx h
    obtain ⟨fx, hfxq, rfl⟩ := (of_divide (a := .finite f) hf hopen hfx).resolve_right fun h => by
      cases atOpen <;> cases h.1
    rcases of_divide (b := .finite c) hprice hc hstock with ⟨stock, hquotient, rfl⟩ | ⟨-, rfl⟩
    · have hgrid := grid_rounded (quotient_nonneg (b := .finite c) hprice hc hquotient)
      have hgrid' := grid_rounded (quotient_nonneg (a := .finite f) hf hopen hfxq)
      obtain ⟨⟨hr, hs, hrs⟩, hphrase⟩ := (attribution_eq_ok_iff hgrid hgrid').mp h
      rw [rounded_lt_limit_iff] at hr hs hrs
      exact ⟨stock, fx, hquotient, hfxq, ⟨hr, hs, hrs⟩, hphrase⟩
    · exact absurd h (attribution_infinity_ne_ok _ _)
  · rintro ⟨stock, fx, hstock, hfx, ⟨hr, hs, hrs⟩, hphrase⟩
    have hgrid := grid_rounded (quotient_nonneg (b := .finite c) hprice hc hstock)
    have hgrid' := grid_rounded (quotient_nonneg (a := .finite f) hf hopen hfx)
    rw [divide_of_quotient (b := .finite c) hprice hc hstock hr,
      divide_of_quotient (a := .finite f) hf hopen hfx hs]
    refine Raises.mapError_eq_ok.mpr ((attribution_eq_ok_iff hgrid hgrid').mpr ⟨⟨?_, ?_, ?_⟩, hphrase⟩)
    · exact rounded_lt_limit_iff.mpr hr
    · exact rounded_lt_limit_iff.mpr hs
    · exact rounded_lt_limit_iff.mpr hrs

/-- There is a phrase for the move of every rate that can be shown. -/
theorem exists_phrase {fx : ℚ} (hnonneg : 0 ≤ fx) (hfx : fx < tooLarge) (base : String) :
    ∃ phrase, currencyMovePhrase base (shown (rounded fx)) = .ok phrase :=
  ⟨_, currencyMovePhrase_eq (coefficient_lt (grid_rounded hnonneg) (rounded_lt_limit_iff.mpr hfx)) _⟩

theorem exists_attributionOf_iff (label native base : String) (hc : 0 < c) (hf : 0 < f)
    (hprice : Positive price) (hopen : Positive atOpen) :
    (∃ out, attributionOf label native base (.finite c) price atOpen (.finite f) = .ok out) ↔
      ∃ stock fx, quotient price (.finite c) = some stock ∧ quotient (.finite f) atOpen = some fx ∧
        Shows stock fx := by
  simp only [attributionOf_eq_ok_iff hc hf hprice hopen]
  constructor
  · rintro ⟨out, stock, fx, hstock, hfx, hshows, -⟩
    exact ⟨stock, fx, hstock, hfx, hshows⟩
  · rintro ⟨stock, fx, hstock, hfx, hshows⟩
    obtain ⟨phrase, hphrase⟩ :=
      exists_phrase (quotient_nonneg (a := .finite f) hf hopen hfx) hshows.ofFx base
    exact ⟨_, stock, fx, hstock, hfx, hshows, phrase, hphrase, rfl⟩

end Quotients

/-! ## Main result -/

/-- A quotient that is rounded to a loss of at most 0.05 per cent. -/
def SmallLoss (x : ℚ) : Prop := 9995 / 10000 - 5 / 10 ^ 29 ≤ x ∧ x < 1 - 5 / 10 ^ 29

/-- A return is read back unless it is a small loss. -/
theorem shown_reads_iff {x : ℚ} (hx : 0 ≤ x) :
    ReadsPct (fmtPct (shown (rounded x))) (shown (rounded x)).value ↔ ¬ SmallLoss x := by
  have hgrid := grid_rounded hx
  have hzero : (shown (rounded x)).negative = true ∧ (shown (rounded x)).coefficient = 0 ↔ SmallLoss x := by
    unfold shown SmallLoss
    dsimp only
    rw [decide_eq_true_iff, hgrid.percentReturn_neg_iff, ← rounded_lt_one_iff, ← flat_le_rounded_iff,
      ← hgrid.flat_iff, and_comm (a := -(1 / 20) ≤ _)]
    refine and_congr_right fun hlt => ?_
    have hneg := hgrid.percentReturn_neg_iff.mpr hlt
    rw [abs_of_neg hneg, Int.toNat_eq_zero, ← Int.cast_zero (R := ℤ), Int.cast_id,
      roundHalfEven_le_iff_of_even (by norm_num), Int.cast_zero]
    constructor <;> intro h <;> linarith
  rw [← hzero]
  exact fmtPct_reads_iff (shown (rounded x)).negative (shown (rounded x)).coefficient

/-- A `Decimal` that is finite. -/
def finiteDecimal (d : FiniteDecimal) : PyDecimal := .finite d.negative d.coefficient d.exponent

theorem checkPositive_finiteDecimal {d : FiniteDecimal} (hd : 0 < d.value) (name : String) :
    checkPositive name (finiteDecimal d) = .ok (.finite d.value) := if_neg (not_le.mpr hd)

/-- The note of a position in another currency can be read back exactly when its returns can be shown and
    neither the return of the price nor that in the base currency is a small loss. -/
theorem note_reads_iff (upper : String → String) (cost price atOpen current : FiniteDecimal)
    (nativeCcy baseCcy : String) (symbol : Option String) (hccy : upper nativeCcy ≠ upper baseCcy)
    (hcost : 0 < cost.value) (hprice : 0 < price.value) (hopen : 0 < atOpen.value)
    (hcurrent : 0 < current.value) :
    (∃ a, computeFxAttribution upper (finiteDecimal cost) (finiteDecimal price) nativeCcy baseCcy
        (finiteDecimal atOpen) (finiteDecimal current) symbol = .ok (some a) ∧
      a.Readable ((symbol.filter (· ≠ "")).getD "Position") (upper nativeCcy) (upper baseCcy)) ↔
      Shows (price.value / cost.value) (current.value / atOpen.value) ∧
        ¬ SmallLoss (price.value / cost.value) ∧
        ¬ SmallLoss (rounded (price.value / cost.value) * rounded (current.value / atOpen.value)) := by
  have hstock : (0 : ℚ) ≤ price.value / cost.value := (div_pos hprice hcost).le
  have hfx : (0 : ℚ) ≤ current.value / atOpen.value := (div_pos hcurrent hopen).le
  have hbase := mul_nonneg (grid_rounded hstock).nonneg (grid_rounded hfx).nonneg
  have hcompute : ∀ a, computeFxAttribution upper (finiteDecimal cost) (finiteDecimal price) nativeCcy
      baseCcy (finiteDecimal atOpen) (finiteDecimal current) symbol = .ok (some a) ↔
        attributionOf ((symbol.filter (· ≠ "")).getD "Position") (upper nativeCcy) (upper baseCcy)
          (.finite cost.value) (.finite price.value) (.finite atOpen.value) (.finite current.value) =
            .ok a := by
    intro a
    unfold computeFxAttribution
    rw [if_neg hccy, checkPositive_finiteDecimal hcost, checkPositive_finiteDecimal hprice,
      checkPositive_finiteDecimal hopen, checkPositive_finiteDecimal hcurrent]
    constructor
    · intro h
      obtain ⟨b, hb, h⟩ := Loop.of_map_eq_ok h
      cases h
      exact hb
    · intro h
      exact congrArg (some <$> ·) h
  have hprice' : Positive (.finite price.value) := hprice
  have hopen' : Positive (.finite atOpen.value) := hopen
  simp only [hcompute, attributionOf_eq_ok_iff hcost hcurrent hprice' hopen']
  rw [← shown_reads_iff hstock, ← shown_reads_iff hbase]
  constructor
  · rintro ⟨a, ⟨stock, fx, hs, hf, hshows, phrase, -, rfl⟩, hread⟩
    obtain rfl := Option.some_inj.mp hs
    obtain rfl := Option.some_inj.mp hf
    exact ⟨hshows, hread.stock, hread.base⟩
  · rintro ⟨hshows, hread, hread'⟩
    have hlt := coefficient_lt (grid_rounded hfx) (rounded_lt_limit_iff.mpr hshows.ofFx)
    obtain ⟨phrase, hphrase⟩ := exists_phrase hfx hshows.ofFx (upper baseCcy)
    exact ⟨_, ⟨_, _, rfl, rfl, hshows, phrase, hphrase, rfl⟩,
      ⟨⟨phrase, rfl, currencyMovePhrase_says hlt hphrase⟩, hread, hread'⟩⟩

theorem note_reads_iff_sample :
    ∃ a, computeFxAttribution id (finiteDecimal ⟨false, 150, 0⟩) (finiteDecimal ⟨false, 162, 0⟩) "USD" "INR"
        (finiteDecimal ⟨false, 8200, -2⟩) (finiteDecimal ⟨false, 8446, -2⟩) (some "AAPL") = .ok (some a) ∧
      a.Readable "AAPL" "USD" "INR" := by
  refine (note_reads_iff id ⟨false, 150, 0⟩ ⟨false, 162, 0⟩ ⟨false, 8200, -2⟩ ⟨false, 8446, -2⟩ "USD" "INR"
    (some "AAPL") (by decide) (by decide +kernel) (by decide +kernel) (by decide +kernel)
    (by decide +kernel)).mpr ⟨⟨?_, ?_, ?_⟩, ?_, ?_⟩
  · unfold tooLarge; decide +kernel
  · unfold tooLarge; decide +kernel
  · unfold tooLarge; decide +kernel
  · unfold SmallLoss; decide +kernel
  · unfold SmallLoss; decide +kernel

/-- A price that has lost a thousandth of a per cent. -/
theorem smallLoss_has_two_signs :
    ∃ a, computeFxAttribution id (finiteDecimal ⟨false, 10000, 0⟩) (finiteDecimal ⟨false, 99999, -1⟩)
        "USD" "INR" (finiteDecimal ⟨false, 82, 0⟩) (finiteDecimal ⟨false, 82, 0⟩) (some "AAPL") =
          .ok (some a) ∧
      a.noteText = "AAPL +-0.0% USD, INR flat, your INR return: +-0.0%" ∧
      ¬ a.Readable "AAPL" "USD" "INR" := by
  refine ⟨⟨⟨true, 0, -1⟩, ⟨false, 0, -1⟩, ⟨true, 0, -1⟩,
    "AAPL +-0.0% USD, INR flat, your INR return: +-0.0%"⟩, by decide +kernel, rfl, fun hread => ?_⟩
  exact (fmtPct_reads_iff true 0).mp hread.stock ⟨rfl, rfl⟩

end Nivara.Intelligence
