import Nivara.Analysis.OverallScores
import Nivara.MarketData.CompanyFacts

/-!
# Debt health and the sign of the equity

Two companies that differ in their equity, reduced (`data/edgar.py`, lines 388–447) and scored
(`analysis/fundamental.py`, lines 150–192): the ratio of a positive debt to the equity falls as the equity
rises, but from a negative equity to a positive one it rises.

* The arithmetic of the reduction is that of `Decimal`; that of the scores is exact.

Results:

* `debtScore_anti`: a higher ratio has no higher score.
* `debtScore_eq_iff`: which quotients have the score of a negative one.
* `debtHealth_iff`: a higher equity never has a lower score exactly when both have one sign, or the ratio
  to the positive one is next to nothing.
-/

namespace Nivara.Analysis

open MarketData

/-! ## The ratio -/

theorem quantize_eq {x q : ℚ} (h : quantize x = some q) :
    q = Decimal.roundHalfEven (x * 10 ^ 4) / 10 ^ 4 := by
  unfold quantize at h
  dsimp only at h
  split_ifs at h
  exact (Option.some.inj h).symm

theorem quantize_mono {x y q r : ℚ} (hq : quantize x = some q) (hr : quantize y = some r) (hle : x ≤ y) :
    q ≤ r := by
  rw [quantize_eq hq, quantize_eq hr]
  have hround : Decimal.roundHalfEven (x * 10 ^ 4) ≤ Decimal.roundHalfEven (y * 10 ^ 4) :=
    Decimal.roundHalfEven_mono (by linarith)
  exact div_le_div_of_nonneg_right (Int.cast_le.mpr hround) (by norm_num)

/-- A tie is rounded down to the hundredth. -/
theorem quantize_le_iff {x q : ℚ} (hq : quantize x = some q) : q ≤ 1 / 100 ↔ x ≤ 1005 / 10 ^ 5 := by
  have hround : q ≤ 1 / 100 ↔ Decimal.roundHalfEven (x * 10 ^ 4) ≤ 100 := by
    rw [quantize_eq hq, div_le_iff₀ (by norm_num), ← Int.cast_le (R := ℚ)]
    norm_num
  rw [hround, Decimal.roundHalfEven_le_iff_of_even (by norm_num)]
  push_cast
  constructor <;> intro h <;> linarith

/-- The quotient that the context rounds to at most 0.01005. -/
theorem divide_le_iff {d e : ℚ} (h : 0 < d / e) :
    Decimal.divide d e ≤ 1005 / 10 ^ 5 ↔ d / e ≤ 1005 / 10 ^ 5 + 5 / 10 ^ 30 := by
  have hulp : Decimal.ulp (1005 / 10 ^ 5) = 1 / 10 ^ 29 := by decide +kernel
  have hrep : Decimal.Representable (1005 / 10 ^ 5) := ⟨1005 * 10 ^ 24, by rw [hulp]; norm_num⟩
  unfold Decimal.divide
  rcases le_or_gt (d / e) (1005 / 10 ^ 5) with hle | hlt
  · exact iff_of_true (Decimal.inContext_le_of_le h hrep hle) (hle.trans (by norm_num))
  · have hgap := Decimal.inContext_add_le_iff (y := 1005 / 10 ^ 5) (by norm_num) hrep (sub_pos.mpr hlt)
    have heven : ⌊(1005 / 10 ^ 5 : ℚ) / (1 / 10 ^ 29)⌋ % 2 = 0 := by decide +kernel
    rw [add_sub_cancel] at hgap
    rw [hgap, Decimal.WithinHalf, hulp, and_iff_left heven, ← le_iff_lt_or_eq]
    constructor <;> intro hle <;> linarith

/-! ## The score -/

/-- The score of a ratio. -/
def debtScore (ratio : ℚ) : ℤ := scoreFromRange ratio (thresholds .debtHealth)

theorem debtScore_eq (ratio : ℚ) :
    debtScore ratio = Decimal.roundHalfEven ((1 - max 0 (min 1 (ratio / 2))) * 100) := by
  unfold debtScore scoreFromRange thresholds
  norm_num

/-- A higher ratio has no higher score. -/
theorem debtScore_anti {q r : ℚ} (h : q ≤ r) : debtScore r ≤ debtScore q := by
  have hpct : max 0 (min 1 (q / 2)) ≤ max 0 (min 1 (r / 2)) :=
    max_le_max le_rfl (min_le_min le_rfl (by linarith))
  rw [debtScore_eq, debtScore_eq]
  exact Decimal.roundHalfEven_mono (by linarith)

theorem debtScore_le (q : ℚ) : debtScore q ≤ 100 := (scoreFromRange_mem q _).2

/-- The full score is that of the ratios up to a hundredth. -/
theorem debtScore_full_iff {q : ℚ} : 100 ≤ debtScore q ↔ q ≤ 1 / 100 := by
  rw [debtScore_eq, Decimal.le_roundHalfEven_iff_of_even (by norm_num)]
  have hpct : max 0 (min 1 (q / 2)) ≤ 1 / 200 ↔ q ≤ 1 / 100 := by
    rw [max_le_iff, min_le_iff]
    constructor
    · rintro ⟨-, h | h⟩ <;> linarith
    · intro h
      exact ⟨by norm_num, .inr (by linarith)⟩
  rw [← hpct]
  push_cast
  constructor <;> intro h <;> linarith

/-- Which quotients have the score of a negative one. -/
theorem debtScore_of_neg {d e q : ℚ} (h : d / e < 0) (hq : quantize (Decimal.divide d e) = some q) :
    debtScore q = 100 := by
  have hle : Decimal.divide d e ≤ 0 := Decimal.inContext_nonpos h.le
  exact le_antisymm (debtScore_le q)
    (debtScore_full_iff.mpr ((quantize_le_iff hq).mpr (hle.trans (by norm_num))))

/-- The score does not fall from the first equity to the second exactly when their signs agree, or the
    second has the full score. -/
theorem debtScore_le_iff {d e e' q q' : ℚ} (hd : 0 < d) (hlt : e < e') (hne : e ≠ 0) (hne' : e' ≠ 0)
    (hq : quantize (Decimal.divide d e) = some q) (hq' : quantize (Decimal.divide d e') = some q') :
    debtScore q ≤ debtScore q' ↔ 0 < e ∨ e' < 0 ∨ d / e' ≤ 1005 / 10 ^ 5 + 5 / 10 ^ 30 := by
  rcases hne.lt_or_gt with hneg | hpos
  · rw [debtScore_of_neg (div_neg_of_pos_of_neg hd hneg) hq, or_iff_right hneg.not_gt]
    rcases hne'.lt_or_gt with hneg' | hpos'
    · exact iff_of_true (debtScore_of_neg (div_neg_of_pos_of_neg hd hneg') hq').ge (.inl hneg')
    · rw [or_iff_right hpos'.not_gt, debtScore_full_iff, quantize_le_iff hq',
        divide_le_iff (div_pos hd hpos')]
  · have hpos' : 0 < e' := hpos.trans hlt
    have hquotient : d / e' ≤ d / e := div_le_div_of_nonneg_left hd.le hpos hlt.le
    have hcontext : Decimal.divide d e' ≤ Decimal.divide d e :=
      Decimal.inContext_mono (div_pos hd hpos') hquotient
    exact iff_of_true (debtScore_anti (quantize_mono hq' hq hcontext)) (.inl hpos)

/-! ## Two companies -/

/-- A score is at most another, where both are there. -/
def NotHigher (score score' : Option ℤ) : Prop := ∀ x ∈ score, ∀ y ∈ score', x ≤ y

theorem rel_refl (o : Option ℤ) : Option.Rel (· ≤ ·) o o := by
  cases o with
  | none => exact .none
  | some _ => exact .some le_rfl

variable {F : Type} {f : Floats F} {containerText : Json F → PyStr} {facts facts' : Json F} {d e e' : ℚ}
  {r r' : EdgarFundamentals}

/-- From an equity to a higher one neither the score of the debt nor the composite falls, exactly when both
    equities have one sign, or the debt is at most about a hundredth of a positive one. -/
theorem debtHealth_iff (price : Option ℚ) (h : EquityDiffers f containerText facts facts' d e e')
    (hd : 0 < d)
    (hlt : e < e') (hne : e ≠ 0) (hne' : e' ≠ 0) (hr : reduceCompanyFacts f containerText facts = .ok r)
    (hr' : reduceCompanyFacts f containerText facts' = .ok r') :
    (NotHigher (scoreFundamentals r price).debtHealth (scoreFundamentals r' price).debtHealth ∧
        NotHigher (scoreFundamentals r price).composite (scoreFundamentals r' price).composite) ↔
      0 < e ∨ e' < 0 ∨ d / e' ≤ 1005 / 10 ^ 5 + 5 / 10 ^ 30 := by
  obtain ⟨q, q', hq, hq', hratio, rfl⟩ := reduceCompanyFacts_of_equityDiffers h hne hne' hr hr'
  rw [← debtScore_le_iff hd hlt hne hne' hq hq']
  have hscore : fundamentalComponents r price .debtHealth = some (debtScore q) := by
    unfold fundamentalComponents
    rw [hratio]
    rfl
  constructor
  · rintro ⟨hhealth, -⟩
    exact hhealth _ hscore _ rfl
  · intro hle
    have hcomponents : ∀ k, Option.Rel (· ≤ ·) (fundamentalComponents r price k)
        (fundamentalComponents { r with debtToEquity := some q' } price k) := by
      intro k
      cases k with
      | debtHealth =>
        rw [hscore]
        exact .some hle
      | revenueGrowth | earningsTrend | peValuation | cashFlow => exact rel_refl _
    obtain ⟨v, v', hv, hv', hvle⟩ := fundamentalComposite_mono ⟨.debtHealth, _, hscore⟩ hcomponents
    refine ⟨fun x hx y hy => ?_, fun x hx y hy => ?_⟩
    · obtain rfl := Option.some.inj (hscore.symm.trans hx)
      obtain rfl : debtScore q' = y := Option.some.inj hy
      exact hle
    · obtain rfl := Option.some.inj (hv.symm.trans hx)
      obtain rfl := Option.some.inj (hv'.symm.trans hy)
      exact hvle

/-! ## A negative equity -/

/-- No doubles. -/
def noFloats : Floats Empty := ⟨Empty.elim, Empty.elim, Empty.elim⟩

/-- A concept with one annual row. -/
def annualConcept (value : ℤ) : Json Empty :=
  .obj [(py "units",
    .obj [(py "USD", .arr [.obj [(py "end", .str (py "2024-09-28")), (py "val", .int value),
    (py "fy", .int 2024), (py "form", .str (py "10-K"))]])])]

/-- A company with a debt of 10. -/
def companyFacts (equity : ℤ) : Json Empty :=
  .obj [(py "facts", .obj [(py "us-gaap",
    .obj [(py "LongTermDebt", annualConcept 10), (py "StockholdersEquity", annualConcept equity)])])]

theorem isSome_ofYmd_2024 : (Date.ofYmd 2024 9 28).isSome = true := rfl

/-- What is read of an annual row. -/
def annualObservation (negative : Bool) (value : ℕ) : Observation :=
  ⟨(Date.ofYmd 2024 9 28).get isSome_ofYmd_2024, .finite negative value 0, 2024, py "10-K"⟩

/-- Its facts reduced and scored. -/
def scored (equity : ℤ) : Except FactError FundamentalScore :=
  (reduceCompanyFacts noFloats (fun _ => []) (companyFacts equity)).map fun r => scoreFundamentals r none

/-- With an equity of 10 and with one of 20. -/
theorem debtHealth_iff_sample :
    ∃ r r', reduceCompanyFacts noFloats (fun _ => []) (companyFacts 10) = .ok r ∧
      reduceCompanyFacts noFloats (fun _ => []) (companyFacts 20) = .ok r' ∧
      NotHigher (scoreFundamentals r none).debtHealth (scoreFundamentals r' none).debtHealth := by
  have hdiffers : EquityDiffers noFloats (fun _ => []) (companyFacts 10) (companyFacts 20) 10 10 20 :=
    { usd := by decide +kernel
      eps := by decide +kernel
      debt := ⟨annualObservation false 10, by decide +kernel, by decide +kernel⟩
      equity := ⟨annualObservation false 10, by decide +kernel, by decide +kernel⟩
      equity' := ⟨annualObservation false 20, by decide +kernel, by decide +kernel⟩ }
  have hscored : scored 10 = .ok ⟨none, none, some 50, none, none, some 50⟩ := by decide +kernel
  have hscored' : scored 20 = .ok ⟨none, none, some 75, none, none, some 75⟩ := by decide +kernel
  obtain ⟨r, hr, -⟩ := Loop.of_map_eq_ok hscored
  obtain ⟨r', hr', -⟩ := Loop.of_map_eq_ok hscored'
  have hiff := debtHealth_iff none hdiffers (by norm_num) (by norm_num) (by norm_num) (by norm_num) hr hr'
  exact ⟨r, r', hr, hr', (hiff.mpr (.inl (by norm_num))).1⟩

/-- With an equity of -1 the score is 100, and with one of 1 it is 0. -/
theorem negativeEquity_scores_full :
    ∃ r r', reduceCompanyFacts noFloats (fun _ => []) (companyFacts (-1)) = .ok r ∧
      reduceCompanyFacts noFloats (fun _ => []) (companyFacts 1) = .ok r' ∧
      ¬ NotHigher (scoreFundamentals r none).debtHealth (scoreFundamentals r' none).debtHealth := by
  have hscored : scored (-1) = .ok ⟨none, none, some 100, none, none, some 100⟩ := by decide +kernel
  have hscored' : scored 1 = .ok ⟨none, none, some 0, none, none, some 0⟩ := by decide +kernel
  obtain ⟨r, hr, hscore⟩ := Loop.of_map_eq_ok hscored
  obtain ⟨r', hr', hscore'⟩ := Loop.of_map_eq_ok hscored'
  refine ⟨r, r', hr, hr', fun h => ?_⟩
  rw [hscore, hscore'] at h
  exact absurd (h 100 rfl 0 rfl) (by decide)

end Nivara.Analysis
