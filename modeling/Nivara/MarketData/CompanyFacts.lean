import Nivara.Analysis.Fundamental
import Nivara.MarketData.AnnualGrowth

/-!
# The company facts of EDGAR

`_reduce_company_facts` (`data/edgar.py`, lines 388–447): seven concepts of the company facts are
reduced to the fields that `score_fundamentals` reads.

* A `Decimal` that is not finite raises where the context traps it, or makes `EdgarFundamentals` raise a
  `ValidationError`, which is a `ValueError`; only an infinite equity does neither.
* The least and the greatest exponent of the context are not modelled.

Results:

* `debtToEquityOf_eq_ok`: the ratio of a finite debt and a finite equity.
* `reduceCompanyFacts_of_equityDiffers`: reductions of facts that differ in the equity differ in the ratio.
-/

namespace Nivara.MarketData

open Analysis (EdgarFundamentals)

/-! ## Concepts -/

/-- `_NET_INCOME_TAGS`. -/
def netIncomeTags : List String := ["NetIncomeLoss", "ProfitLoss"]

/-- `_TOTAL_DEBT_TAGS`. -/
def totalDebtTags : List String :=
  ["LongTermDebt", "LongTermDebtNoncurrent", "DebtLongtermAndShorttermCombinedAmount"]

/-- `_EQUITY_TAGS`. -/
def equityTags : List String :=
  ["StockholdersEquity", "StockholdersEquityIncludingPortionAttributableToNoncontrollingInterest"]

/-- `_OPERATING_CASH_FLOW_TAGS`. -/
def operatingCashFlowTags : List String :=
  ["NetCashProvidedByUsedInOperatingActivities", "CashFlowsFromOperatingActivities"]

/-- `_CAPEX_TAGS`. -/
def capexTags : List String :=
  ["PaymentsToAcquirePropertyPlantAndEquipment", "PaymentsToAcquireProductiveAssets"]

/-- `_EPS_TAGS`. -/
def epsTags : List String := ["EarningsPerShareBasic", "EarningsPerShareDiluted"]

/-! ## Model -/

/-- `x.quantize(Decimal("0.0001"))`; `none` is an `InvalidOperation`. -/
def quantize (x : ℚ) : Option ℚ :=
  let n := Decimal.roundHalfEven (x * 10 ^ 4)
  if n.natAbs < 10 ^ 28 then some (n / 10 ^ 4) else none

/-- `debt_to_equity` (lines 414–417) of a debt and an equity that are there. -/
def debtToEquityOf (debt equity : PyDecimal) : Except FactError (Option ℚ) :=
  match PyDecimal.rat equity with
  | some equity =>
    if equity = 0 then .ok none
    else
      match PyDecimal.rat debt with
      | some debt =>
        match quantize (Decimal.divide debt equity) with
        | some ratio => .ok (some ratio)
        | none => .error .invalidOperation
      | none =>
        match debt with
        | .nan _ false _ => .error (.python .valueError)
        | _ => .error .invalidOperation
  | none =>
    match equity, debt with
    -- a signaling NaN raises already where it is compared with 0
    | .nan _ true _, _ => .error .invalidOperation
    | _, .nan _ true _ => .error .invalidOperation
    | .infinity _, .infinity _ => .error .invalidOperation
    | .infinity _, .finite .. => .ok (some 0)
    | _, _ => .error (.python .valueError)

/-- `free_cash_flow` (lines 421–424) of an operating cash flow that is there. -/
def freeCashFlowOf (ocf : PyDecimal) (capex : Option PyDecimal) : Except FactError (Option ℚ) :=
  let outflow := capex.getD (.finite false 0 0)
  match PyDecimal.rat ocf, PyDecimal.rat outflow with
  | some ocf, some capex => .ok (some (Decimal.subtract ocf (Decimal.inContext |capex|)))
  | _, _ =>
    match ocf, outflow with
    | .nan _ true _, _ => .error .invalidOperation
    | _, .nan _ true _ => .error .invalidOperation
    | .infinity false, .infinity _ => .error .invalidOperation
    | _, _ => .error (.python .valueError)

/-- A field of `EdgarFundamentals`, which has to be finite. -/
def finiteField (value : Option PyDecimal) : Except FactError (Option ℚ) :=
  match value with
  | none => .ok none
  | some value => (PyDecimal.rat value).elim (.error (.python .valueError)) fun x => .ok (some x)

/-- The ratio, when both are there. -/
def debtToEquityField (debt equity : Option Observation) : Except FactError (Option ℚ) :=
  match debt, equity with
  | some debt, some equity => debtToEquityOf debt.value equity.value
  | _, _ => .ok none

/-- The free cash flow, when there is an operating cash flow. -/
def freeCashFlowField (ocf capex : Option Observation) : Except FactError (Option ℚ) :=
  match ocf with
  | none => .ok none
  | some ocf => freeCashFlowOf ocf.value (capex.map Observation.value)

section Model

variable {F : Type} (f : Floats F) (containerText : Json F → PyStr)

/-- `_reduce_company_facts`. -/
def reduceCompanyFacts (facts : Json F) : Except FactError EdgarFundamentals := do
  let revenueObs ← extractConcept f containerText facts revenueTags ["USD"]
  let netIncomeObs ← extractConcept f containerText facts netIncomeTags ["USD"]
  let debtObs ← extractConcept f containerText facts totalDebtTags ["USD"]
  let equityObs ← extractConcept f containerText facts equityTags ["USD"]
  let ocfObs ← extractConcept f containerText facts operatingCashFlowTags ["USD"]
  let capexObs ← extractConcept f containerText facts capexTags ["USD"]
  let epsObs ← extractConcept f containerText facts epsTags ["USD/shares"]
  let debtToEquity ← debtToEquityField (latestAnnual debtObs) (latestAnnual equityObs)
  let freeCashFlow ← freeCashFlowField (latestAnnual ocfObs) (latestAnnual capexObs)
  let revenueTtm ← finiteField ((latestAnnual revenueObs).map Observation.value)
  let revenuePriorTtm ← finiteField ((priorAnnual revenueObs).map Observation.value)
  let earningsTtm ← finiteField ((latestAnnual netIncomeObs).map Observation.value)
  let earningsPriorTtm ← finiteField ((priorAnnual netIncomeObs).map Observation.value)
  let eps ← finiteField ((latestAnnual epsObs).map Observation.value)
  return {
    revenueTtm := revenueTtm
    revenuePriorTtm := revenuePriorTtm
    earningsTtm := earningsTtm
    earningsPriorTtm := earningsPriorTtm
    peRatio := none
    debtToEquity := debtToEquity
    freeCashFlow := freeCashFlow
    eps := eps }

end Model

/-! ## The ratio -/

/-- The ratio of a finite debt and a finite equity that is not 0. -/
theorem debtToEquityOf_eq_ok {debt equity : PyDecimal} {d e : ℚ} {x : Option ℚ}
    (hd : PyDecimal.rat debt = some d)
    (he : PyDecimal.rat equity = some e) (hne : e ≠ 0) (h : debtToEquityOf debt equity = .ok x) :
    ∃ ratio, x = some ratio ∧ quantize (Decimal.divide d e) = some ratio := by
  unfold debtToEquityOf at h
  rw [he, hd] at h
  dsimp only at h
  rw [if_neg hne] at h
  split at h
  case h_1 ratio hratio =>
    obtain rfl := Except.ok.inj h
    exact ⟨ratio, rfl, hratio⟩
  case h_2 => cases h

/-! ## Reductions -/

variable {F : Type} {f : Floats F} {containerText : Json F → PyStr}

/-- The latest annual observation of a concept. -/
def latestOfConcept (f : Floats F) (containerText : Json F → PyStr) (facts : Json F) (tags : List String) :
    Except FactError (Option Observation) :=
  latestAnnual <$> extractConcept f containerText facts tags ["USD"]

theorem latestOfConcept_eq {facts : Json F} {tags : List String} {obs : List Observation}
    (h : extractConcept f containerText facts tags ["USD"] = .ok obs) :
    latestOfConcept f containerText facts tags = .ok (latestAnnual obs) := by
  unfold latestOfConcept
  rw [h]
  rfl

theorem exists_of_latestOfConcept {facts : Json F} {tags : List String} {o : Option Observation}
    (h : latestOfConcept f containerText facts tags = .ok o) :
    ∃ obs, extractConcept f containerText facts tags ["USD"] = .ok obs ∧ latestAnnual obs = o := by
  unfold latestOfConcept at h
  cases hobs : extractConcept f containerText facts tags ["USD"] with
  | error e =>
    rw [hobs] at h
    cases h
  | ok obs =>
    rw [hobs] at h
    exact ⟨obs, rfl, Except.ok.inj h⟩

/-- The facts of a company with the debt `d` and the equity `e`, and with another equity `e'` in their
    place: all other concepts are read alike. -/
structure EquityDiffers (f : Floats F) (containerText : Json F → PyStr) (facts facts' : Json F)
    (d e e' : ℚ) : Prop where
  usd : ∀ tags ∈ [revenueTags, netIncomeTags, totalDebtTags, operatingCashFlowTags, capexTags],
    extractConcept f containerText facts' tags ["USD"] = extractConcept f containerText facts tags ["USD"]
  eps : extractConcept f containerText facts' epsTags ["USD/shares"] =
    extractConcept f containerText facts epsTags ["USD/shares"]
  debt : ∃ o : Observation, latestOfConcept f containerText facts totalDebtTags = .ok (some o) ∧
    PyDecimal.rat o.value = some d
  equity : ∃ o : Observation, latestOfConcept f containerText facts equityTags = .ok (some o) ∧
    PyDecimal.rat o.value = some e
  equity' : ∃ o : Observation, latestOfConcept f containerText facts' equityTags = .ok (some o) ∧
    PyDecimal.rat o.value = some e'

/-- Reductions of facts that differ in the equity differ in the ratio. -/
theorem reduceCompanyFacts_of_equityDiffers {facts facts' : Json F} {d e e' : ℚ} {r r' : EdgarFundamentals}
    (h : EquityDiffers f containerText facts facts' d e e') (hne : e ≠ 0) (hne' : e' ≠ 0)
    (hr : reduceCompanyFacts f containerText facts = .ok r)
    (hr' : reduceCompanyFacts f containerText facts' = .ok r') :
    ∃ ratio ratio', quantize (Decimal.divide d e) = some ratio ∧
      quantize (Decimal.divide d e') = some ratio' ∧
      r.debtToEquity = some ratio ∧ r' = { r with debtToEquity := some ratio' } := by
  obtain ⟨revenueObs, hrevenue, hr⟩ := Loop.of_bind_eq_ok hr
  obtain ⟨netIncomeObs, hnetIncome, hr⟩ := Loop.of_bind_eq_ok hr
  obtain ⟨debtObs, hdebt, hr⟩ := Loop.of_bind_eq_ok hr
  obtain ⟨equityObs, hequity, hr⟩ := Loop.of_bind_eq_ok hr
  obtain ⟨ocfObs, hocf, hr⟩ := Loop.of_bind_eq_ok hr
  obtain ⟨capexObs, hcapex, hr⟩ := Loop.of_bind_eq_ok hr
  obtain ⟨epsObs, heps, hr⟩ := Loop.of_bind_eq_ok hr
  obtain ⟨debtToEquity, hratio, hr⟩ := Loop.of_bind_eq_ok hr
  obtain ⟨freeCashFlow, hfreeCashFlow, hr⟩ := Loop.of_bind_eq_ok hr
  obtain ⟨revenueTtm, hrevenueTtm, hr⟩ := Loop.of_bind_eq_ok hr
  obtain ⟨revenuePriorTtm, hrevenuePriorTtm, hr⟩ := Loop.of_bind_eq_ok hr
  obtain ⟨earningsTtm, hearningsTtm, hr⟩ := Loop.of_bind_eq_ok hr
  obtain ⟨earningsPriorTtm, hearningsPriorTtm, hr⟩ := Loop.of_bind_eq_ok hr
  obtain ⟨eps, hepsField, hr⟩ := Loop.of_bind_eq_ok hr
  obtain rfl := Except.ok.inj hr
  obtain ⟨debt, hdebtLatest, hd⟩ := h.debt
  obtain ⟨equity, hequityLatest, he⟩ := h.equity
  obtain ⟨equity', hequityLatest', he'⟩ := h.equity'
  obtain ⟨equityObs', hequity', hequityLatest'⟩ := exists_of_latestOfConcept hequityLatest'
  rw [latestOfConcept_eq hdebt] at hdebtLatest
  rw [latestOfConcept_eq hequity] at hequityLatest
  -- the other run reads the same, up to the ratio
  unfold reduceCompanyFacts at hr'
  rw [h.usd revenueTags (by simp), h.usd netIncomeTags (by simp), h.usd totalDebtTags (by simp),
    h.usd operatingCashFlowTags (by simp), h.usd capexTags (by simp), h.eps] at hr'
  simp only [hrevenue, hnetIncome, hdebt, hequity', hocf, hcapex, heps, hfreeCashFlow, hrevenueTtm,
    hrevenuePriorTtm, hearningsTtm, hearningsPriorTtm, hepsField, Except.ok.inj hdebtLatest, hequityLatest',
    debtToEquityField, bind, Except.bind] at hr'
  rw [Except.ok.inj hdebtLatest, Except.ok.inj hequityLatest] at hratio
  obtain ⟨ratio, rfl, hquantize⟩ := debtToEquityOf_eq_ok hd he hne hratio
  split at hr'
  case h_1 => cases hr'
  case h_2 field hratio' =>
    obtain ⟨ratio', rfl, hquantize'⟩ := debtToEquityOf_eq_ok hd he' hne' hratio'
    exact ⟨ratio, ratio', hquantize, hquantize', rfl, (Except.ok.inj hr').symm⟩

end Nivara.MarketData
