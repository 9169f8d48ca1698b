import Nivara.Intelligence.FxAttribution

/-!
# Notes in a list of positions

`_attach_fx_attribution` (`api/portfolio.py`, lines 271–315): each position in another currency than
that of the user gets the attribution of its return, if the resolver has its price and the rate at
which it was opened.

* The schema lets finite `Decimal`s into a position; the resolver may answer with any.
* The exceptions of the resolver are those that `except Exception` catches.
* `str.upper` is a parameter, of which it is asked to be idempotent.

Results:

* `computeFxAttribution_cases`: when the attribution of a position raises what the helper does not catch.
* `attachAll_eq_ok_iff`: a list comes through when each of its positions does.
* `unpoisoned_iff`: which answers leave the list as it should be.
* `nanPrice_raises`: a price that is no number.
-/

namespace Nivara.Intelligence

open Decimal

/-! ## Model -/

/-- `PositionOut` (`schemas/portfolio.py`), with its `Decimal`s. -/
structure PositionEntry where
  instrumentId : UUID
  symbol : String
  exchange : Option String
  quantity : FiniteDecimal
  avgCost : FiniteDecimal
  currency : String
  marketValueNative : FiniteDecimal
  unrealizedPlNative : FiniteDecimal
  baseCurrency : String
  marketValueBase : FiniteDecimal
  unrealizedPlBase : FiniteDecimal
  fxRate : FiniteDecimal
  asOf : ℤ
  fxAttribution : Option FxAttribution
  deriving DecidableEq, Repr

/-- `PositionsList`. -/
structure PositionsList where
  positions : List PositionEntry
  baseCurrency : String
  asOf : ℤ
  isStale : Bool
  deriving DecidableEq, Repr

/-- What the resolver does with a position. -/
inductive ResolverOutcome
  | raised
  | nothing
  | resolved (currentPriceNative fxAtOpen : PyDecimal)

section Model

variable (upper : String → String) (base : String)

/-- `compute_fx_attribution` of a position. -/
def PositionEntry.attribution (position : PositionEntry) (currentPriceNative fxAtOpen : PyDecimal) :
    Except AttributionError (Option FxAttribution) :=
  computeFxAttribution upper (finiteDecimal position.avgCost) currentPriceNative position.currency base
    fxAtOpen (finiteDecimal position.fxRate) (some position.symbol)

/-- One pass of the loop (lines 286–314). -/
def attachOne (outcome : ResolverOutcome) (position : PositionEntry) : Except Signal PositionEntry :=
  if upper position.currency = base then .ok position
  else
    match outcome with
    | .raised => .ok position
    | .nothing => .ok position
    | .resolved currentPriceNative fxAtOpen =>
      match position.attribution upper base currentPriceNative fxAtOpen with
      | .error (.valueError _) => .ok position
      | .error (.signal s) => .error s
      | .ok attribution => .ok { position with fxAttribution := attribution }

/-- The loop; `resolver` counts its calls, one for each position. -/
def attachAll (resolver : ℕ → ResolverOutcome) : List PositionEntry → Except Signal (List PositionEntry)
  | [] => .ok []
  | position :: positions => do
    let position ← attachOne upper base (resolver 0) position
    let positions ← attachAll (fun i => resolver (i + 1)) positions
    return position :: positions

/-- `_attach_fx_attribution`. -/
def attachFxAttribution (result : PositionsList) (baseCurrency : String) (resolver : ℕ → ResolverOutcome) :
    Except Signal PositionsList := do
  let enriched ← attachAll upper (upper baseCurrency) resolver result.positions
  return { result with positions := enriched }

/-! ## Properties -/

/-- The position is in another currency, and its attribution can be computed. -/
def Computed (outcome : ResolverOutcome) (position : PositionEntry) (a : FxAttribution) : Prop :=
  upper position.currency ≠ base ∧ ∃ currentPriceNative fxAtOpen,
    outcome = .resolved currentPriceNative fxAtOpen ∧
      position.attribution upper base currentPriceNative fxAtOpen = .ok (some a)

/-- A position gets the attribution that could be computed, and nothing else changes. -/
structure Attached (outcome : ResolverOutcome) (before after : PositionEntry) : Prop where
  computed : ∀ a, Computed upper base outcome before a → after = { before with fxAttribution := some a }
  other : (∀ a, ¬ Computed upper base outcome before a) → after = before

/-- The list comes back with its positions in their order. -/
def Unpoisoned (result : PositionsList) (baseCurrency : String) (resolver : ℕ → ResolverOutcome) : Prop :=
  ∃ enriched, attachFxAttribution upper result baseCurrency resolver =
      .ok { result with positions := enriched } ∧
    enriched.length = result.positions.length ∧
    ∀ i before after, result.positions[i]? = some before → enriched[i]? = some after →
      Attached upper (upper baseCurrency) (resolver i) before after

end Model

/-- The number that a `Decimal` is; none is a `NaN`. -/
def number : PyDecimal → Option Number
  | .finite negative coefficient exponent =>
    some (.finite (FiniteDecimal.value ⟨negative, coefficient, exponent⟩))
  | .infinity negative => some (.infinity negative)
  | .nan .. => none

/-- Numbers with which the computation raises a `ValueError` or nothing: the first of them that is not
    positive comes before any `NaN`, or all are positive and their returns can be shown. -/
def Tractable (cost : ℚ) (price atOpen : PyDecimal) (current : ℚ) : Prop :=
  cost ≤ 0 ∨ ∃ p, number price = some p ∧ (¬ Positive p ∨ ∃ o, number atOpen = some o ∧
    (¬ Positive o ∨ current ≤ 0 ∨ ∃ stock fx, quotient p (.finite cost) = some stock ∧
      quotient (.finite current) o = some fx ∧ Shows stock fx))

/-! ## One position -/

section Position

variable {upper : String → String} {base : String} {n : Number} {d : PyDecimal} {name : String}
  {cost current : FiniteDecimal} {price atOpen : PyDecimal} {native baseCcy : String}
  {symbol : Option String}

theorem checkPositive_nan (h : number d = none) (name : String) :
    checkPositive name d = .error (.signal .invalidOperation) := by
  cases d with
  | finite negative coefficient exponent => cases h
  | infinity negative => cases h
  | nan negative signaling payload => rfl

theorem checkPositive_of_positive (h : number d = some n) (hn : Positive n) (name : String) :
    checkPositive name d = .ok n := by
  cases d with
  | finite negative coefficient exponent =>
    cases h
    exact if_neg (not_le.mpr hn)
  | infinity negative =>
    cases h
    cases hn
    rfl
  | nan negative signaling payload => cases h

theorem checkPositive_of_not_positive (h : number d = some n) (hn : ¬ Positive n) (name : String) :
    ∃ message, checkPositive name d = .error (.valueError message) := by
  cases d with
  | finite negative coefficient exponent =>
    cases h
    exact ⟨_, if_pos (not_lt.mp hn)⟩
  | infinity negative =>
    cases h
    cases negative
    · exact absurd rfl hn
    · exact ⟨_, rfl⟩
  | nan negative signaling payload => cases h

/-- A quotient of positive numbers that are not both infinite can overflow, and nothing else. -/
theorem divide_error {a b : Number} {s : Signal} (hb : Positive b)
    (hfinite : (∃ x, a = .finite x) ∨ ∃ y, b = .finite y) (h : a.divide b = .error s) : s = .overflow := by
  cases a with
  | finite x =>
    cases b with
    | finite y =>
      have hy : y ≠ 0 := ne_of_gt hb
      rw [Number.divide_finite hy] at h
      unfold fix at h
      split_ifs at h
      · cases h
        rfl
      · cases h
    | infinity negative => cases h
  | infinity negative =>
    cases b with
    | finite y => cases h
    | infinity negative' => simp at hfinite

/-- The attribution of positive numbers does not raise a `ValueError`. -/
theorem attributionOf_ne_valueError {label : String} {c f : ℚ} {p o : Number} {message : String}
    (hc : 0 < c) (ho : Positive o) :
    attributionOf label native base (.finite c) p o (.finite f) ≠ .error (.valueError message) := by
  intro h
  unfold attributionOf at h
  rcases Loop.of_bind_eq_error h with h | ⟨stockRatio, -, h⟩
  · cases hd : p.divide (.finite c) with
    | ok n =>
      rw [hd] at h
      cases h
    | error s =>
      rw [hd, divide_error (b := .finite c) hc (.inr ⟨c, rfl⟩) hd] at h
      cases h
  rcases Loop.of_bind_eq_error h with h | ⟨fxRatio, -, h⟩
  · cases hd : (Number.finite f).divide o with
    | ok n =>
      rw [hd] at h
      cases h
    | error s =>
      rw [hd, divide_error ho (.inl ⟨f, rfl⟩) hd] at h
      cases h
  · cases ha : attribution label native base stockRatio fxRatio with
    | ok a =>
      rw [ha] at h
      cases h
    | error s =>
      rw [ha] at h
      cases h

/-- Numbers that are not tractable raise what the helper does not catch; with the others there is an
    attribution or a `ValueError`. -/
theorem computeFxAttribution_cases (cost current : FiniteDecimal) (price atOpen : PyDecimal)
    (symbol : Option String) (hccy : upper native ≠ upper baseCcy) :
    (¬ Tractable cost.value price atOpen current.value ∧ ∃ s,
        computeFxAttribution upper (finiteDecimal cost) price native baseCcy atOpen (finiteDecimal current)
          symbol = .error (.signal s)) ∨
      (Tractable cost.value price atOpen current.value ∧
        ((∃ a, computeFxAttribution upper (finiteDecimal cost) price native baseCcy atOpen
            (finiteDecimal current) symbol = .ok (some a)) ∨
          ∃ message, computeFxAttribution upper (finiteDecimal cost) price native baseCcy atOpen
            (finiteDecimal current) symbol = .error (.valueError message))) := by
  unfold computeFxAttribution Tractable
  rw [if_neg hccy]
  by_cases hcost : 0 < cost.value
  swap
  · obtain ⟨message, hmessage⟩ := checkPositive_of_not_positive (d := finiteDecimal cost) rfl hcost
      "cost_basis_native"
    rw [hmessage]
    exact .inr ⟨.inl (not_lt.mp hcost), .inr ⟨message, rfl⟩⟩
  rw [checkPositive_finiteDecimal hcost, or_iff_right (not_le.mpr hcost)]
  rcases hprice : number price with _ | p
  · rw [checkPositive_nan hprice]
    exact .inl ⟨by simp, _, rfl⟩
  by_cases hp : Positive p
  swap
  · obtain ⟨message, hmessage⟩ := checkPositive_of_not_positive hprice hp "current_price_native"
    rw [hmessage]
    exact .inr ⟨⟨p, rfl, .inl hp⟩, .inr ⟨message, rfl⟩⟩
  rw [checkPositive_of_positive hprice hp]
  simp only [Option.some_inj, exists_eq_left', hp, not_true_eq_false, false_or]
  rcases hopen : number atOpen with _ | o
  · rw [checkPositive_nan hopen]
    exact .inl ⟨by simp, _, rfl⟩
  by_cases ho : Positive o
  swap
  · obtain ⟨message, hmessage⟩ := checkPositive_of_not_positive hopen ho "fx_at_open"
    rw [hmessage]
    exact .inr ⟨⟨o, rfl, .inl ho⟩, .inr ⟨message, rfl⟩⟩
  rw [checkPositive_of_positive hopen ho]
  simp only [Option.some_inj, exists_eq_left', ho, not_true_eq_false, false_or]
  by_cases hcurrent : 0 < current.value
  swap
  · obtain ⟨message, hmessage⟩ := checkPositive_of_not_positive (d := finiteDecimal current) rfl hcurrent
      "fx_current"
    rw [hmessage]
    exact .inr ⟨.inl (not_lt.mp hcurrent), .inr ⟨message, rfl⟩⟩
  -- all four numbers are positive, and the quotients decide
  rw [checkPositive_finiteDecimal hcurrent, or_iff_right (not_le.mpr hcurrent),
    ← exists_attributionOf_iff ((symbol.filter (· ≠ "")).getD "Position") (upper native) (upper baseCcy)
      hcost hcurrent hp ho]
  cases ha : attributionOf ((symbol.filter (· ≠ "")).getD "Position") (upper native) (upper baseCcy)
    (.finite cost.value) p o (.finite current.value) with
  | ok a => exact .inr ⟨⟨a, rfl⟩, .inl ⟨a, congrArg (some <$> ·) ha⟩⟩
  | error e =>
    cases e with
    | valueError message => exact absurd ha (attributionOf_ne_valueError hcost ho)
    | signal s => exact .inl ⟨by simp, s, congrArg (some <$> ·) ha⟩

/-- The numbers that the resolver gives for a position in another currency are tractable. -/
def TractableOutcome (upper : String → String) (base : String) (outcome : ResolverOutcome)
    (position : PositionEntry) : Prop :=
  ∀ currentPriceNative fxAtOpen, upper position.currency ≠ base →
    outcome = .resolved currentPriceNative fxAtOpen →
      Tractable position.avgCost.value currentPriceNative fxAtOpen position.fxRate.value

variable {outcome : ResolverOutcome} {position position' : PositionEntry}

theorem exists_attachOne_iff (hbase : upper base = base) :
    (∃ position', attachOne upper base outcome position = .ok position') ↔
      TractableOutcome upper base outcome position := by
  unfold attachOne TractableOutcome
  by_cases hccy : upper position.currency = base
  · rw [if_pos hccy]
    exact iff_of_true ⟨position, rfl⟩ fun _ _ hne => absurd hccy hne
  rw [if_neg hccy]
  cases outcome with
  | raised => exact iff_of_true ⟨position, rfl⟩ (by simp)
  | nothing => exact iff_of_true ⟨position, rfl⟩ (by simp)
  | resolved price atOpen =>
    have hne : upper position.currency ≠ upper base := by rw [hbase]; exact hccy
    have hcases := computeFxAttribution_cases position.avgCost position.fxRate price atOpen
      (some position.symbol) hne
    unfold PositionEntry.attribution
    dsimp only
    rcases hcases with ⟨hnot, s, hs⟩ | ⟨htractable, ⟨a, ha⟩ | ⟨message, hmessage⟩⟩
    · rw [hs]
      refine iff_of_false (by simp) fun h => hnot (h price atOpen hccy rfl)
    · rw [ha]
      refine iff_of_true ⟨_, rfl⟩ fun price' atOpen' _ h => ?_
      cases h
      exact htractable
    · rw [hmessage]
      refine iff_of_true ⟨_, rfl⟩ fun price' atOpen' _ h => ?_
      cases h
      exact htractable

/-- A position without an attribution stays as it is. -/
theorem attached_self (h : ∀ a, ¬ Computed upper base outcome position a) :
    Attached upper base outcome position position :=
  ⟨fun a ha => absurd ha (h a), fun _ => rfl⟩

theorem computed_resolved_iff {a : FxAttribution} (hccy : upper position.currency ≠ base) :
    Computed upper base (.resolved price atOpen) position a ↔
      position.attribution upper base price atOpen = .ok (some a) := by
  constructor
  · rintro ⟨-, price', atOpen', houtcome, ha⟩
    cases houtcome
    exact ha
  · exact fun ha => ⟨hccy, price, atOpen, rfl, ha⟩

/-- What a pass of the loop makes of a position. -/
theorem attached_of_attachOne (hbase : upper base = base)
    (h : attachOne upper base outcome position = .ok position') :
    Attached upper base outcome position position' := by
  unfold attachOne at h
  by_cases hccy : upper position.currency = base
  · rw [if_pos hccy] at h
    cases h
    exact attached_self fun a ha => ha.1 hccy
  rw [if_neg hccy] at h
  cases outcome with
  | raised =>
    cases h
    exact attached_self (by rintro a ⟨-, price, atOpen, houtcome, -⟩; cases houtcome)
  | nothing =>
    cases h
    exact attached_self (by rintro a ⟨-, price, atOpen, houtcome, -⟩; cases houtcome)
  | resolved price atOpen =>
    dsimp only at h
    have hcomputed : ∀ a, Computed upper base (.resolved price atOpen) position a ↔
        position.attribution upper base price atOpen = .ok (some a) := fun a => computed_resolved_iff hccy
    cases ha : position.attribution upper base price atOpen with
    | error e =>
      rw [ha] at h hcomputed
      cases e with
      | signal s => cases h
      | valueError message =>
        cases h
        exact attached_self fun a => by simp [hcomputed a]
    | ok attribution =>
      rw [ha] at h hcomputed
      cases h
      have hne : upper position.currency ≠ upper base := by rw [hbase]; exact hccy
      cases attribution with
      | none =>
        -- a position in another currency has an attribution, or its computation raises
        rcases computeFxAttribution_cases position.avgCost position.fxRate price atOpen
          (some position.symbol) hne with
          ⟨-, s, hs⟩ | ⟨-, ⟨a, ha'⟩ | ⟨message, hmessage⟩⟩
        · exact absurd (ha.symm.trans hs) (by simp)
        · exact absurd (ha.symm.trans ha') (by simp)
        · exact absurd (ha.symm.trans hmessage) (by simp)
      | some a =>
        refine ⟨fun a' ha' => ?_, fun hnone => absurd ((hcomputed a).mpr rfl) (hnone a)⟩
        cases (hcomputed a').mp ha'
        rfl

end Position

/-! ## The list -/

section Positions

variable {upper : String → String} {base : String} {resolver : ℕ → ResolverOutcome}
  {positions enriched : List PositionEntry}

/-- The loop makes of each position what one pass makes of it. -/
theorem attachAll_eq_ok_iff :
    attachAll upper base resolver positions = .ok enriched ↔
      enriched.length = positions.length ∧ ∀ i before after, positions[i]? = some before →
        enriched[i]? = some after → attachOne upper base (resolver i) before = .ok after := by
  induction positions generalizing resolver enriched with
  | nil =>
    unfold attachAll
    rw [Except.ok.injEq]
    constructor
    · rintro rfl
      exact ⟨rfl, by simp⟩
    · rintro ⟨hlength, -⟩
      exact (List.length_eq_zero_iff.mp hlength).symm
  | cons position positions ih =>
    unfold attachAll
    constructor
    · intro h
      obtain ⟨position', hposition, h⟩ := Loop.of_bind_eq_ok h
      obtain ⟨positions', hpositions, h⟩ := Loop.of_bind_eq_ok h
      cases h
      obtain ⟨hlength, hall⟩ := ih.mp hpositions
      refine ⟨by simp [hlength], fun i before after hbefore hafter => ?_⟩
      cases i with
      | zero =>
        cases hbefore
        cases hafter
        exact hposition
      | succ i => exact hall i before after hbefore hafter
    · rintro ⟨hlength, hall⟩
      cases enriched with
      | nil => cases hlength
      | cons position' positions' =>
        have hposition := hall 0 position position' rfl rfl
        have hpositions : attachAll upper base (fun i => resolver (i + 1)) positions = .ok positions' :=
          ih.mpr ⟨Nat.succ.inj hlength, fun i before after hbefore hafter =>
            hall (i + 1) before after hbefore hafter⟩
        simp only [hposition, hpositions, Bind.bind, Except.bind, pure, Except.pure]

theorem exists_attachAll_iff (resolver : ℕ → ResolverOutcome) (positions : List PositionEntry) :
    (∃ enriched, attachAll upper base resolver positions = .ok enriched) ↔
      ∀ i position, positions[i]? = some position →
        ∃ position', attachOne upper base (resolver i) position = .ok position' := by
  induction positions generalizing resolver with
  | nil => simp [attachAll]
  | cons position positions ih =>
    unfold attachAll
    rw [Raises.exists_bind_eq_ok]
    constructor
    · rintro ⟨position', hposition, h⟩ i before hbefore
      rw [Raises.exists_bind_pure_eq_ok, ih] at h
      cases i with
      | zero =>
        cases hbefore
        exact ⟨position', hposition⟩
      | succ i => exact h i before hbefore
    · intro h
      obtain ⟨position', hposition⟩ := h 0 position rfl
      refine ⟨position', hposition, ?_⟩
      rw [Raises.exists_bind_pure_eq_ok, ih]
      exact fun i before hbefore => h (i + 1) before hbefore

end Positions

/-! ## Main result -/

/-- The list is left as it should be exactly when the numbers that the resolver gives for the positions in
    another currency are tractable. -/
theorem unpoisoned_iff (upper : String → String) (hupper : ∀ text, upper (upper text) = upper text)
    (result : PositionsList) (baseCurrency : String) (resolver : ℕ → ResolverOutcome) :
    Unpoisoned upper result baseCurrency resolver ↔
      ∀ i position, result.positions[i]? = some position →
        TractableOutcome upper (upper baseCurrency) (resolver i) position := by
  simp only [← exists_attachOne_iff (hupper baseCurrency)]
  rw [← exists_attachAll_iff resolver result.positions]
  unfold Unpoisoned attachFxAttribution
  constructor
  · rintro ⟨enriched, h, -⟩
    obtain ⟨enriched', henriched, -⟩ := Loop.of_bind_eq_ok h
    exact ⟨enriched', henriched⟩
  · rintro ⟨enriched, henriched⟩
    obtain ⟨hlength, hall⟩ := attachAll_eq_ok_iff.mp henriched
    refine ⟨enriched, ?_, hlength, fun i before after hbefore hafter => ?_⟩
    · rw [henriched]
      rfl
    · exact attached_of_attachOne (hupper baseCurrency) (hall i before after hbefore hafter)

/-- A position in dollars. -/
def samplePosition : PositionEntry where
  instrumentId := 1
  symbol := "AAPL"
  exchange := some "NASDAQ"
  quantity := ⟨false, 10, 0⟩
  avgCost := ⟨false, 150, 0⟩
  currency := "USD"
  marketValueNative := ⟨false, 1500, 0⟩
  unrealizedPlNative := ⟨false, 0, 0⟩
  baseCurrency := "INR"
  marketValueBase := ⟨false, 12669000, -2⟩
  unrealizedPlBase := ⟨false, 0, 0⟩
  fxRate := ⟨false, 8446, -2⟩
  asOf := 0
  fxAttribution := none

theorem unpoisoned_iff_sample :
    Unpoisoned id ⟨[samplePosition], "INR", 0, false⟩ "INR"
      fun _ => .resolved (.finite false 162 0) (.finite false 8200 (-2)) := by
  refine (unpoisoned_iff id (fun _ => rfl) _ _ _).mpr fun i position h price atOpen _ hresolved => ?_
  cases hresolved
  obtain rfl : position = samplePosition :=
    List.mem_singleton.mp (List.mem_of_getElem? h)
  refine .inr ⟨_, rfl, .inr ⟨_, rfl, .inr (.inr ⟨_, _, rfl, rfl, ⟨?_, ?_, ?_⟩⟩)⟩⟩
  · unfold tooLarge; decide +kernel
  · unfold tooLarge; decide +kernel
  · unfold tooLarge; decide +kernel

/-- A price that is no number raises for the whole list. -/
theorem nanPrice_raises :
    (attachFxAttribution id ⟨[samplePosition], "INR", 0, false⟩ "INR"
        fun _ => .resolved (.nan false false 0) (.finite false 8200 (-2))) = .error .invalidOperation ∧
      ¬ Unpoisoned id ⟨[samplePosition], "INR", 0, false⟩ "INR"
        fun _ => .resolved (.nan false false 0) (.finite false 8200 (-2)) := by
  have hraises : (attachFxAttribution id ⟨[samplePosition], "INR", 0, false⟩ "INR"
      fun _ => .resolved (.nan false false 0) (.finite false 8200 (-2))) = .error .invalidOperation := by
    decide +kernel
  refine ⟨hraises, ?_⟩
  rintro ⟨enriched, h, -⟩
  rw [hraises] at h
  cases h

end Nivara.Intelligence
