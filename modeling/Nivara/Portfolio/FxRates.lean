import Nivara.Lib.AsOf
import Nivara.Portfolio.Summary

/-!
# Exchange rates in both directions

`FxService.get_rate` (`services/fx.py`, lines 87–106) over the table of `fx_rates`, whose unique
constraint leaves one row for a pair and a date.

* Arithmetic is exact.

Results:

* `fxLookup_eq_some_iff`: a lookup returns the rate of the newest row of the pair that is not newer than
  the instant.
* `fxLookup_congr`: the rows after the instant have no part in it.
* `getRate_swap`: where one direction of a pair is stored, the rate of the other is its inverse.
* `getRate_symmetric`: the three together.
-/

namespace Nivara.Portfolio

/-! ## Rows of a pair -/

/-- A row that is dated no later than the instant, where one is given. -/
def FxRate.NotAfter (asOf : Option Instant) (r : FxRate) : Prop := ∀ t ∈ asOf, r.asOf ≤ t

/-- A row that `_lookup` selects. -/
def FxRate.Selected (base quote : String) (asOf : Option Instant) (r : FxRate) : Prop :=
  r.baseCurrency = base ∧ r.quoteCurrency = quote ∧ r.NotAfter asOf

/-- `uq_fx_rates_base_quote_asof`. -/
def UniqueDates (rates : List FxRate) : Prop :=
  ∀ r ∈ rates, ∀ r' ∈ rates, r.baseCurrency = r'.baseCurrency → r.quoteCurrency = r'.quoteCurrency →
    r.asOf = r'.asOf → r = r'

instance decidableUniqueDates (rates : List FxRate) : Decidable (UniqueDates rates) :=
  inferInstanceAs (Decidable (∀ r ∈ rates, ∀ r' ∈ rates, _ → _ → _ → r = r'))

variable {upper : String → String} {rates rates' : List FxRate} {base quote : String}
    {asOf : Option Instant}
  {x : ℚ}

/-- The rows of the pair. -/
def selected (rates : List FxRate) (base quote : String) (asOf : Option Instant) : List FxRate :=
  rates.filter fun r => r.baseCurrency = base ∧ r.quoteCurrency = quote ∧ ∀ t ∈ asOf, r.asOf ≤ t

theorem mem_selected {r : FxRate} :
    r ∈ selected rates base quote asOf ↔ r ∈ rates ∧ r.Selected base quote asOf := by
  unfold selected FxRate.Selected FxRate.NotAfter
  rw [List.mem_filter, decide_eq_true_eq]

theorem fxLookup_eq_latest :
    fxLookup rates base quote asOf =
      (AsOf.latest FxRate.asOf (selected rates base quote asOf)).map FxRate.rate := rfl

theorem distinct_selected (h : UniqueDates rates) :
    AsOf.Distinct FxRate.asOf (selected rates base quote asOf) := by
  intro r hr r' hr' hdate
  obtain ⟨hr, hbase, hquote, -⟩ := mem_selected.mp hr
  obtain ⟨hr', hbase', hquote', -⟩ := mem_selected.mp hr'
  exact h r hr r' hr' (hbase.trans hbase'.symm) (hquote.trans hquote'.symm) hdate

/-- The rate of a pair is that of its newest row. -/
theorem fxLookup_eq_some_iff (h : UniqueDates rates) :
    fxLookup rates base quote asOf = some x ↔ ∃ r ∈ rates, r.Selected base quote asOf ∧ r.rate = x ∧
      ∀ r' ∈ rates, r'.Selected base quote asOf → r'.asOf ≤ r.asOf := by
  rw [fxLookup_eq_latest, Option.map_eq_some_iff]
  simp only [AsOf.latest_eq_some_iff (distinct_selected h), mem_selected]
  constructor
  · rintro ⟨r, ⟨⟨hr, hselected⟩, hnewest⟩, hx⟩
    exact ⟨r, hr, hselected, hx, fun r' hr' hselected' => hnewest r' ⟨hr', hselected'⟩⟩
  · rintro ⟨r, hr, hselected, hx, hnewest⟩
    exact ⟨r, ⟨⟨hr, hselected⟩, fun r' hr' => hnewest r' hr'.1 hr'.2⟩, hx⟩

/-- A rate that is found is stored. -/
theorem exists_of_fxLookup (h : fxLookup rates base quote asOf = some x) :
    ∃ r ∈ rates, r.baseCurrency = base ∧ r.quoteCurrency = quote ∧ r.rate = x := by
  obtain ⟨r, hr, hx⟩ := Option.map_eq_some_iff.mp (fxLookup_eq_latest ▸ h)
  obtain ⟨hmem, hbase, hquote, -⟩ := mem_selected.mp (AsOf.latest_spec hr).1
  exact ⟨r, hmem, hbase, hquote, hx⟩

/-- The rows after the instant have no part in a lookup. -/
theorem fxLookup_congr (hunique : UniqueDates rates)
    (h : ∀ r : FxRate, r.NotAfter asOf → (r ∈ rates ↔ r ∈ rates')) :
    fxLookup rates base quote asOf = fxLookup rates' base quote asOf := by
  rw [fxLookup_eq_latest, fxLookup_eq_latest]
  congr 1
  refine AsOf.latest_congr (distinct_selected hunique) fun r => ?_
  rw [mem_selected, mem_selected]
  exact and_congr_left fun hselected => h r hselected.2.2

/-! ## The rate of a pair -/

theorem getRate_congr (hunique : UniqueDates rates)
    (h : ∀ r : FxRate, r.NotAfter asOf → (r ∈ rates ↔ r ∈ rates')) :
    getRate upper rates base quote asOf = getRate upper rates' base quote asOf := by
  unfold getRate
  dsimp only
  rw [fxLookup_congr hunique h, fxLookup_congr hunique h]

/-- A table of positive rates that has at most one direction of each pair. -/
structure OneDirection (rates : List FxRate) : Prop where
  unique : UniqueDates rates
  positive : ∀ r ∈ rates, 0 < r.rate
  direction : ∀ r ∈ rates, ∀ r' ∈ rates, r'.baseCurrency = r.quoteCurrency →
    r'.quoteCurrency = r.baseCurrency → r.baseCurrency = r.quoteCurrency

theorem fxLookup_ne_zero (h : OneDirection rates) (hx : fxLookup rates base quote asOf = some x) :
    x ≠ 0 := by
  obtain ⟨r, hr, -, -, rfl⟩ := exists_of_fxLookup hx
  exact (h.positive r hr).ne'

/-- A pair that is found has no row of the other direction. -/
theorem fxLookup_swap (h : OneDirection rates) (hne : base ≠ quote)
    (hx : fxLookup rates base quote asOf = some x) :
    fxLookup rates quote base asOf = none := by
  rw [Option.eq_none_iff_forall_ne_some]
  intro y hy
  obtain ⟨r, hr, hbase, hquote, -⟩ := exists_of_fxLookup hx
  obtain ⟨r', hr', hbase', hquote', -⟩ := exists_of_fxLookup hy
  have hself := h.direction r hr r' hr' (hbase'.trans hquote.symm) (hquote'.trans hbase.symm)
  exact hne (hbase ▸ hquote ▸ hself)

/-- The rate of the other direction is the inverse. -/
theorem getRate_swap (h : OneDirection rates) :
    getRate upper rates quote base asOf = (getRate upper rates base quote asOf).map (·⁻¹) := by
  unfold getRate
  dsimp only
  by_cases heq : upper base = upper quote
  · rw [if_pos heq, if_pos heq.symm, Option.map_some, inv_one]
  · rw [if_neg heq, if_neg (Ne.symm heq)]
    cases hdirect : fxLookup rates (upper base) (upper quote) asOf with
    | some x =>
      rw [fxLookup_swap h heq hdirect]
      dsimp only
      rw [if_pos (fxLookup_ne_zero h hdirect), one_div, Option.map_some]
    | none =>
      cases hinverse : fxLookup rates (upper quote) (upper base) asOf with
      | none => rfl
      | some y =>
        dsimp only
        rw [if_pos (fxLookup_ne_zero h hinverse), Option.map_some, one_div, inv_inv]

theorem getRate_ne_zero (h : OneDirection rates) (hx : getRate upper rates base quote asOf = some x) :
    x ≠ 0 := by
  unfold getRate at hx
  dsimp only at hx
  split_ifs at hx with heq
  · obtain rfl := Option.some.inj hx
    exact one_ne_zero
  · split at hx
    case h_1 rate hrate =>
      obtain rfl := Option.some.inj hx
      exact fxLookup_ne_zero h hrate
    case h_2 hrate =>
      split at hx
      · split_ifs at hx with hne
        obtain rfl := Option.some.inj hx
        exact one_div_ne_zero hne
      · cases hx

/-- The two directions of a pair are defined together, their rates are inverse to each other, and
    what is dated later has no part in them. -/
theorem getRate_symmetric (h : OneDirection rates) (upper : String → String) (a b : String) (t : Instant) :
    ((getRate upper rates a b (some t)).isSome ↔ (getRate upper rates b a (some t)).isSome) ∧
      (∀ x y, getRate upper rates a b (some t) = some x → getRate upper rates b a (some t) = some y →
        x * y = 1) ∧
      ∀ rates', (∀ r : FxRate, r.asOf ≤ t → (r ∈ rates ↔ r ∈ rates')) →
        getRate upper rates a b (some t) = getRate upper rates' a b (some t) ∧
          getRate upper rates b a (some t) = getRate upper rates' b a (some t) := by
  refine ⟨?_, fun x y hx hy => ?_, fun rates' hrates => ?_⟩
  · have hswap : getRate upper rates b a (some t) = (getRate upper rates a b (some t)).map (·⁻¹) := getRate_swap h
    rw [hswap, Option.isSome_map]
  · rw [getRate_swap h, hx, Option.map_some] at hy
    obtain rfl := Option.some.inj hy
    exact mul_inv_cancel₀ (getRate_ne_zero h hx)
  · have hrows : ∀ r : FxRate, r.NotAfter (some t) → (r ∈ rates ↔ r ∈ rates') := fun r hr =>
      hrates r (hr t rfl)
    exact ⟨getRate_congr h.unique hrows, getRate_congr h.unique hrows⟩

/-- A table of two pairs, asked in between. -/
theorem getRate_symmetric_sample :
    let rates : List FxRate := [⟨"USD", "INR", 80, 0⟩, ⟨"USD", "INR", 100, 60⟩, ⟨"EUR", "USD", 5 / 4, 30⟩]
    getRate id rates "INR" "USD" (some 45) = some (1 / 80) ∧
      ∀ y, getRate id rates "USD" "INR" (some 45) = some y → 1 / 80 * y = 1 := by
  have hrate : getRate id [⟨"USD", "INR", 80, 0⟩, ⟨"USD", "INR", 100, 60⟩, ⟨"EUR", "USD", 5 / 4, 30⟩]
      "INR" "USD" (some 45) = some (1 / 80) := by decide +kernel
  exact ⟨hrate, fun y hy =>
    (getRate_symmetric ⟨by decide +kernel, by decide +kernel, by decide⟩ id "INR" "USD" 45).2.1
      _ y hrate hy⟩

end Nivara.Portfolio
