import Nivara.Analysis.HealthScore
import Nivara.Analysis.RiskMeter
import Nivara.Portfolio.HoldingWeights

/-!
# Splitting a position

What the Risk Meter and the Health Score make of a position that is split over two
connections, and of two holdings with one symbol. The holding weights have an entry for each
row, the weights by symbol one for each symbol.

Results:

* `hhi_split`: splitting takes twice the product of the parts' shares from the concentration.
* `portfolioContext_of_worthless`: a split position without a value is not seen in the
  dictionaries.
* `symbolWeights_iff`: when the weights by symbol sum to 1 and keep every holding's.
* `splitUnchanged_and_symbolWeights_iff`: when splitting changes nothing, and when no weight is lost.
-/

namespace Nivara.Portfolio

open Analysis
open CorporateActions (PriceHistory)

/-! ## Model -/

section Model

variable (sqrt : ℚ → ℚ) (prices : List PriceHistory) (today : ℤ) (raw : List Holding)

/-- `_compute_for_user`: the Risk Meter of the holdings. -/
def riskMeter : RiskMeterResult :=
  let context := portfolioContext prices raw
  computeRiskMeter sqrt context.holdingWeights context.weightsBySymbol context.priceSeries none today

/-- `_compute_response`: the Health Score of the holdings. -/
def healthScore : HealthScoreResult :=
  let context := healthContext prices raw
  computeHealthScore sqrt context.holdingWeights context.fundamentalScores context.technicalScores
    context.portfolioReturns none

/-- The concentration before it is rounded. -/
def concentration : ℚ := Herfindahl.hhi (portfolioContext prices raw).holdingWeights

/-- Concentration, volatility, drawdown, the overall score and the diversification component of two
    portfolios are the same. -/
def SameScores (raw raw' : List Holding) : Prop :=
  let context := portfolioContext prices raw
  let context' := portfolioContext prices raw'
  concentration prices raw = concentration prices raw' ∧
    (computeConcentration context.holdingWeights).score = (computeConcentration context'.holdingWeights).score ∧
    computeVolatilityVar sqrt context.weightsBySymbol context.priceSeries =
      computeVolatilityVar sqrt context'.weightsBySymbol context'.priceSeries ∧
    computeDrawdown context.weightsBySymbol context.priceSeries =
      computeDrawdown context'.weightsBySymbol context'.priceSeries ∧
    (riskMeter sqrt prices today raw).overallScore = (riskMeter sqrt prices today raw').overallScore ∧
    (computeDiversification (healthContext prices raw).holdingWeights).score =
      (computeDiversification (healthContext prices raw').holdingWeights).score

/-- The weights by symbol, when there are any, sum to 1, and none of a holding is overwritten. -/
def SymbolWeights : Prop :=
  0 < totalValue raw →
    (portfolioContext prices raw).weightsBySymbol.values.sum = 1 ∧
      ∀ h ∈ raw, (portfolioContext prices raw).weightsBySymbol.get h.instrument.symbol =
        some (h.value / totalValue raw)

end Model

/-- Two states of a user's positions: in the second `whole` is split in two parts of a positive
    quantity on connections of the user, and the other rows are the same. -/
structure Split (connections : List BrokerConnection) (userId : UUID) where
  before : Session
  after : Session
  whole : Position
  part₁ : Position
  part₂ : Position
  instrument : Instrument
  rows₁ : List Position
  rows₂ : List Position
  rows₃ : List Position
  connections_nodup : (connections.map BrokerConnection.id).Nodup
  catalog_eq : after.catalog = before.catalog
  before_positions : before.positions = rows₁ ++ whole :: rows₂ ++ rows₃
  after_positions : after.positions = rows₁ ++ part₁ :: rows₂ ++ part₂ :: rows₃
  instrument_mem : instrument ∈ before.catalog.instruments
  whole_instrument : whole.instrumentId = instrument.id
  part₁_instrument : part₁.instrumentId = instrument.id
  part₂_instrument : part₂.instrumentId = instrument.id
  whole_owned : OwnedBy connections userId whole.brokerConnectionId
  part₁_owned : OwnedBy connections userId part₁.brokerConnectionId
  part₂_owned : OwnedBy connections userId part₂.brokerConnectionId
  part₁_avgCost : part₁.avgCost = whole.avgCost
  part₂_avgCost : part₂.avgCost = whole.avgCost
  part₁_pos : 0 < part₁.quantity
  part₂_pos : 0 < part₂.quantity
  quantity_add : part₁.quantity + part₂.quantity = whole.quantity

variable {connections : List BrokerConnection} {userId : UUID} {prices : List PriceHistory}
  {db : Session} {raw a b c : List Holding} {h h₁ h₂ : Holding}

/-! ## The rows of a split -/

theorem holdings_append (l l' : List Position) :
    holdings connections userId { db with positions := l ++ l' } =
      holdings connections userId { db with positions := l } ++
        holdings connections userId { db with positions := l' } := by
  simp [holdings, rawValues, joinedRows]

theorem holdings_cons (p : Position) (l : List Position) :
    holdings connections userId { db with positions := p :: l } =
      holdings connections userId { db with positions := [p] } ++
        holdings connections userId { db with positions := l } :=
  holdings_append [p] l

/-- An open position of the user is one holding. -/
theorem holdings_singleton (hids : (connections.map BrokerConnection.id).Nodup) {p : Position} {i : Instrument}
    (hi : i ∈ db.catalog.instruments) (hid : p.instrumentId = i.id)
    (howned : OwnedBy connections userId p.brokerConnectionId) (hq : p.quantity ≠ 0) :
    holdings connections userId { db with positions := [p] } = [.ofRow (p, i)] := by
  obtain ⟨j, hrow⟩ := joinedRows_of_position userId hids ⟨i, hi, hid.symm⟩
  rw [if_pos howned] at hrow
  have hj : (p, j) ∈ [(p, j)] := List.mem_singleton_self _
  rw [← hrow, List.mem_flatMap] at hj
  obtain ⟨-, -, hj⟩ := hj
  obtain ⟨k, hk, heq⟩ := List.mem_map.mp hj
  rw [List.mem_filter, decide_eq_true_eq] at hk
  have hki : k = i := List.inj_on_of_nodup_map db.catalog.ids_nodup hk.1 hi (hk.2.trans hid)
  cases heq
  subst hki
  unfold holdings rawValues joinedRows
  rw [List.flatMap_cons, List.flatMap_nil, List.append_nil, hrow,
    List.filter_cons_of_pos (by simpa using hq)]
  rfl

namespace Split

variable (s : Split connections userId)

/-- The holdings of some rows. -/
def holdingsOf (l : List Position) : List Holding := holdings connections userId { s.before with positions := l }

/-- No row between those of the parts has their symbol. -/
def OtherSymbols : Prop := ∀ h ∈ s.holdingsOf s.rows₂, h.instrument.symbol ≠ s.instrument.symbol

/-- The holdings before, around the position. -/
theorem holdings_before :
    holdings connections userId s.before =
      s.holdingsOf s.rows₁ ++ .ofRow (s.whole, s.instrument) :: s.holdingsOf s.rows₂ ++ s.holdingsOf s.rows₃ := by
  have hq : s.whole.quantity ≠ 0 := by
    rw [← s.quantity_add]
    exact (add_pos s.part₁_pos s.part₂_pos).ne'
  have hself : s.before = { s.before with positions := s.before.positions } := rfl
  rw [hself, s.before_positions, holdings_append, holdings_append, holdings_cons,
    holdings_singleton s.connections_nodup s.instrument_mem s.whole_instrument s.whole_owned hq]
  rfl

/-- The holdings after, around the parts. -/
theorem holdings_after :
    holdings connections userId s.after =
      s.holdingsOf s.rows₁ ++ .ofRow (s.part₁, s.instrument) :: s.holdingsOf s.rows₂ ++
        .ofRow (s.part₂, s.instrument) :: s.holdingsOf s.rows₃ := by
  have hself : holdings connections userId s.after =
      holdings connections userId { s.before with positions := s.after.positions } := by
    unfold holdings joinedRows
    rw [s.catalog_eq]
  rw [hself, s.after_positions, holdings_append, holdings_append, holdings_cons, holdings_cons s.part₂,
    holdings_singleton s.connections_nodup s.instrument_mem s.part₁_instrument s.part₁_owned s.part₁_pos.ne',
    holdings_singleton s.connections_nodup s.instrument_mem s.part₂_instrument s.part₂_owned s.part₂_pos.ne']
  rfl

/-- The value of the position is that of its parts. -/
theorem value_add :
    (Holding.ofRow (s.part₁, s.instrument)).value + (Holding.ofRow (s.part₂, s.instrument)).value =
      (Holding.ofRow (s.whole, s.instrument)).value := by
  unfold Holding.ofRow
  dsimp only
  rw [s.part₁_avgCost, s.part₂_avgCost, ← s.quantity_add, add_mul]

theorem whole_quantity_ne_zero : s.whole.quantity ≠ 0 := by
  rw [← s.quantity_add]
  exact (add_pos s.part₁_pos s.part₂_pos).ne'

/-- The parts have a value when the position has one. -/
theorem part_value_eq_zero_iff :
    ((Holding.ofRow (s.part₁, s.instrument)).value = 0 ↔ (Holding.ofRow (s.whole, s.instrument)).value = 0) ∧
      ((Holding.ofRow (s.part₂, s.instrument)).value = 0 ↔ (Holding.ofRow (s.whole, s.instrument)).value = 0) := by
  unfold Holding.ofRow
  simp only [s.part₁_avgCost, s.part₂_avgCost, mul_eq_zero, s.part₁_pos.ne', s.part₂_pos.ne',
    s.whole_quantity_ne_zero, false_or, and_self]

/-- The values of the parts have one sign. -/
theorem part_value_mul_nonneg :
    0 ≤ (Holding.ofRow (s.part₁, s.instrument)).value * (Holding.ofRow (s.part₂, s.instrument)).value := by
  unfold Holding.ofRow
  dsimp only
  rw [s.part₁_avgCost, s.part₂_avgCost, mul_mul_mul_comm]
  exact mul_nonneg (mul_pos s.part₁_pos s.part₂_pos).le (mul_self_nonneg _)

end Split

/-! ## Concentration -/

theorem totalValue_split (hadd : h₁.value + h₂.value = h.value) :
    totalValue (a ++ h₁ :: b ++ h₂ :: c) = totalValue (a ++ h :: b ++ c) := by
  unfold totalValue
  simp only [List.map_append, List.map_cons, List.sum_append, List.sum_cons, ← hadd]
  ring

theorem portfolioContext_of_pos (hpos : 0 < totalValue raw) :
    (portfolioContext prices raw).holdingWeights = raw.map fun h => h.value / totalValue raw := by
  rw [portfolioContext_holdingWeights]
  exact Blend.shares_of_pos hpos

theorem portfolioContext_of_nonpos (hneg : totalValue raw ≤ 0) :
    portfolioContext prices raw = ⟨[], .empty, .empty, oldestAsOf raw⟩ := by
  unfold portfolioContext
  exact if_neg (not_lt.mpr hneg)

variable (prices) in
/-- The holding weights of a portfolio, around those of the parts and around their sum. -/
theorem holdingWeights_split (hadd : h₁.value + h₂.value = h.value)
    (hpos : 0 < totalValue (a ++ h :: b ++ c)) :
    ∃ f : Holding → ℚ, (∀ k, f k = k.value / totalValue (a ++ h :: b ++ c)) ∧
      (portfolioContext prices (a ++ h₁ :: b ++ h₂ :: c)).holdingWeights =
        a.map f ++ f h₁ :: b.map f ++ f h₂ :: c.map f ∧
      (portfolioContext prices (a ++ h :: b ++ c)).holdingWeights =
        a.map f ++ (f h₁ + f h₂) :: b.map f ++ c.map f := by
  have hpos' : 0 < totalValue (a ++ h₁ :: b ++ h₂ :: c) := by rwa [totalValue_split hadd]
  refine ⟨fun k => k.value / totalValue (a ++ h :: b ++ c), fun k => rfl, ?_, ?_⟩
  · rw [portfolioContext_of_pos hpos', totalValue_split hadd]
    simp
  · rw [portfolioContext_of_pos hpos, ← add_div, hadd]
    simp

/-- Splitting takes twice the product of the parts' shares from the concentration. -/
theorem hhi_split (hadd : h₁.value + h₂.value = h.value) (hsign : 0 ≤ h₁.value * h₂.value)
    (hpos : 0 < totalValue (a ++ h :: b ++ c)) :
    concentration prices (a ++ h :: b ++ c) =
      concentration prices (a ++ h₁ :: b ++ h₂ :: c) +
        2 * (h₁.value / totalValue (a ++ h :: b ++ c) * (h₂.value / totalValue (a ++ h :: b ++ c))) /
          Herfindahl.magnitude (portfolioContext prices (a ++ h :: b ++ c)).holdingWeights ^ 2 := by
  obtain ⟨f, hf, hsplit, hwhole⟩ := holdingWeights_split prices hadd hpos
  have hsign' : 0 ≤ f h₁ * f h₂ := by
    rw [hf, hf, div_mul_div_comm]
    exact div_nonneg hsign (mul_self_nonneg _)
  unfold concentration
  rw [hsplit, hwhole, ← hf, ← hf, Herfindahl.hhi_split hsign']

variable (prices) in
/-- The concentration stays only when there are no weights or a part has no value. -/
theorem concentration_split_iff (hadd : h₁.value + h₂.value = h.value) (hsign : 0 ≤ h₁.value * h₂.value) :
    concentration prices (a ++ h :: b ++ c) = concentration prices (a ++ h₁ :: b ++ h₂ :: c) ↔
      totalValue (a ++ h :: b ++ c) ≤ 0 ∨ h₁.value = 0 ∨ h₂.value = 0 := by
  by_cases hpos : 0 < totalValue (a ++ h :: b ++ c)
  · obtain ⟨f, hf, hsplit, hwhole⟩ := holdingWeights_split prices hadd hpos
    have hsign' : 0 ≤ f h₁ * f h₂ := by
      rw [hf, hf, div_mul_div_comm]
      exact div_nonneg hsign (mul_self_nonneg _)
    have hzero : ∀ k, f k = 0 ↔ k.value = 0 := fun k => by rw [hf, div_eq_zero_iff, or_iff_left hpos.ne']
    unfold concentration
    rw [hsplit, hwhole, eq_comm, Herfindahl.hhi_split_eq_iff hsign', hzero, hzero, or_iff_right (not_le.mpr hpos)]
  · have hneg := not_lt.mp hpos
    have hneg' : totalValue (a ++ h₁ :: b ++ h₂ :: c) ≤ 0 := by rwa [totalValue_split hadd]
    unfold concentration
    rw [portfolioContext_of_nonpos hneg, portfolioContext_of_nonpos hneg']
    exact iff_of_true rfl (.inl hneg)

/-! ## Weights and series by symbol -/

/-- The writes of one symbol for two holdings of an instrument. -/
theorem ofWrites_split {β : Type*} (f : Holding → Option β) (hf : f h₁ = f h) (hf₂ : f h₂ = f h)
    (hi₁ : h₁.instrument = h.instrument) (hi₂ : h₂.instrument = h.instrument)
    (hb : ∀ k ∈ b, k.instrument.symbol ≠ h.instrument.symbol) :
    Dict.ofWrites ((a ++ h₁ :: b ++ h₂ :: c).filterMap fun k => (f k).map fun x => (k.instrument.symbol, x)) =
      Dict.ofWrites ((a ++ h :: b ++ c).filterMap fun k => (f k).map fun x => (k.instrument.symbol, x)) := by
  rw [List.filterMap_append, List.filterMap_append, List.filterMap_append, List.filterMap_append]
  cases hx : f h with
  | none =>
    rw [List.filterMap_cons_none (by rw [hf, hx]; rfl), List.filterMap_cons_none (by rw [hf₂, hx]; rfl),
      List.filterMap_cons_none (by rw [hx]; rfl)]
  | some x =>
    rw [List.filterMap_cons_some (b := (h.instrument.symbol, x)) (by rw [hf, hx, hi₁]; rfl),
      List.filterMap_cons_some (b := (h.instrument.symbol, x)) (by rw [hf₂, hx, hi₂]; rfl),
      List.filterMap_cons_some (b := (h.instrument.symbol, x)) (by rw [hx]; rfl)]
    apply Dict.ofWrites_repeated
    intro hmem
    obtain ⟨⟨symbol, y⟩, he, rfl⟩ := List.mem_map.mp hmem
    obtain ⟨k, hk, hkx⟩ := List.mem_filterMap.mp he
    obtain ⟨z, -, heq⟩ := Option.map_eq_some_iff.mp hkx
    exact hb k hk (congrArg Prod.fst heq)

/-- The closes do not depend on how often an instrument is held. -/
theorem seriesOf_split (hi₁ : h₁.instrument = h.instrument) (hi₂ : h₂.instrument = h.instrument) :
    seriesOf prices (a ++ h₁ :: b ++ h₂ :: c) = seriesOf prices (a ++ h :: b ++ c) := by
  have hids : ∀ id, id ∈ (a ++ h₁ :: b ++ h₂ :: c).map (fun k => k.instrument.id) ↔
      id ∈ (a ++ h :: b ++ c).map fun k => k.instrument.id := by
    intro id
    simp only [List.map_append, List.map_cons, List.mem_append, List.mem_cons, hi₁, hi₂]
    tauto
  funext k
  unfold seriesOf closesById
  rw [loadCloseSeriesBulk_congr prices priceBars hids]

variable (prices) in
/-- A split position without a value is not seen in the dictionaries. -/
theorem portfolioContext_of_worthless (h₁z : h₁.value = 0) (h₂z : h₂.value = 0) (hz : h.value = 0)
    (hi₁ : h₁.instrument = h.instrument) (hi₂ : h₂.instrument = h.instrument)
    (hb : ∀ k ∈ b, k.instrument.symbol ≠ h.instrument.symbol) :
    (portfolioContext prices (a ++ h₁ :: b ++ h₂ :: c)).weightsBySymbol =
        (portfolioContext prices (a ++ h :: b ++ c)).weightsBySymbol ∧
      (portfolioContext prices (a ++ h₁ :: b ++ h₂ :: c)).priceSeries =
        (portfolioContext prices (a ++ h :: b ++ c)).priceSeries := by
  have htotal : totalValue (a ++ h₁ :: b ++ h₂ :: c) = totalValue (a ++ h :: b ++ c) :=
    totalValue_split (by rw [h₁z, h₂z, hz, add_zero])
  by_cases hpos : 0 < totalValue (a ++ h :: b ++ c)
  · have hweights := ofWrites_split (a := a) (c := c)
      (fun k => some (k.value / totalValue (a ++ h :: b ++ c))) (by rw [h₁z, hz]) (by rw [h₂z, hz]) hi₁ hi₂ hb
    simp only [Option.map_some, List.filterMap_eq_map'] at hweights
    have hseries := ofWrites_split (a := a) (c := c) (seriesOf prices (a ++ h :: b ++ c))
      (by unfold seriesOf; rw [hi₁]) (by unfold seriesOf; rw [hi₂]) hi₁ hi₂ hb
    unfold portfolioContext
    simp only [htotal, if_pos hpos, seriesOf_split hi₁ hi₂]
    exact ⟨hweights, hseries⟩
  · have hneg := not_lt.mp hpos
    rw [portfolioContext_of_nonpos hneg, portfolioContext_of_nonpos (htotal.trans_le hneg)]
    exact ⟨rfl, rfl⟩

/-! ## The scores of a split -/

theorem computeConcentration_score_congr {ws ws' : List ℚ} (hnil : ws = [] ↔ ws' = [])
    (hmagnitude : Herfindahl.magnitude ws = Herfindahl.magnitude ws')
    (hhhi : Herfindahl.hhi ws = Herfindahl.hhi ws') :
    (computeConcentration ws).score = (computeConcentration ws').score := by
  unfold computeConcentration
  simp only [hnil, hmagnitude, hhhi]
  split_ifs <;> rfl

theorem computeDiversification_score_congr {ws ws' : List ℚ} (hnil : ws = [] ↔ ws' = [])
    (hmagnitude : Herfindahl.magnitude ws = Herfindahl.magnitude ws')
    (hhhi : Herfindahl.hhi ws = Herfindahl.hhi ws') :
    (computeDiversification ws).score = (computeDiversification ws').score := by
  unfold computeDiversification
  simp only [hnil, hmagnitude, hhhi]
  split_ifs <;> rfl

/-- The scores read the dictionaries, and the concentration and magnitude of the holding weights. -/
theorem sameScores_of {raw' : List Holding} (sqrt : ℚ → ℚ) (today : ℤ)
    (hhhi : concentration prices raw = concentration prices raw')
    (hnil : (portfolioContext prices raw).holdingWeights = [] ↔ (portfolioContext prices raw').holdingWeights = [])
    (hmagnitude : Herfindahl.magnitude (portfolioContext prices raw).holdingWeights =
      Herfindahl.magnitude (portfolioContext prices raw').holdingWeights)
    (hweights : (portfolioContext prices raw).weightsBySymbol = (portfolioContext prices raw').weightsBySymbol)
    (hseries : (portfolioContext prices raw).priceSeries = (portfolioContext prices raw').priceSeries) :
    SameScores sqrt prices today raw raw' := by
  have hscore := computeConcentration_score_congr hnil hmagnitude hhhi
  refine ⟨hhhi, hscore, ?_, ?_, ?_, ?_⟩
  · rw [hweights, hseries]
  · rw [hweights, hseries]
  · unfold riskMeter
    dsimp only
    rw [hweights, hseries]
    exact computeRiskMeter_overallScore_congr hscore sqrt _ _ none today
  · have hhealth : ∀ raw, (healthContext prices raw).holdingWeights = (portfolioContext prices raw).holdingWeights :=
      fun raw => healthContext_holdingWeights.trans portfolioContext_holdingWeights.symm
    rw [hhealth, hhealth]
    exact computeDiversification_score_congr hnil hmagnitude hhhi

namespace Split

variable (s : Split connections userId)

theorem whole_value_eq_zero_iff : (Holding.ofRow (s.whole, s.instrument)).value = 0 ↔ s.whole.avgCost = 0 := by
  unfold Holding.ofRow
  dsimp only
  rw [mul_eq_zero, or_iff_right s.whole_quantity_ne_zero]

/-- A split leaves the concentration as it is exactly when the portfolio has no positive value, and
    so no weights, or the position has no value. -/
theorem concentration_iff (prices : List PriceHistory) :
    concentration prices (holdings connections userId s.before) =
        concentration prices (holdings connections userId s.after) ↔
      totalValue (holdings connections userId s.before) ≤ 0 ∨ s.whole.avgCost = 0 := by
  obtain ⟨hz₁, hz₂⟩ := s.part_value_eq_zero_iff
  have hconcentration := concentration_split_iff prices (a := s.holdingsOf s.rows₁)
    (b := s.holdingsOf s.rows₂) (c := s.holdingsOf s.rows₃) s.value_add s.part_value_mul_nonneg
  rwa [hz₁, hz₂, or_self, s.whole_value_eq_zero_iff, ← s.holdings_before, ← s.holdings_after] at hconcentration

/-- Without weights no score changes. -/
theorem sameScores_of_nonpos (sqrt : ℚ → ℚ) (prices : List PriceHistory) (today : ℤ)
    (hneg : totalValue (holdings connections userId s.before) ≤ 0) :
    SameScores sqrt prices today (holdings connections userId s.before) (holdings connections userId s.after) := by
  have hneg' : totalValue (holdings connections userId s.after) ≤ 0 := by
    rw [s.holdings_after, totalValue_split s.value_add, ← s.holdings_before]
    exact hneg
  refine sameScores_of sqrt today ((s.concentration_iff prices).mpr (.inl hneg)) ?_ ?_ ?_ ?_ <;>
    rw [portfolioContext_of_nonpos hneg, portfolioContext_of_nonpos hneg']

/-- Neither does one change when the position has no value: its parts write what it wrote. -/
theorem sameScores_of_worthless (sqrt : ℚ → ℚ) (prices : List PriceHistory) (today : ℤ)
    (hcost : s.whole.avgCost = 0) (hother : s.OtherSymbols)
    (hpos : 0 < totalValue (holdings connections userId s.before)) :
    SameScores sqrt prices today (holdings connections userId s.before) (holdings connections userId s.after) := by
  obtain ⟨hz₁, hz₂⟩ := s.part_value_eq_zero_iff
  have hz := s.whole_value_eq_zero_iff.mpr hcost
  rw [s.holdings_before] at hpos
  obtain ⟨f, hf, hsplit, hwhole⟩ := holdingWeights_split prices s.value_add hpos
  obtain ⟨hweights, hseries⟩ := portfolioContext_of_worthless prices
    (a := s.holdingsOf s.rows₁) (b := s.holdingsOf s.rows₂) (c := s.holdingsOf s.rows₃) (hz₁.mpr hz)
    (hz₂.mpr hz) hz rfl rfl hother
  have hsign : 0 ≤ f (.ofRow (s.part₁, s.instrument)) * f (.ofRow (s.part₂, s.instrument)) := by
    rw [hf, hz₁.mpr hz, zero_div, zero_mul]
  rw [← s.holdings_before, ← s.holdings_after] at hweights hseries
  rw [← s.holdings_before] at hwhole
  rw [← s.holdings_after] at hsplit
  refine sameScores_of sqrt today ((s.concentration_iff prices).mpr (.inr hcost)) ?_ ?_ hweights.symm hseries.symm
  · rw [hsplit, hwhole]
    simp
  · rw [hsplit, hwhole, Herfindahl.magnitude_split hsign]

end Split

/-! ## Weights by symbol -/

/-- The weights by symbol sum to 1 and keep every holding's weight exactly when there are none, or
    holdings of one symbol have equal values and those that a later one overwrites sum to 0. -/
theorem symbolWeights_iff (prices : List PriceHistory) (raw : List Holding) :
    SymbolWeights prices raw ↔
      totalValue raw ≤ 0 ∨
        (raw.Pairwise fun h k => h.instrument.symbol = k.instrument.symbol → h.value = k.value) ∧
          ((Dict.overwritten (raw.map fun h => (h.instrument.symbol, h.value))).map Prod.snd).sum = 0 := by
  by_cases hpos : 0 < totalValue raw
  · have hT := hpos.ne'
    have hwrites : (portfolioContext prices raw).weightsBySymbol =
        .ofWrites ((raw.map fun h => (h.instrument.symbol, h.value)).map fun r => (r.1, r.2 / totalValue raw)) := by
      unfold portfolioContext
      simp only [if_pos hpos, List.map_map]
      rfl
    have hkept : (∀ h ∈ raw, (portfolioContext prices raw).weightsBySymbol.get h.instrument.symbol =
        some (h.value / totalValue raw)) ↔
          raw.Pairwise fun h k => h.instrument.symbol = k.instrument.symbol → h.value = k.value := by
      have hmap : ∀ l : List (String × ℚ), (∀ r ∈ l, (Dict.ofWrites l).get r.1 = some r.2) ↔
          l.Pairwise fun a b => a.1 = b.1 → a.2 = b.2 := fun l => Dict.forall_get_ofWrites_iff
      have hiff := hmap ((raw.map fun h => (h.instrument.symbol, h.value)).map fun r => (r.1, r.2 / totalValue raw))
      rw [← hwrites, List.pairwise_map, List.pairwise_map] at hiff
      simpa [div_left_inj' hT] using hiff
    have htotal : (portfolioContext prices raw).weightsBySymbol.values.sum +
        ((Dict.overwritten (raw.map fun h => (h.instrument.symbol, h.value))).map Prod.snd).sum / totalValue raw =
          1 := by
      have hdiv : ∀ l : List (String × ℚ), ((l.map fun r => (r.1, r.2 / totalValue raw)).map Prod.snd).sum =
          (l.map Prod.snd).sum / totalValue raw := by
        intro l
        rw [List.map_map, div_eq_mul_inv, ← List.sum_map_mul_right]
        rfl
      have hall : ((raw.map fun h => (h.instrument.symbol, h.value)).map Prod.snd).sum = totalValue raw := by
        rw [List.map_map]
        rfl
      rw [hwrites, ← hdiv, ← Dict.overwritten_map (· / totalValue raw), Dict.sum_values_ofWrites, hdiv, hall,
        div_self hT]
    have hnone : (portfolioContext prices raw).weightsBySymbol.values.sum = 1 ↔
        ((Dict.overwritten (raw.map fun h => (h.instrument.symbol, h.value))).map Prod.snd).sum = 0 := by
      rw [← htotal, left_eq_add, div_eq_zero_iff, or_iff_left hT]
    unfold SymbolWeights
    rw [hkept, hnone, or_iff_right (not_le.mpr hpos), and_comm]
    exact ⟨fun h => h hpos, fun h _ => h⟩
  · exact iff_of_true (fun h => absurd h hpos) (.inl (not_lt.mp hpos))

/-- Splitting a position leaves the scores as they are only when the portfolio or the position has no
    value, and does so then; but for a position without a value whose parts have rows of their symbol
    between them. The weights by symbol sum to 1 and keep every holding's exactly when there are
    none, or holdings of one symbol have equal values and the overwritten values sum to 0. -/
theorem splitUnchanged_and_symbolWeights_iff (sqrt : ℚ → ℚ) (prices : List PriceHistory) (today : ℤ)
    (connections : List BrokerConnection) (userId : UUID) :
    (∀ s : Split connections userId,
      (SameScores sqrt prices today (holdings connections userId s.before) (holdings connections userId s.after) →
        totalValue (holdings connections userId s.before) ≤ 0 ∨ s.whole.avgCost = 0) ∧
      (totalValue (holdings connections userId s.before) ≤ 0 ∨ (s.whole.avgCost = 0 ∧ s.OtherSymbols) →
        SameScores sqrt prices today (holdings connections userId s.before)
          (holdings connections userId s.after))) ∧
    ∀ db : Session,
      SymbolWeights prices (holdings connections userId db) ↔
        totalValue (holdings connections userId db) ≤ 0 ∨
          ((holdings connections userId db).Pairwise fun h k =>
            h.instrument.symbol = k.instrument.symbol → h.value = k.value) ∧
          ((Dict.overwritten ((holdings connections userId db).map fun h =>
            (h.instrument.symbol, h.value))).map Prod.snd).sum = 0 := by
  refine ⟨fun s => ⟨fun h => (s.concentration_iff prices).mp h.1, fun h => ?_⟩, fun _ => symbolWeights_iff prices _⟩
  by_cases hpos : 0 < totalValue (holdings connections userId s.before)
  · obtain ⟨hcost, hother⟩ := h.resolve_left (not_le.mpr hpos)
    exact s.sameScores_of_worthless sqrt prices today hcost hother hpos
  · exact s.sameScores_of_nonpos sqrt prices today (not_lt.mp hpos)

/-- Two connections of user 1. -/
def twoConnections : List BrokerConnection := [⟨7, 1, .alpaca, "A", .active⟩, ⟨8, 1, .zerodha, "B", .active⟩]

/-- Ten shares of `AAPL`, and five on each of two connections. -/
def halves : Split twoConnections 1 where
  before := sampleHolding.toSession
  after := { sampleHolding.toSession with positions := [⟨7, 1, 5, 100, "USD", 0⟩, ⟨8, 1, 5, 100, "USD", 0⟩] }
  whole := ⟨7, 1, 10, 100, "USD", 0⟩
  part₁ := ⟨7, 1, 5, 100, "USD", 0⟩
  part₂ := ⟨8, 1, 5, 100, "USD", 0⟩
  instrument := ⟨1, "AAPL", "NASDAQ"⟩
  rows₁ := []
  rows₂ := []
  rows₃ := []
  connections_nodup := by decide
  catalog_eq := rfl
  before_positions := rfl
  after_positions := rfl
  instrument_mem := by decide
  whole_instrument := rfl
  part₁_instrument := rfl
  part₂_instrument := rfl
  whole_owned := by decide
  part₁_owned := by decide
  part₂_owned := by decide
  part₁_avgCost := rfl
  part₂_avgCost := rfl
  part₁_pos := by norm_num
  part₂_pos := by norm_num
  quantity_add := by norm_num

/-- One share of each `SHEL`. -/
def bothListings : Session :=
  { sampleHolding.toSession with positions := [⟨7, 2, 1, 100, "USD", 0⟩, ⟨7, 3, 1, 100, "USD", 0⟩] }

/-- The concentration of the one position is 100, of its halves 50; and of two listings of one symbol
    one weight is left. -/
theorem halves_less_concentrated :
    (computeConcentration (portfolioContext [] (holdings twoConnections 1 halves.before)).holdingWeights).score =
      some 100 ∧
    (computeConcentration (portfolioContext [] (holdings twoConnections 1 halves.after)).holdingWeights).score =
      some 50 ∧
    ¬ SameScores id [] 0 (holdings twoConnections 1 halves.before) (holdings twoConnections 1 halves.after) ∧
    (portfolioContext [] (holdings twoConnections 1 bothListings)).weightsBySymbol.items = [("SHEL", 1 / 2)] ∧
    ¬ SymbolWeights [] (holdings twoConnections 1 bothListings) := by
  have hone : (computeConcentration
      (portfolioContext [] (holdings twoConnections 1 halves.before)).holdingWeights).score = some 100 := by
    decide +kernel
  have htwo : (computeConcentration
      (portfolioContext [] (holdings twoConnections 1 halves.after)).holdingWeights).score = some 50 := by
    decide +kernel
  refine ⟨hone, htwo, fun h => ?_, by decide +kernel, fun h => ?_⟩
  · have heq := h.2.1
    rw [hone, htwo] at heq
    exact absurd heq (by decide)
  · exact absurd (h (by decide +kernel)).1 (by decide +kernel)

end Nivara.Portfolio
