import Nivara.Common.Decimal
import Nivara.Lib.Loop
import Nivara.Portfolio.SyncPositions

/-!
# The positions of a Zerodha account

`ZerodhaAdapter.get_positions` (`brokers/zerodha.py`, lines 258–290) merges the holdings and the net
positions of Kite Connect; `_parse_holding` and `_parse_net_position` (lines 377–412) read their rows.

* A row is what Kite sends of it, without the members that are not read. Its numbers are exact, and
  those of a position are `Decimal`s.
* The schema refuses a negative price. What the call itself raises is left out.

Results:

* `merged_iff`: on which lists the result is a deduplicated union in which a holding wins.
* `zeroHolding_hides_position`: a holding that was sold, and a position in the same share.
-/

namespace Nivara.Brokers

open Portfolio

/-! ## Model -/

/-- A row of `kite.holdings()` or of `kite.positions()["net"]`. -/
structure KiteRow where
  tradingsymbol : Option String := none
  exchange : Option String := none
  quantity : Option ℚ := none
  averagePrice : Option ℚ := none
  lastPrice : Option ℚ := none
  pnl : Option ℚ := none
  value : Option ℚ := none

/-- `NormalizedPosition` (`schemas/broker.py`), with the valuation of the broker. -/
structure ValuedPosition extends NormalizedPosition where
  currentPrice : ℚ
  marketValue : ℚ
  unrealizedPl : ℚ
  deriving DecidableEq, Repr

/-- `ValidationError`: a price of `NormalizedPosition` is `ge=0`. -/
structure NegativePrice where
  field : String
  deriving DecidableEq, Repr

/-- `(tradingsymbol, exchange)`. -/
abbrev PositionKey := String × String

local instance lawfulBEqPositionKey : LawfulBEq PositionKey := inferInstance

/-- The key of a row. -/
def KiteRow.key (row : KiteRow) : PositionKey := (row.tradingsymbol.getD "", row.exchange.getD "")

/-- `Decimal(str(row.get("quantity", "0")))`. -/
def KiteRow.qty (row : KiteRow) : ℚ := row.quantity.getD 0

/-- The key of a position. -/
def ValuedPosition.key (p : ValuedPosition) : PositionKey := (p.brokerSymbol, p.exchange.getD "")

/-- What the two parsers share: they differ in the market value. -/
def parsePosition (marketValue : ℚ) (raw : KiteRow) : Except NegativePrice ValuedPosition :=
  let avg := raw.averagePrice.getD 0
  let last := raw.lastPrice.getD 0
  if avg < 0 then .error ⟨"avg_entry_price"⟩
  else if last < 0 then .error ⟨"current_price"⟩
  else
    .ok
      { brokerSymbol := raw.tradingsymbol.getD ""
        quantity := raw.qty
        avgEntryPrice := avg
        currency := .INR
        exchange := raw.exchange
        currentPrice := last
        marketValue := marketValue
        unrealizedPl := raw.pnl.getD 0 }

/-- `_parse_holding`. -/
def parseHolding (raw : KiteRow) : Except NegativePrice ValuedPosition :=
  parsePosition (Decimal.multiply (raw.lastPrice.getD 0) raw.qty) raw

/-- `_parse_net_position`. -/
def parseNetPosition (raw : KiteRow) : Except NegativePrice ValuedPosition :=
  parsePosition (raw.value.getD (Decimal.multiply (raw.lastPrice.getD 0) raw.qty)) raw

/-- `seen` and `normalized`. -/
structure MergeState where
  seen : List PositionKey
  normalized : List ValuedPosition

/-- A round of the loop over the holdings. -/
def holdingStep (st : MergeState) (row : KiteRow) : Except NegativePrice MergeState := do
  return ⟨row.key :: st.seen, st.normalized ++ [← parseHolding row]⟩

/-- A round of the loop over the net positions. -/
def netStep (st : MergeState) (row : KiteRow) : Except NegativePrice MergeState :=
  if row.key ∈ st.seen then .ok st
  else if row.qty = 0 then .ok st
  else do return ⟨row.key :: st.seen, st.normalized ++ [← parseNetPosition row]⟩

/-- `get_positions`. -/
def getPositions (holdings netPositions : List KiteRow) : Except NegativePrice (List ValuedPosition) := do
  let st ← holdings.foldlM holdingStep ⟨[], []⟩
  let st ← netPositions.foldlM netStep st
  return st.normalized

/-! ## The rows -/

/-- A position that was read has the key and the quantity of its row. -/
theorem of_parsePosition {marketValue : ℚ} {row : KiteRow} {p : ValuedPosition}
    (h : parsePosition marketValue row = .ok p) : p.key = row.key ∧ p.quantity = row.qty := by
  unfold parsePosition at h
  dsimp only at h
  split_ifs at h
  cases h
  exact ⟨rfl, rfl⟩

/-! ## The loops -/

/-- Every holding is appended, whatever has been seen. -/
theorem of_holdingLoop {holdings : List KiteRow} {st st' : MergeState}
    (h : holdings.foldlM holdingStep st = .ok st') :
    (∃ read, st'.normalized = st.normalized ++ read ∧
      List.Forall₂ (fun row p => parseHolding row = .ok p) holdings read) ∧
      ∀ k, k ∈ st'.seen ↔ k ∈ holdings.map KiteRow.key ∨ k ∈ st.seen := by
  induction holdings generalizing st with
  | nil =>
    cases h
    exact ⟨⟨[], (List.append_nil _).symm, .nil⟩, by simp⟩
  | cons row holdings ih =>
    rw [List.foldlM_cons] at h
    obtain ⟨st₁, hstep, h⟩ := Loop.of_bind_eq_ok h
    obtain ⟨p, hp, hstep⟩ := Loop.of_bind_eq_ok hstep
    cases hstep
    obtain ⟨⟨read, hread, hrows⟩, hseen⟩ := ih h
    refine ⟨⟨p :: read, ?_, .cons hp hrows⟩, fun k => ?_⟩
    · rw [hread, List.append_assoc]
      rfl
    · rw [hseen, List.map_cons, List.mem_cons, List.mem_cons]
      tauto

/-- What the loop over the net positions adds: positions of keys that were not seen, each once, and
    one for every such key with a quantity. -/
structure NetAdded (netPositions : List KiteRow) (seen : List PositionKey) (added : List ValuedPosition) :
    Prop where
  nodup : (added.map ValuedPosition.key).Nodup
  not_seen : ∀ p ∈ added, p.key ∉ seen
  of_row : ∀ p ∈ added, ∃ row ∈ netPositions, row.key = p.key ∧ row.qty = p.quantity ∧ row.qty ≠ 0
  complete : ∀ row ∈ netPositions, row.qty ≠ 0 → row.key ∈ seen ∨ ∃ p ∈ added, p.key = row.key

/-- A row that is passed over. -/
theorem NetAdded.skip {row : KiteRow} {netPositions : List KiteRow} {seen : List PositionKey}
    {added : List ValuedPosition} (h : NetAdded netPositions seen added)
    (hrow : row.key ∈ seen ∨ row.qty = 0) :
    NetAdded (row :: netPositions) seen added where
  nodup := h.nodup
  not_seen := h.not_seen
  of_row p hp := by
    obtain ⟨row', hmem, hkey⟩ := h.of_row p hp
    exact ⟨row', List.mem_cons_of_mem _ hmem, hkey⟩
  complete := by
    refine List.forall_mem_cons.mpr ⟨fun hqty => ?_, h.complete⟩
    exact .inl (hrow.resolve_right hqty)

/-- A row that is taken. -/
theorem NetAdded.cons {row : KiteRow} {netPositions : List KiteRow} {seen : List PositionKey}
    {added : List ValuedPosition} {p : ValuedPosition} (h : NetAdded netPositions (row.key :: seen) added)
    (hkey : p.key = row.key) (hp : p.quantity = row.qty) (hseen : row.key ∉ seen) (hqty : row.qty ≠ 0) :
    NetAdded (row :: netPositions) seen (p :: added) where
  nodup := by
    rw [List.map_cons, List.nodup_cons]
    refine ⟨fun hmem => ?_, h.nodup⟩
    obtain ⟨p', hp', heq⟩ := List.mem_map.mp hmem
    exact h.not_seen p' hp' (by rw [heq, hkey]; exact List.mem_cons_self)
  not_seen := by
    refine List.forall_mem_cons.mpr ⟨by rwa [hkey], fun p' hp' => ?_⟩
    exact fun hmem => h.not_seen p' hp' (List.mem_cons_of_mem _ hmem)
  of_row := by
    refine List.forall_mem_cons.mpr ⟨⟨row, List.mem_cons_self, hkey.symm, hp.symm, hqty⟩, fun p' hp' => ?_⟩
    obtain ⟨row', hmem, hrow'⟩ := h.of_row p' hp'
    exact ⟨row', List.mem_cons_of_mem _ hmem, hrow'⟩
  complete := by
    refine List.forall_mem_cons.mpr ⟨fun _ => .inr ⟨p, List.mem_cons_self, hkey⟩, ?_⟩
    intro row' hrow' hqty'
    rcases h.complete row' hrow' hqty' with hmem | ⟨p', hp', heq⟩
    · rcases List.mem_cons.mp hmem with heq | hmem
      · exact .inr ⟨p, List.mem_cons_self, by rw [hkey, heq]⟩
      · exact .inl hmem
    · exact .inr ⟨p', List.mem_cons_of_mem _ hp', heq⟩

theorem of_netLoop {netPositions : List KiteRow} {st st' : MergeState}
    (h : netPositions.foldlM netStep st = .ok st') :
    ∃ added, st'.normalized = st.normalized ++ added ∧ NetAdded netPositions st.seen added := by
  induction netPositions generalizing st with
  | nil =>
    cases h
    exact ⟨[], (List.append_nil _).symm, List.nodup_nil, by simp, by simp, by simp⟩
  | cons row netPositions ih =>
    rw [List.foldlM_cons] at h
    obtain ⟨st₁, hstep, h⟩ := Loop.of_bind_eq_ok h
    unfold netStep at hstep
    split_ifs at hstep with hseen hqty
    · cases hstep
      obtain ⟨added, hadded, hnet⟩ := ih h
      exact ⟨added, hadded, hnet.skip (.inl hseen)⟩
    · cases hstep
      obtain ⟨added, hadded, hnet⟩ := ih h
      exact ⟨added, hadded, hnet.skip (.inr hqty)⟩
    · obtain ⟨p, hp, hstep⟩ := Loop.of_bind_eq_ok hstep
      cases hstep
      obtain ⟨hkey, hquantity⟩ := of_parsePosition hp
      obtain ⟨added, hadded, hnet⟩ := ih h
      refine ⟨p :: added, ?_, hnet.cons hkey hquantity hseen hqty⟩
      rw [hadded, List.append_assoc]
      rfl

/-- The two parts of the result. -/
theorem of_getPositions {holdings netPositions : List KiteRow} {positions : List ValuedPosition}
    (h : getPositions holdings netPositions = .ok positions) :
    ∃ read added, positions = read ++ added ∧
      List.Forall₂ (fun row p => parseHolding row = .ok p) holdings read ∧
      NetAdded netPositions (holdings.map KiteRow.key) added := by
  obtain ⟨st, hholdings, h⟩ := Loop.of_bind_eq_ok h
  obtain ⟨st', hnet, h⟩ := Loop.of_bind_eq_ok h
  cases h
  obtain ⟨⟨read, hread, hrows⟩, hseen⟩ := of_holdingLoop hholdings
  obtain ⟨added, hadded, hnetAdded⟩ := of_netLoop hnet
  have hkeys : ∀ k, k ∈ st.seen ↔ k ∈ holdings.map KiteRow.key := by simpa using hseen
  refine ⟨read, added, by rw [hadded, hread]; rfl, hrows, hnetAdded.nodup, ?_, hnetAdded.of_row, ?_⟩
  · intro p hp
    rw [← hkeys]
    exact hnetAdded.not_seen p hp
  · intro row hrow hqty
    rw [← hkeys]
    exact hnetAdded.complete row hrow hqty

/-! ## When the union is one -/

/-- No key stands twice, every key with a quantity in one of the lists is reported with one, and of a
    key with a quantity in the holdings only such a holding is reported. -/
structure Merged (holdings netPositions : List KiteRow) (positions : List ValuedPosition) : Prop where
  nodup : (positions.map ValuedPosition.key).Nodup
  reported : ∀ row ∈ holdings ++ netPositions, row.qty ≠ 0 →
    ∃ p ∈ positions, p.key = row.key ∧ p.quantity ≠ 0
  holding_wins : ∀ row ∈ holdings, row.qty ≠ 0 → ∀ p ∈ positions, p.key = row.key →
    ∃ row' ∈ holdings, row'.key = row.key ∧ row'.qty ≠ 0 ∧ parseHolding row' = .ok p

/-- The positions of the holdings have their keys. -/
theorem map_key_of_read {holdings : List KiteRow} {read : List ValuedPosition}
    (h : List.Forall₂ (fun row p => parseHolding row = .ok p) holdings read) :
    read.map ValuedPosition.key = holdings.map KiteRow.key := by
  induction h with
  | nil => rfl
  | cons hp _ ih => rw [List.map_cons, List.map_cons, ih, (of_parsePosition hp).1]

theorem exists_read {holdings : List KiteRow} {read : List ValuedPosition} {row : KiteRow}
    (h : List.Forall₂ (fun row p => parseHolding row = .ok p) holdings read) (hrow : row ∈ holdings) :
    ∃ p ∈ read, parseHolding row = .ok p := Loop.exists_mem_of_forall₂ h.flip hrow

/-- The result is such a union exactly when no two holdings have one key and no position with a
    quantity has the key of a holding without. -/
theorem merged_iff {holdings netPositions : List KiteRow} {positions : List ValuedPosition}
    (hok : getPositions holdings netPositions = .ok positions) :
    Merged holdings netPositions positions ↔
      (holdings.map KiteRow.key).Nodup ∧
        ∀ holding ∈ holdings, holding.qty = 0 → ∀ row ∈ netPositions, row.key = holding.key → row.qty = 0 := by
  obtain ⟨read, added, rfl, hread, hadded⟩ := of_getPositions hok
  have hkeys := map_key_of_read hread
  constructor
  · intro h
    have hnodup : (holdings.map KiteRow.key).Nodup := by
      rw [← hkeys]
      exact h.nodup.sublist ((List.sublist_append_left _ _).map _)
    refine ⟨hnodup, fun holding hholding hzero row hrow hkey => ?_⟩
    by_contra hqty
    obtain ⟨p, hp, hpkey, hpqty⟩ := h.reported row (List.mem_append_right _ hrow) hqty
    rcases List.mem_append.mp hp with hp | hp
    · -- the holding of the key is the one without a quantity
      obtain ⟨holding', hmem, hparse⟩ := Loop.exists_mem_of_forall₂ hread hp
      obtain ⟨hkey', hqty'⟩ := of_parsePosition hparse
      have heq : holding' = holding :=
        List.inj_on_of_nodup_map hnodup hmem hholding (by rw [← hkey', hpkey, hkey])
      rw [hqty', heq, hzero] at hpqty
      exact hpqty rfl
    · exact hadded.not_seen p hp (List.mem_map.mpr ⟨holding, hholding, by rw [hpkey, hkey]⟩)
  · rintro ⟨hnodup, hzero⟩
    refine ⟨?_, ?_, ?_⟩
    · rw [List.map_append, List.nodup_append, hkeys]
      refine ⟨hnodup, hadded.nodup, ?_⟩
      rintro k hk k' hk' rfl
      obtain ⟨p, hp, rfl⟩ := List.mem_map.mp hk'
      exact hadded.not_seen p hp hk
    · have hholdings : ∀ row ∈ holdings, row.qty ≠ 0 →
          ∃ p ∈ read ++ added, p.key = row.key ∧ p.quantity ≠ 0 := by
        intro row hrow hqty
        obtain ⟨p, hp, hparse⟩ := exists_read hread hrow
        obtain ⟨hkey, hquantity⟩ := of_parsePosition hparse
        exact ⟨p, List.mem_append_left _ hp, hkey, by rwa [hquantity]⟩
      intro row hrow hqty
      rcases List.mem_append.mp hrow with hrow | hrow
      · exact hholdings row hrow hqty
      · rcases hadded.complete row hrow hqty with hseen | ⟨p, hp, hkey⟩
        · obtain ⟨holding, hholding, hkey⟩ := List.mem_map.mp hseen
          rw [← hkey]
          exact hholdings holding hholding fun h0 => hqty (hzero holding hholding h0 row hrow hkey.symm)
        · obtain ⟨row', -, -, hquantity, hqty'⟩ := hadded.of_row p hp
          exact ⟨p, List.mem_append_right _ hp, hkey, by rwa [← hquantity]⟩
    · intro row hrow hqty p hp hkey
      rcases List.mem_append.mp hp with hp | hp
      · obtain ⟨row', hmem, hparse⟩ := Loop.exists_mem_of_forall₂ hread hp
        have heq : row' = row :=
          List.inj_on_of_nodup_map hnodup hmem hrow (by rw [← (of_parsePosition hparse).1, hkey])
        exact ⟨row', hmem, by rw [heq], by rwa [heq], hparse⟩
      · exact absurd (List.mem_map.mpr ⟨row, hrow, hkey.symm⟩) (hadded.not_seen p hp)

/-! ## A share that was sold and bought -/

/-- What is left of a holding after its sale, and a position of five shares. -/
def soldHolding : KiteRow := { tradingsymbol := some "INFY", exchange := some "NSE", quantity := some 0 }

def fiveShares : KiteRow :=
  { tradingsymbol := some "INFY", exchange := some "NSE", quantity := some 5, lastPrice := some 1500 }

/-- The position of the holding. -/
def soldPosition : ValuedPosition := ⟨⟨"INFY", 0, 0, .INR, some "NSE"⟩, 0, 0, 0⟩

theorem getPositions_sold : getPositions [soldHolding] [fiveShares] = .ok [soldPosition] := by
  decide +kernel

theorem merged_iff_sample :
    Merged [soldHolding] [fiveShares] [soldPosition] ↔
      ([soldHolding].map KiteRow.key).Nodup ∧
        ∀ holding ∈ [soldHolding], holding.qty = 0 →
          ∀ row ∈ [fiveShares], row.key = holding.key → row.qty = 0 :=
  merged_iff getPositions_sold

/-- The five shares are not reported, and a holding that comes in two rows is reported twice. -/
theorem zeroHolding_hides_position :
    (¬ ∀ holdings netPositions positions, getPositions holdings netPositions = .ok positions →
      Merged holdings netPositions positions) ∧
    ∃ positions, getPositions [fiveShares, fiveShares] [] = .ok positions ∧
      ¬ (positions.map ValuedPosition.key).Nodup := by
  constructor
  · intro h
    obtain ⟨p, hp, -, hqty⟩ := (h _ _ _ getPositions_sold).reported fiveShares (by simp)
      (by decide +kernel)
    rw [List.mem_singleton.mp hp] at hqty
    exact hqty rfl
  · refine ⟨_, rfl, ?_⟩
    decide +kernel

end Nivara.Brokers
