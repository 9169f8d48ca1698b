import Nivara.Analysis.IndicatorCache
import Nivara.CorporateActions.Service

/-!
# `apply_split` and the indicator cache

One call of `apply_split` (`services/corporate_actions.py`, lines 227–334) and the requests
of the analysis endpoint (`api/analysis.py`) for the same instrument, each database access
and each Redis command a step of its own.

* A request reads the committed bars and then calls `analyze_with_cache` on them; an entry
  of the cache carries what its request has read.
* `scan_iter` returns every key that is there from its start to its end, and possibly
  others. The keys it has yet to return are `todo`.
* An exception in `_invalidate_indicator_cache` is logged, and the call goes on.
* No one else writes the bars. The keys in Redis are `cache`, and not the names in the
  `Store`.
* A call that finds the action marked is `skipped`: it returns 0 and does nothing.

Results:

* `cacheKey_invalidated`: the pattern of the invalidation matches the key of every indicator.
* `SplitState.Inv.step`: an entry is still to be deleted, or computed from the bars that the
  call leaves.
* `postSplit_of_run`: when the call has returned, every entry is computed from the adjusted
  bars, in every interleaving in which an entry from other bars is written only under a key
  that is still to be deleted.
* `exists_stale_of_not_writesCurrent`: any other write leads to an entry from other bars in
  the end.
-/

namespace Nivara.CorporateActions

open Analysis Views Transition

/-! ## Requests -/

/-- `load_ohlcv_from_db`: the last `bars` rows of the instrument, the oldest first. -/
def loadOhlcvFromDb (prices : List PriceHistory) (instrumentId : UUID) (bars : ℕ) : List PriceHistory :=
  let rows := prices.filter fun row => row.instrumentId = instrumentId
  ((rows.insertionSort fun row row' => row'.timestamp ≤ row.timestamp).take bars).reverse

/-- What a request has read: the committed bars, and how many of them it asks for. -/
structure PriceRead where
  prices : List PriceHistory
  bars : ℕ
  deriving DecidableEq

def PriceRead.ohlcv (instrumentId : UUID) (r : PriceRead) : List PriceHistory :=
  loadOhlcvFromDb r.prices instrumentId r.bars

/-- `_cache_key`. -/
def cacheKey (instrumentId : UUID) (k : Indicator) : String := s!"tech:{instrumentId.str}:{k.name}"

/-- The invalidation removes the key of every indicator. -/
theorem cacheKey_invalidated (instrumentId : UUID) (k : Indicator) (cache : List String) :
    cacheKey instrumentId k ∉ (invalidateIndicatorCache instrumentId cache).1 := by
  have hmatch :
      s!"tech:{instrumentId.str}:".toList.isPrefixOf (cacheKey instrumentId k).toList = true := by
    rw [List.isPrefixOf_iff_prefix]
    simp [cacheKey, toString]
  intro hmem
  have hkept := (List.mem_filter.mp hmem).2
  simp only [hmatch] at hkept
  cases hkept

variable {signals : Signals (List PriceHistory)} {d : SplitDetection}

/-- The indicators of the instrument in Redis. -/
abbrev IndicatorCache (signals : Signals (List PriceHistory)) (d : SplitDetection) :=
  Cache signals (PriceRead.ohlcv d.instrumentId)

/-- A request, by what it does next. -/
inductive Request (signals : Signals (List PriceHistory)) (d : SplitDetection)
  /-- `load_ohlcv_from_db`. -/
  | read
  /-- No price history. -/
  | notFound
  /-- `analyze_with_cache`. -/
  | analyze (call : CacheCall signals (PriceRead.ohlcv d.instrumentId))

/-- What the request writes next. -/
def Request.writes : Request signals d → Option (Indicator × PriceRead)
  | .analyze call => call.writes
  | _ => none

/-! ## The split -/

/-- What the `UPDATE` has written in the session of the call, and the action as read. -/
structure Update where
  row : CorporateAction
  prices : List PriceHistory
  rowsUpdated : ℕ

/-- The call of `apply_split`, by what it does next. -/
inductive SplitCall
  /-- `session.get(CorporateAction)`. -/
  | read
  /-- The `UPDATE`. -/
  | update (row : CorporateAction)
  /-- The first command of `scan_iter`. -/
  | scan (u : Update)
  /-- The rest of the invalidation. -/
  | invalidate (u : Update) (todo : Indicator → Bool) (deleted : ℕ)
  /-- `row.notes = new_notes`, in the session. -/
  | mark (u : Update) (deleted : ℕ)
  /-- `session.commit()`. -/
  | commit (u : Update) (notes : String) (deleted : ℕ)
  | returned (rowsUpdated : ℕ)
  | skipped
  | raised (error : ServiceError)

/-- A key that is gone need not be returned by the scan. -/
def SplitCall.forget (k : Indicator) : SplitCall → SplitCall
  | .invalidate u todo deleted => .invalidate u (Function.update todo k false) deleted
  | c => c

/-- The committed tables, the cache, and the calls. -/
structure SplitState (signals : Signals (List PriceHistory)) (d : SplitDetection) (ι : Type) where
  tables : Store
  split : SplitCall
  cache : IndicatorCache signals d
  requests : ι → Request signals d

/-- What happens next. -/
inductive SplitLabel (ι : Type)
  /-- The next step of `apply_split`. -/
  | split
  /-- The scan returns a key, and it is deleted. -/
  | drop (k : Indicator)
  /-- A command of the invalidation raises. -/
  | fail
  /-- The next step of a request. -/
  | advance (i : ι)
  /-- The time to live of a key runs out. -/
  | expire (k : Indicator)

variable {ι : Type} [DecidableEq ι]

namespace SplitState

variable (historyDays : ℤ) (userId : Option UUID) (bars : ι → ℕ)

/-- The next step of `apply_split`. -/
def advanceSplit (s : SplitState signals d ι) : SplitCall → Option (SplitState signals d ι)
  | .read =>
    match s.tables.getAction d.corporateActionId with
    | none => some { s with split := .raised (actionNotFound d.corporateActionId) }
    | some row => some { s with split := if row.applied then .skipped else .update row }
  | .update row =>
    match adjustPrices historyDays d s.tables.prices with
    | .error e => some { s with split := .raised e }
    | .ok (prices, rowsUpdated) => some { s with split := .scan ⟨row, prices, rowsUpdated⟩ }
  | .scan u => some { s with split := .invalidate u (fun k => (s.cache k).isSome) 0 }
  | .invalidate u todo deleted =>
    if ∀ k, todo k = false then some { s with split := .mark u deleted } else none
  | .mark u deleted => some { s with split := .commit u u.row.newNotes deleted }
  | .commit u notes deleted =>
    some { s with
      tables := s.tables.commitSplit d userId notes u.prices u.rowsUpdated deleted
      split := .returned u.rowsUpdated }
  | .returned _ => none
  | .skipped => none
  | .raised _ => none

/-- The next step of a request. -/
def advanceRequest (s : SplitState signals d ι) (i : ι) :
    Request signals d → Option (SplitState signals d ι)
  | .read =>
    let r : PriceRead := ⟨s.tables.prices, bars i⟩
    let next := if r.ohlcv d.instrumentId = [] then .notFound else .analyze (.load r indicators empty)
    some { s with requests := Function.update s.requests i next }
  | .notFound => none
  | .analyze call =>
    (call.advance s.cache).map fun (cache, call) =>
      { s with cache := cache, requests := Function.update s.requests i (.analyze call) }

/-- One step of the system. -/
def step (s : SplitState signals d ι) : SplitLabel ι → Option (SplitState signals d ι)
  | .split => s.advanceSplit historyDays userId s.split
  | .drop k =>
    match s.split with
    | .invalidate u todo deleted =>
      some { s with
        split := .invalidate u (Function.update todo k false) (deleted + 1)
        cache := Function.update s.cache k none }
    | _ => none
  | .fail =>
    match s.split with
    | .scan u => some { s with split := .mark u 0 }
    | .invalidate u _ deleted => some { s with split := .mark u deleted }
    | _ => none
  | .advance i => s.advanceRequest bars i (s.requests i)
  | .expire k =>
    some { s with split := s.split.forget k, cache := Function.update s.cache k none }

end SplitState

/-- Before the call and the requests. -/
def SplitState.initial (tables : Store) (cache : IndicatorCache signals d) : SplitState signals d ι :=
  ⟨tables, .read, cache, fun _ => .read⟩

/-! ## What is to hold -/

/-- When `apply_split` has returned, the bars are adjusted, and every entry of the cache is
    computed from the adjusted bars. -/
def SplitState.PostSplit (historyDays : ℤ) (prices₀ : List PriceHistory) (s : SplitState signals d ι) :
    Prop :=
  ∀ n, s.split = .returned n → adjustPrices historyDays d prices₀ = .ok (s.tables.prices, n) ∧
    ∀ k, ∀ e ∈ s.cache k, e.run.prices = s.tables.prices

/-- The bars as `apply_split` leaves them, once it has updated them. -/
def SplitState.current (s : SplitState signals d ι) : List PriceHistory :=
  match s.split with
  | .scan u => u.prices
  | .invalidate u _ _ => u.prices
  | .mark u _ => u.prices
  | .commit u _ _ => u.prices
  | _ => s.tables.prices

/-- An entry under the key is deleted before `apply_split` returns, if it does return. -/
def SplitCall.Clears (k : Indicator) : SplitCall → Prop
  | .invalidate _ todo _ => todo k = true
  | .mark _ _ => False
  | .commit _ _ _ => False
  | .returned _ => False
  | _ => True

/-- The condition on a step: what a request writes is still to be deleted, or computed from
    the current bars; the invalidation does not fail as long as there is another entry. -/
def SplitState.WritesCurrent (s : SplitState signals d ι) : SplitLabel ι → Prop
  | .advance i => ∀ w ∈ (s.requests i).writes, s.split.Clears w.1 ∨ w.2.prices = s.current
  | .fail => ∀ k, ∀ e ∈ s.cache k, e.run.prices = s.current
  | _ => True

instance (k : Indicator) (c : SplitCall) : Decidable (c.Clears k) := by
  unfold SplitCall.Clears
  split <;> infer_instance

omit [DecidableEq ι] in
instance (s : SplitState signals d ι) (l : SplitLabel ι) : Decidable (s.WritesCurrent l) := by
  unfold SplitState.WritesCurrent
  split <;> infer_instance

/-! ## The invariant -/

/-- What the call has done to the bars. -/
def SplitCall.PricesOk (historyDays : ℤ) (d : SplitDetection) (prices₀ prices : List PriceHistory) :
    SplitCall → Prop
  | .scan u => prices = prices₀ ∧ adjustPrices historyDays d prices₀ = .ok (u.prices, u.rowsUpdated)
  | .invalidate u _ _ =>
    prices = prices₀ ∧ adjustPrices historyDays d prices₀ = .ok (u.prices, u.rowsUpdated)
  | .mark u _ => prices = prices₀ ∧ adjustPrices historyDays d prices₀ = .ok (u.prices, u.rowsUpdated)
  | .commit u _ _ =>
    prices = prices₀ ∧ adjustPrices historyDays d prices₀ = .ok (u.prices, u.rowsUpdated)
  | .returned n => adjustPrices historyDays d prices₀ = .ok (prices, n)
  | _ => prices = prices₀

/-- The invariant of the interleaving. -/
structure SplitState.Inv (historyDays : ℤ) (prices₀ : List PriceHistory) (s : SplitState signals d ι) :
    Prop where
  prices : s.split.PricesOk historyDays d prices₀ s.tables.prices
  entries : ∀ k, ∀ e ∈ s.cache k, s.split.Clears k ∨ e.run.prices = s.current

variable {historyDays : ℤ} {userId : Option UUID} {bars : ι → ℕ} {prices₀ : List PriceHistory}
  {s t : SplitState signals d ι}

omit [DecidableEq ι] in
theorem SplitState.initial_inv (tables : Store) (cache : IndicatorCache signals d) :
    (SplitState.initial tables cache : SplitState signals d ι).Inv historyDays tables.prices :=
  ⟨rfl, fun _ _ _ => .inl trivial⟩

/-- A key that is gone. -/
theorem SplitCall.Clears.forget {c : SplitCall} {k k' : Indicator} (h : c.Clears k') (hne : k' ≠ k) :
    (c.forget k).Clears k' := by
  cases c with
  | invalidate u todo deleted => exact (Function.update_of_ne hne ..).trans h
  | _ => exact h

theorem SplitCall.PricesOk.forget {c : SplitCall} {prices : List PriceHistory}
    (h : c.PricesOk historyDays d prices₀ prices) (k : Indicator) :
    (c.forget k).PricesOk historyDays d prices₀ prices := by
  cases c <;> exact h

omit [DecidableEq ι] in
theorem SplitState.current_forget (k : Indicator) (cache : IndicatorCache signals d) :
    SplitState.current { s with split := s.split.forget k, cache := cache } = s.current := by
  unfold SplitState.current SplitCall.forget
  cases s.split <;> rfl

omit [DecidableEq ι] in
/-- The next step of `apply_split` keeps the invariant. -/
theorem SplitState.Inv.advanceSplit (h : s.Inv historyDays prices₀)
    (hstep : s.advanceSplit historyDays userId s.split = some t) : t.Inv historyDays prices₀ := by
  obtain ⟨hprices, hentries⟩ := h
  obtain ⟨tables, split, cache, requests⟩ := s
  cases split with
  | read =>
    simp only [SplitState.advanceSplit] at hstep
    cases hrow : tables.getAction d.corporateActionId with
    | none =>
      simp only [hrow] at hstep
      cases hstep
      exact ⟨hprices, fun _ _ _ => .inl trivial⟩
    | some row =>
      simp only [hrow] at hstep
      cases hstep
      cases row.applied <;> exact ⟨hprices, fun _ _ _ => .inl trivial⟩
  | update row =>
    obtain rfl : tables.prices = prices₀ := hprices
    simp only [SplitState.advanceSplit] at hstep
    split at hstep <;> cases hstep
    · exact ⟨rfl, fun _ _ _ => .inl trivial⟩
    · exact ⟨⟨rfl, by assumption⟩, fun _ _ _ => .inl trivial⟩
  | scan u =>
    cases hstep
    refine ⟨hprices, fun k e he => .inl ?_⟩
    exact Option.isSome_of_mem he
  | invalidate u todo deleted =>
    simp only [SplitState.advanceSplit] at hstep
    split_ifs at hstep with hdone
    cases hstep
    refine ⟨hprices, fun k e he => .inr ?_⟩
    obtain htodo | hcurrent := hentries k e he
    · exact absurd ((hdone k).symm.trans htodo) Bool.false_ne_true
    · exact hcurrent
  | mark u deleted =>
    cases hstep
    exact ⟨hprices, hentries⟩
  | commit u notes deleted =>
    cases hstep
    obtain ⟨-, hadjusted⟩ := hprices
    exact ⟨hadjusted, hentries⟩
  | returned n => cases hstep
  | skipped => cases hstep
  | raised e => cases hstep

/-- The next step of a request keeps the invariant. -/
theorem SplitState.Inv.advanceRequest (h : s.Inv historyDays prices₀) {i : ι}
    (hcond : ∀ w ∈ (s.requests i).writes, s.split.Clears w.1 ∨ w.2.prices = s.current)
    (hstep : s.advanceRequest bars i (s.requests i) = some t) : t.Inv historyDays prices₀ := by
  cases hrequest : s.requests i with
  | read =>
    rw [hrequest] at hstep
    cases hstep
    exact ⟨h.prices, h.entries⟩
  | notFound =>
    rw [hrequest] at hstep
    cases hstep
  | analyze call =>
    rw [hrequest] at hstep hcond
    obtain ⟨⟨cache, call'⟩, hadvance, ht⟩ := Option.map_eq_some_iff.mp hstep
    cases ht
    obtain ⟨-, rfl⟩ | ⟨k, run, hwrites, rfl⟩ := CacheCall.advance_cache hadvance
    · exact ⟨h.prices, h.entries⟩
    · refine ⟨h.prices, fun k' e he => ?_⟩
      by_cases hk : k' = k
      · subst hk
        rw [← Option.some.inj ((Cache.set_self s.cache k' run).symm.trans he)]
        exact hcond (k', run) hwrites
      · exact h.entries k' e ((Cache.set_of_ne s.cache run hk).symm.trans he)

/-- One step of the system keeps the invariant. -/
theorem SplitState.Inv.step (h : s.Inv historyDays prices₀) {l : SplitLabel ι}
    (hcond : s.WritesCurrent l) (hstep : s.step historyDays userId bars l = some t) :
    t.Inv historyDays prices₀ := by
  cases l with
  | split => exact h.advanceSplit hstep
  | advance i => exact h.advanceRequest hcond hstep
  | expire k =>
    cases hstep
    refine ⟨h.prices.forget k, fun k' e he => ?_⟩
    obtain ⟨hk, he⟩ := mem_delete he
    rw [SplitState.current_forget]
    exact (h.entries k' e he).imp_left fun hclears => hclears.forget hk
  | drop k =>
    obtain ⟨hprices, hentries⟩ := h
    obtain ⟨tables, split, cache, requests⟩ := s
    cases split with
    | invalidate u todo deleted =>
      cases hstep
      refine ⟨hprices, fun k' e he => ?_⟩
      obtain ⟨hk, he⟩ := mem_delete he
      refine (hentries k' e he).imp_left fun htodo => ?_
      exact (Function.update_of_ne hk ..).trans htodo
    | _ => cases hstep
  | fail =>
    obtain ⟨hprices, hentries⟩ := h
    obtain ⟨tables, split, cache, requests⟩ := s
    cases split with
    | scan u =>
      cases hstep
      exact ⟨hprices, fun k e he => .inr (hcond k e he)⟩
    | invalidate u todo deleted =>
      cases hstep
      exact ⟨hprices, fun k e he => .inr (hcond k e he)⟩
    | _ => cases hstep

/-- In every interleaving in which requests write entries from other bars only under keys
    that are still to be deleted, and the invalidation fails only where there is none of
    them: after `apply_split` every entry is computed from the adjusted bars. -/
theorem postSplit_of_run (signals : Signals (List PriceHistory)) (historyDays : ℤ) (d : SplitDetection)
    (userId : Option UUID) (bars : ι → ℕ) (tables : Store) (cache : IndicatorCache signals d)
    (s : SplitState signals d ι)
    (hrun : Run (fun s l t => s.step historyDays userId bars l = some t) (fun s l => s.WritesCurrent l)
      (SplitState.initial tables cache) s) : s.PostSplit historyDays tables.prices := by
  have hinv : s.Inv historyDays tables.prices := hrun.invariant (SplitState.initial_inv tables cache)
    fun _ _ _ h hcond hstep => h.step hcond hstep
  obtain ⟨hprices, hentries⟩ := hinv
  obtain ⟨tables', split, cache', requests⟩ := s
  intro n hreturned
  obtain rfl : split = .returned n := hreturned
  refine ⟨hprices, fun k e he => ?_⟩
  obtain hcleared | hcurrent := hentries k e he
  · exact absurd hcleared id
  · exact hcurrent

/-! ## The condition is needed -/

section

variable (historyDays userId bars) in
/-- The states that the system reaches. -/
def SplitState.Reaches (s t : SplitState signals d ι) : Prop :=
  Run (fun s l t => s.step historyDays userId bars l = some t) Unconditional s t

theorem SplitState.reaches_of_step {l : SplitLabel ι} (h : s.step historyDays userId bars l = some t) :
    s.Reaches historyDays userId bars t := .tail l .refl trivial h

variable (tables : Store) (u : Update) (todo : Indicator → Bool) (deleted : ℕ)
  (cache : IndicatorCache signals d) (requests : ι → Request signals d)

/-- After the invalidation the call returns, and the cache is as it was. -/
theorem exists_returned_of_mark :
    ∃ t, SplitState.Reaches historyDays userId bars ⟨tables, .mark u deleted, cache, requests⟩ t ∧
      t.split = .returned u.rowsUpdated ∧ t.tables.prices = u.prices ∧ t.cache = cache := by
  let committed : SplitState signals d ι :=
    ⟨tables.commitSplit d userId u.row.newNotes u.prices u.rowsUpdated deleted,
      .returned u.rowsUpdated, cache, requests⟩
  have hmark : SplitState.Reaches historyDays userId bars ⟨tables, .mark u deleted, cache, requests⟩
      ⟨tables, .commit u u.row.newNotes deleted, cache, requests⟩ :=
    SplitState.reaches_of_step (l := .split) rfl
  have hcommit : SplitState.Reaches historyDays userId bars
      ⟨tables, .commit u u.row.newNotes deleted, cache, requests⟩ committed :=
    SplitState.reaches_of_step (l := .split) rfl
  exact ⟨committed, Run.trans hmark hcommit, rfl, rfl, rfl⟩

variable (historyDays userId bars) in
/-- The scan returns the keys of a list only. -/
theorem exists_dropped {k : Indicator} (keys : List Indicator) (hk : k ∉ keys) :
    ∃ todo' deleted' cache', SplitState.Reaches historyDays userId bars
        ⟨tables, .invalidate u todo deleted, cache, requests⟩
        ⟨tables, .invalidate u todo' deleted', cache', requests⟩ ∧
      (∀ k', todo' k' = true → todo k' = true ∧ k' ∉ keys) ∧ cache' k = cache k := by
  induction keys generalizing todo deleted cache with
  | nil => exact ⟨todo, deleted, cache, .refl, fun k' h => ⟨h, List.not_mem_nil⟩, rfl⟩
  | cons key keys ih =>
    obtain ⟨hne, hk⟩ := not_or.mp (mt List.mem_cons.mpr hk)
    obtain ⟨todo', deleted', cache', hrun, htodo, hcache⟩ :=
      ih (Function.update todo key false) (deleted + 1) (Function.update cache key none) hk
    refine ⟨todo', deleted', cache', ?_, fun k' hk' => ?_, ?_⟩
    · exact Run.trans (SplitState.reaches_of_step (l := .drop key) rfl) hrun
    · obtain ⟨hleft, hnot⟩ := htodo k' hk'
      by_cases heq : k' = key
      · subst heq
        rw [Function.update_self] at hleft
        cases hleft
      · rw [Function.update_of_ne heq] at hleft
        exact ⟨hleft, fun hmem => (List.mem_cons.mp hmem).elim heq hnot⟩
    · exact hcache.trans (Function.update_of_ne hne ..)

/-- A key that the scan need not return any more keeps its entry. -/
theorem exists_mark_of_invalidate {k : Indicator} (hk : todo k = false) :
    ∃ deleted' cache', SplitState.Reaches historyDays userId bars
        ⟨tables, .invalidate u todo deleted, cache, requests⟩
        ⟨tables, .mark u deleted', cache', requests⟩ ∧ cache' k = cache k := by
  obtain ⟨todo', deleted', cache', hdrop, htodo, hcache⟩ := exists_dropped historyDays userId bars
    tables u todo deleted cache requests (indicators.erase k) (k := k) (by cases k <;> decide)
  have hdone : ∀ k', todo' k' = false := by
    intro k'
    by_contra hleft
    obtain ⟨hleft, hnot⟩ := htodo k' (Bool.not_eq_false _ ▸ hleft)
    have hne : k' ≠ k := by
      rintro rfl
      exact Bool.false_ne_true (hk.symm.trans hleft)
    exact hnot ((List.mem_erase_of_ne hne).mpr (mem_indicators k'))
  have hstep : SplitState.step historyDays userId bars
      (⟨tables, .invalidate u todo' deleted', cache', requests⟩ : SplitState signals d ι) .split =
        some ⟨tables, .mark u deleted', cache', requests⟩ := if_pos hdone
  exact ⟨deleted', cache', Run.trans hdrop (SplitState.reaches_of_step hstep), hcache⟩

end

/-- An entry from other bars, under a key that is not to be deleted any more, is still
    there when the call has returned. -/
theorem exists_stale {k : Indicator} {e : Entry signals (PriceRead.ohlcv d.instrumentId) k}
    (he : s.cache k = some e) (hclears : ¬ s.split.Clears k) (hstale : e.run.prices ≠ s.current) :
    ∃ t, s.Reaches historyDays userId bars t ∧ ¬ t.PostSplit historyDays prices₀ := by
  have hstill : ∀ (t : SplitState signals d ι) n, t.split = .returned n → t.tables.prices = s.current →
      t.cache k = some e → ¬ t.PostSplit historyDays prices₀ := by
    intro t n hreturned hprices hcache hpost
    exact hstale (((hpost n hreturned).2 k e hcache).trans hprices)
  obtain ⟨tables, split, cache, requests⟩ := s
  cases split with
  | invalidate u todo deleted =>
    obtain ⟨deleted', cache', hmark, hcache⟩ := exists_mark_of_invalidate tables u todo deleted cache
      requests (Bool.not_eq_true _ ▸ hclears)
    obtain ⟨t, hrun, hreturned, hprices, ht⟩ := exists_returned_of_mark tables u deleted' cache' requests
    exact ⟨t, Run.trans hmark hrun, hstill t _ hreturned hprices (by rw [ht, hcache]; exact he)⟩
  | mark u deleted =>
    obtain ⟨t, hrun, hreturned, hprices, ht⟩ := exists_returned_of_mark tables u deleted cache requests
    exact ⟨t, hrun, hstill t _ hreturned hprices (by rw [ht]; exact he)⟩
  | commit u notes deleted =>
    exact ⟨_, SplitState.reaches_of_step (l := .split) rfl, hstill _ _ rfl rfl he⟩
  | returned n => exact ⟨_, .refl, hstill _ n rfl rfl he⟩
  | _ => exact absurd trivial hclears

/-- After a step that does not meet the condition, the split can return with an entry that
    is computed from other bars. -/
theorem exists_stale_of_not_writesCurrent {l : SplitLabel ι}
    (hstep : s.step historyDays userId bars l = some t) (hcond : ¬ s.WritesCurrent l) :
    ∃ u, t.Reaches historyDays userId bars u ∧ ¬ u.PostSplit historyDays prices₀ := by
  cases l with
  | advance i =>
    simp only [SplitState.WritesCurrent, not_forall, not_or] at hcond
    obtain ⟨⟨k, run⟩, hwrites, hclears, hstale⟩ := hcond
    have hadvance : s.advanceRequest bars i (s.requests i) = some t := hstep
    cases hrequest : s.requests i with
    | analyze call =>
      rw [hrequest] at hadvance hwrites
      obtain ⟨⟨cache, call'⟩, hcall, ht⟩ := Option.map_eq_some_iff.mp hadvance
      cases ht
      obtain rfl := CacheCall.advance_of_writes hwrites hcall
      exact exists_stale (Cache.set_self s.cache k run) hclears hstale
    | _ => rw [hrequest] at hwrites; cases hwrites
  | fail =>
    simp only [SplitState.WritesCurrent, not_forall] at hcond
    obtain ⟨k, e, he, hstale⟩ := hcond
    obtain ⟨tables, split, cache, requests⟩ := s
    cases split with
    | scan u =>
      cases hstep
      exact exists_stale he id hstale
    | invalidate u todo deleted =>
      cases hstep
      exact exists_stale he id hstale
    | _ => cases hstep
  | _ => exact absurd trivial hcond

/-! ## Two requests -/

/-- Thirty bars before the ex-date, and the action. -/
def monthOfBars : Store where
  prices := (List.range 30).map fun n => ⟨1, Date.midnight (739686 + n), 100, 104, 96, 102, 1000⟩
  actions := [⟨7, 1, 739716, 1 / 2, none, some "seed"⟩]
  audit := []
  cache := []

def twoForOne : SplitDetection := ⟨1, 739716, 1 / 2, 7⟩

/-- The reading of each indicator is the last close. -/
def lastClose : Signals (List PriceHistory) where
  bars := List.length
  signal rows _ := rows.getLast?.map fun row => (0, row.close)

abbrev MonthState := SplitState lastClose twoForOne (Fin 2)

def MonthState.next (s : MonthState) (l : SplitLabel (Fin 2)) : Option MonthState :=
  s.step 730 none (fun _ => 252) l

/-- The steps of a request up to its last read, and its writes. -/
def requestReads (i : Fin 2) : List (SplitLabel (Fin 2)) := List.replicate 8 (.advance i)

def requestWrites (i : Fin 2) : List (SplitLabel (Fin 2)) := List.replicate 6 (.advance i)

/-- `apply_split` with these keys to delete. -/
def splitSteps (keys : List Indicator) : List (SplitLabel (Fin 2)) :=
  List.replicate 3 .split ++ keys.map .drop ++ List.replicate 3 .split

/-- A request before the split and one after it. -/
def requestsInTurn : List (SplitLabel (Fin 2)) :=
  requestReads 0 ++ requestWrites 0 ++ splitSteps [.rsi, .bollinger, .volume, .atr] ++
    requestReads 1 ++ requestWrites 1

/-- A request reads before the split and writes after it. -/
def requestLate : List (SplitLabel (Fin 2)) := requestReads 0 ++ splitSteps [] ++ requestWrites 0

theorem postSplit_of_run_sample :
    ∃ s, requestsInTurn.foldlM (fun (s : MonthState) l => if s.WritesCurrent l then s.next l else none)
        (SplitState.initial monthOfBars empty) = some s ∧ s.PostSplit 730 monthOfBars.prices := by
  obtain ⟨s, hs⟩ := Option.isSome_iff_exists.mp (show (requestsInTurn.foldlM
    (fun (s : MonthState) l => if s.WritesCurrent l then s.next l else none)
      (SplitState.initial monthOfBars empty)).isSome by decide +kernel)
  exact ⟨s, hs, postSplit_of_run lastClose 730 twoForOne none (fun _ => 252) monthOfBars empty s
    (Run.of_foldlM_guarded _ hs)⟩

/-- The call has returned, and how many bars it has updated. -/
def SplitCall.rowsUpdated : SplitCall → Option ℕ
  | .returned n => some n
  | _ => none

/-- The RSI in the cache is computed from the bars before the split. -/
theorem late_write_is_stale :
    ¬ ∀ s, Run (fun (s : MonthState) l t => s.next l = some t) Unconditional
        (SplitState.initial monthOfBars empty) s → s.PostSplit 730 monthOfBars.prices := by
  intro hall
  have hrun : (requestLate.foldlM MonthState.next (SplitState.initial monthOfBars empty)).map
      (fun s => (s.split.rowsUpdated,
        (s.cache .rsi).map fun e => decide (e.run.prices = s.tables.prices))) =
          some (some 30, some false) := by decide +kernel
  obtain ⟨s, hs, hpair⟩ := Option.map_eq_some_iff.mp hrun
  obtain ⟨hreturned, hstale⟩ := Prod.mk.inj hpair
  obtain ⟨e, he, hne⟩ := Option.map_eq_some_iff.mp hstale
  have hsplit : s.split = .returned 30 := by
    cases hcall : s.split with
    | returned n =>
      rw [hcall] at hreturned
      rw [Option.some.inj hreturned]
    | _ => rw [hcall] at hreturned; cases hreturned
  exact of_decide_eq_false hne ((hall s (Run.of_foldlM _ hs) 30 hsplit).2 .rsi e he)

end Nivara.CorporateActions
