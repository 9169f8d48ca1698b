import Nivara.CorporateActions.Service
import Nivara.Lib.Transition

/-!
# Concurrent `apply_split` calls on one action

`apply_split` reads the action, updates the bars, deletes the cache keys, marks the
action in its session and commits. Each is one step here, and the calls interleave.

* A call reads committed rows only. Its `UPDATE` computes from the committed bars,
  and its result is seen by no other call before the commit (`pending`).
* An `UPDATE` of rows that another call has updated and not committed waits: the
  step is not enabled.
* A call may be cancelled at any point; its session is rolled back.

Results:

* `ApplyState.Inv`: the committed bars are those at the start, or those with the
  split applied once, and then the action is marked.
* `adjustedAtMostOnce_of_run`: so it is in every interleaving in which no call
  commits its update after another call has marked the action.
* `run_alone`: a call without another in between does what `applySplit` does.
-/

namespace Nivara.CorporateActions

open Transition

/-- A call, by the step it takes next. -/
inductive Call
  /-- `session.get(CorporateAction)`. -/
  | read
  /-- The `UPDATE`; `row` is the action as read. -/
  | update (row : CorporateAction)
  /-- `_invalidate_indicator_cache`. -/
  | invalidate (row : CorporateAction) (rowsUpdated : ℕ)
  /-- `row.notes = new_notes`, in the session. -/
  | mark (row : CorporateAction) (rowsUpdated invalidated : ℕ)
  /-- `session.commit()`. -/
  | commit (notes : String) (rowsUpdated invalidated : ℕ)
  | returned (rowsUpdated : ℕ)
  | raised (error : ServiceError)
  | cancelled
  deriving DecidableEq

/-- The committed tables and the calls in progress. -/
structure ApplyState where
  store : Store
  /-- The call that has updated bars and not committed, and the bars it has written.
      It holds the locks of their rows. -/
  pending : Option (ℕ × List PriceHistory)
  calls : ℕ → Option Call

/-- What happens next. -/
inductive Label
  | start (id : ℕ)
  | advance (id : ℕ)
  | cancel (id : ℕ)
  deriving DecidableEq

namespace ApplyState

def goto (s : ApplyState) (id : ℕ) (c : Call) : ApplyState :=
  { s with calls := Function.update s.calls id (some c) }

/-- The bars that the call has written. -/
def written (s : ApplyState) (id : ℕ) : Option (List PriceHistory) :=
  (s.pending.filter fun p => p.1 = id).map Prod.snd

/-- The end of the call's transaction. -/
def release (s : ApplyState) (id : ℕ) : ApplyState :=
  { s with pending := s.pending.filter fun p => p.1 ≠ id }

/-- The end of the call's transaction with its rows committed. -/
def commitCall (s : ApplyState) (d : SplitDetection) (id : ℕ) (userId : Option UUID) (notes : String)
    (rowsUpdated invalidated : ℕ) : ApplyState :=
  let prices := (s.written id).getD s.store.prices
  { s with store := s.store.commitSplit d userId notes prices rowsUpdated invalidated }.release id

variable (historyDays : ℤ) (d : SplitDetection) (users : ℕ → Option UUID)

/-- The next step of a call. -/
def advance (s : ApplyState) (id : ℕ) : Call → Option ApplyState
  | .read =>
    match s.store.getAction d.corporateActionId with
    | none => some (s.goto id (.raised (actionNotFound d.corporateActionId)))
    | some row =>
      if row.applied then some (s.goto id (.returned 0)) else some (s.goto id (.update row))
  | .update row =>
    if s.pending.isSome ∧ s.store.prices.any (fun r => d.Covers historyDays r.key) then none
    else
      match adjustPrices historyDays d s.store.prices with
      | .error e => some (s.goto id (.raised e))
      | .ok (prices, rowsUpdated) =>
        -- an `UPDATE` of no row holds no lock
        let pending := if rowsUpdated = 0 then s.pending else some (id, prices)
        some ({ s with pending := pending }.goto id (.invalidate row rowsUpdated))
  | .invalidate row rowsUpdated =>
    let (cache, invalidated) := invalidateIndicatorCache d.instrumentId s.store.cache
    some ({ s with store := { s.store with cache := cache } }.goto id (.mark row rowsUpdated invalidated))
  | .mark row rowsUpdated invalidated =>
    some (s.goto id (.commit row.newNotes rowsUpdated invalidated))
  | .commit notes rowsUpdated invalidated =>
    some ((s.commitCall d id (users id) notes rowsUpdated invalidated).goto id (.returned rowsUpdated))
  | .returned _ => none
  | .raised _ => none
  | .cancelled => none

/-- One step of the system. -/
def step (s : ApplyState) : Label → Option ApplyState
  | .start id => if s.calls id = none then some (s.goto id .read) else none
  | .advance id => (s.calls id).bind (s.advance historyDays d users id)
  | .cancel id =>
    match s.calls id with
    | none => none
    | some (.returned _) => none
    | some (.raised _) => none
    | some _ => some ((s.release id).goto id .cancelled)

end ApplyState

/-- The tables before any call. -/
def initial (store : Store) : ApplyState := ⟨store, none, fun _ => none⟩

/-! ## What is to hold -/

variable {historyDays : ℤ} {d : SplitDetection} {users : ℕ → Option UUID} {s t : ApplyState}
  {prices₀ : List PriceHistory}

/-- The committed bars are those at the start, or those with the split applied once. -/
def ApplyState.AdjustedAtMostOnce (historyDays : ℤ) (d : SplitDetection)
    (prices₀ : List PriceHistory) (s : ApplyState) : Prop :=
  s.store.prices = prices₀ ∨ ∃ n, adjustPrices historyDays d prices₀ = .ok (s.store.prices, n)

/-- The condition on a step: a call that commits updated bars does so before another
    call has marked the action. -/
def ApplyState.CommitsUnmarked (d : SplitDetection) (s : ApplyState) : Label → Prop
  | .advance id =>
    match s.calls id with
    | some (.commit _ _ _) => (s.written id).isSome → s.store.marked d = false
    | _ => True
  | _ => True

instance (l : Label) : Decidable (s.CommitsUnmarked d l) := by
  unfold ApplyState.CommitsUnmarked
  split
  · split <;> infer_instance
  · infer_instance

/-! ## The invariant -/

/-- What a call in progress knows. -/
def Call.Ok (d : SplitDetection) (store : Store) : Call → Prop
  | .update _ => (store.getAction d.corporateActionId).isSome
  | .invalidate _ _ => (store.getAction d.corporateActionId).isSome
  | .mark _ _ _ => (store.getAction d.corporateActionId).isSome
  | .commit notes _ _ =>
    (store.getAction d.corporateActionId).isSome ∧ ∃ row : CorporateAction, notes = row.newNotes
  | _ => True

/-- The invariant of the interleaving. -/
structure ApplyState.Inv (historyDays : ℤ) (d : SplitDetection) (prices₀ : List PriceHistory)
    (s : ApplyState) : Prop where
  prices : s.store.prices = prices₀ ∨
    (s.store.marked d = true ∧ ∃ n, adjustPrices historyDays d prices₀ = .ok (s.store.prices, n))
  pending : ∀ id rows, s.pending = some (id, rows) →
    ∃ n, adjustPrices historyDays d s.store.prices = .ok (rows, n)
  calls : ∀ id c, s.calls id = some c → c.Ok d s.store

theorem initial_inv (store : Store) : (initial store).Inv historyDays d store.prices := by
  constructor
  · exact .inl rfl
  · intro id rows h; cases h
  · intro id c h; cases h

/-- What the calls know holds as long as the action is found. -/
theorem Call.Ok.mono {store store' : Store} {c : Call} (h : c.Ok d store)
    (hfound : (store.getAction d.corporateActionId).isSome →
      (store'.getAction d.corporateActionId).isSome) : c.Ok d store' := by
  cases c with
  | update row => exact hfound h
  | invalidate row n => exact hfound h
  | mark row n m => exact hfound h
  | commit notes n m => exact ⟨hfound h.1, h.2⟩
  | _ => trivial

/-- A call that goes on leaves what the others know. -/
theorem ApplyState.calls_goto {store : Store} {id : ℕ} {c : Call}
    (hcalls : ∀ id c, s.calls id = some c → c.Ok d store) (hc : c.Ok d store) :
    ∀ j e, (s.goto id c).calls j = some e → e.Ok d store := by
  intro j e he
  by_cases hj : j = id
  · have hup : (s.goto id c).calls id = some c := Function.update_self ..
    rw [hj, hup] at he
    exact Option.some.inj he ▸ hc
  · have hup : (s.goto id c).calls j = s.calls j := Function.update_of_ne hj ..
    rw [hup] at he
    exact hcalls j e he

theorem ApplyState.Inv.goto (h : s.Inv historyDays d prices₀) {id : ℕ} {c : Call}
    (hc : c.Ok d s.store) : (s.goto id c).Inv historyDays d prices₀ :=
  ⟨h.prices, h.pending, ApplyState.calls_goto h.calls hc⟩

theorem ApplyState.Inv.release (h : s.Inv historyDays d prices₀) (id : ℕ) :
    (s.release id).Inv historyDays d prices₀ := by
  refine ⟨h.prices, fun j rows hp => ?_, h.calls⟩
  obtain ⟨hp, -⟩ := Option.filter_eq_some_iff.mp hp
  exact h.pending j rows hp

theorem written_eq_some {id : ℕ} {rows : List PriceHistory} (h : s.written id = some rows) :
    s.pending = some (id, rows) := by
  obtain ⟨⟨owner, rows'⟩, hp, rfl⟩ := Option.map_eq_some_iff.mp h
  obtain ⟨hp, howner⟩ := Option.filter_eq_some_iff.mp hp
  rw [hp, ← of_decide_eq_true howner]

/-! ## One step -/

/-- A commit keeps the invariant. -/
theorem ApplyState.Inv.commit (h : s.Inv historyDays d prices₀) {id : ℕ} {userId : Option UUID}
    {row : CorporateAction} {n m : ℕ} (hfound : (s.store.getAction d.corporateActionId).isSome)
    (hcond : (s.written id).isSome → s.store.marked d = false) :
    (s.commitCall d id userId row.newNotes n m).Inv historyDays d prices₀ := by
  have hmarked : (s.commitCall d id userId row.newNotes n m).store.marked d = true :=
    marked_commitSplit hfound
  have hprices : (s.commitCall d id userId row.newNotes n m).store.prices =
      (s.written id).getD s.store.prices := rfl
  have hcalls : ∀ j c, s.calls j = some c →
      c.Ok d (s.commitCall d id userId row.newNotes n m).store := by
    intro j c hc
    refine (h.calls j c hc).mono fun hsome => ?_
    have haction := getAction_commitSplit (d := d) s.store userId row.newNotes
      ((s.written id).getD s.store.prices) n m
    unfold ApplyState.commitCall ApplyState.release
    rw [haction, Option.isSome_map]
    exact hsome
  cases hw : s.written id with
  | none =>
    rw [hw, Option.getD_none] at hprices
    refine ⟨?_, fun j rows hp => ?_, hcalls⟩
    · rw [hprices]
      exact h.prices.imp_right fun ⟨_, hp⟩ => ⟨hmarked, hp⟩
    · obtain ⟨hp, -⟩ := Option.filter_eq_some_iff.mp hp
      rw [hprices]
      exact h.pending j rows hp
  | some rows =>
    rw [hw, Option.getD_some] at hprices
    have hpending := written_eq_some hw
    have hunmarked : s.store.marked d = false := hcond (by rw [hw]; rfl)
    refine ⟨?_, fun j rows' hp => ?_, hcalls⟩
    · -- no call has marked the action, so the bars are still those of the start
      rw [hprices]
      rcases h.prices with hp | ⟨hm, -⟩
      · rw [← hp]
        exact .inr ⟨hmarked, h.pending id rows hpending⟩
      · rw [hunmarked] at hm
        cases hm
    · have hreleased : (s.commitCall d id userId row.newNotes n m).pending = none := by
        simp [ApplyState.commitCall, ApplyState.release, hpending]
      rw [hreleased] at hp
      cases hp

/-- The next step of a call keeps the invariant. -/
theorem ApplyState.Inv.advance (h : s.Inv historyDays d prices₀) {id : ℕ} {c : Call}
    (hcall : s.calls id = some c) (hcond : s.CommitsUnmarked d (.advance id))
    (hstep : s.advance historyDays d users id c = some t) : t.Inv historyDays d prices₀ := by
  have hok := h.calls id c hcall
  unfold ApplyState.advance at hstep
  cases c with
  | read =>
    cases hrow : s.store.getAction d.corporateActionId with
    | none =>
      simp only [hrow] at hstep
      cases hstep
      exact h.goto trivial
    | some row =>
      simp only [hrow] at hstep
      split_ifs at hstep <;> cases hstep
      · exact h.goto trivial
      · exact h.goto (by rw [Call.Ok, hrow]; rfl)
  | update row =>
    simp only at hstep
    split_ifs at hstep
    cases hprices : adjustPrices historyDays d s.store.prices with
    | error e =>
      simp only [hprices] at hstep
      cases hstep
      exact h.goto trivial
    | ok result =>
      obtain ⟨prices, n⟩ := result
      simp only [hprices] at hstep
      cases hstep
      have hinv : ApplyState.Inv historyDays d prices₀
          { s with pending := if n = 0 then s.pending else some (id, prices) } := by
        refine ⟨h.prices, fun j rows hp => ?_, h.calls⟩
        by_cases hn : n = 0
        · rw [if_pos hn] at hp
          exact h.pending j rows hp
        · rw [if_neg hn] at hp
          cases hp
          exact ⟨n, hprices⟩
      exact hinv.goto hok
  | invalidate row n =>
    cases hstep
    have hinv : ApplyState.Inv historyDays d prices₀ { s with
        store := { s.store with cache := (invalidateIndicatorCache d.instrumentId s.store.cache).1 } } :=
      ⟨h.prices, h.pending, fun j e he => (h.calls j e he).mono fun hfound => hfound⟩
    exact hinv.goto hok
  | mark row n m =>
    cases hstep
    exact h.goto ⟨hok, row, rfl⟩
  | commit notes n m =>
    cases hstep
    obtain ⟨hfound, row, rfl⟩ := hok
    have hcond : (s.written id).isSome → s.store.marked d = false := by
      simpa [ApplyState.CommitsUnmarked, hcall] using hcond
    exact (h.commit hfound hcond).goto trivial
  | returned n => cases hstep
  | raised e => cases hstep
  | cancelled => cases hstep

/-- One step of the system keeps the invariant. -/
theorem ApplyState.Inv.step (h : s.Inv historyDays d prices₀) {l : Label}
    (hcond : s.CommitsUnmarked d l) (hstep : s.step historyDays d users l = some t) :
    t.Inv historyDays d prices₀ := by
  unfold ApplyState.step at hstep
  cases l with
  | start id =>
    simp only at hstep
    split_ifs at hstep
    cases hstep
    exact h.goto trivial
  | advance id =>
    obtain ⟨c, hc, hadv⟩ := Option.bind_eq_some_iff.mp hstep
    exact h.advance hc hcond hadv
  | cancel id =>
    simp only at hstep
    split at hstep <;> cases hstep
    exact (h.release id).goto trivial

/-! ## A call alone -/

theorem ApplyState.step_start {id : ℕ} (h : s.calls id = none) :
    s.step historyDays d users (.start id) = some (s.goto id .read) :=
  if_pos h

theorem ApplyState.step_goto {id : ℕ} {c : Call}
    (h : (s.goto id c).advance historyDays d users id c = some t) :
    (s.goto id c).step historyDays d users (.advance id) = some t := by
  have hup : (s.goto id c).calls id = some c := Function.update_self ..
  unfold ApplyState.step
  simp only [hup]
  exact h

/-- A call that no other call interrupts does what `applySplit` does. -/
theorem run_alone {id n : ℕ} {store : Store}
    (h : applySplit historyDays s.store d (users id) = .ok (store, n)) (hpending : s.pending = none)
    (hnew : s.calls id = none) :
    ∃ t, Run (fun s l t => s.step historyDays d users l = some t) Unconditional s t ∧
      t.store = store ∧ t.pending = none ∧ t.calls id = some (.returned n) := by
  have hstart : Run (fun s l t => s.step historyDays d users l = some t) Unconditional s
      (s.goto id .read) := .tail _ .refl trivial (ApplyState.step_start hnew)
  obtain ⟨row, hrow, ⟨happ, rfl, rfl⟩ | ⟨happ, prices, hprices, rfl⟩⟩ := applySplit_cases h
  · have hread : (s.goto id .read).advance historyDays d users id .read =
        some ((s.goto id .read).goto id (.returned 0)) := by
      simp [ApplyState.advance, ApplyState.goto, hrow, happ]
    exact ⟨_, .tail _ hstart trivial (ApplyState.step_goto hread), rfl, hpending,
      Function.update_self ..⟩
  · let s₁ := s.goto id .read
    let s₂ := s₁.goto id (.update row)
    let s₃ : ApplyState := { s₂ with pending := if n = 0 then s₂.pending else some (id, prices) }
    let cleared := invalidateIndicatorCache d.instrumentId s.store.cache
    let s₄ := s₃.goto id (.invalidate row n)
    let s₅ : ApplyState := { s₄ with store := { s₄.store with cache := cleared.1 } }
    let s₆ := s₅.goto id (.mark row n cleared.2)
    let s₇ := s₆.goto id (.commit row.newNotes n cleared.2)
    let s₈ := (s₇.commitCall d id (users id) row.newNotes n cleared.2).goto id (.returned n)
    have hread : s₁.advance historyDays d users id .read = some s₂ := by
      simp [s₁, s₂, ApplyState.advance, ApplyState.goto, hrow, happ]
    have hupdate : s₂.advance historyDays d users id (.update row) = some s₄ := by
      simp [s₁, s₂, s₃, s₄, ApplyState.advance, ApplyState.goto, hpending, hprices]
    have hinvalidate : s₄.advance historyDays d users id (.invalidate row n) = some s₆ := rfl
    have hmark : s₆.advance historyDays d users id (.mark row n cleared.2) = some s₇ := rfl
    have hcommit : s₇.advance historyDays d users id (.commit row.newNotes n cleared.2) = some s₈ := rfl
    have hwritten : s₇.pending = if n = 0 then none else some (id, prices) := by
      simp [s₁, s₂, s₃, s₄, s₅, s₆, s₇, ApplyState.goto, hpending]
    refine ⟨s₈, ?_, ?_, ?_, Function.update_self ..⟩
    · have h₂ := Run.tail _ hstart trivial (ApplyState.step_goto hread)
      have h₄ := Run.tail _ h₂ trivial (ApplyState.step_goto hupdate)
      have h₆ := Run.tail _ h₄ trivial (ApplyState.step_goto hinvalidate)
      have h₇ := Run.tail _ h₆ trivial (ApplyState.step_goto hmark)
      exact .tail _ h₇ trivial (ApplyState.step_goto hcommit)
    · have hgetD : (s₇.written id).getD s₇.store.prices = prices := by
        unfold ApplyState.written
        rw [hwritten]
        by_cases hn : n = 0
        · subst hn
          exact (adjustPrices_zero hprices).symm
        · simp [Option.filter, hn]
      exact congrArg (fun p => Store.commitSplit { s.store with cache := cleared.1 } d (users id)
        row.newNotes p n cleared.2) hgetD
    · have hreleased : s₈.pending = s₇.pending.filter fun p => p.1 ≠ id := rfl
      rw [hreleased, hwritten]
      by_cases hn : n = 0 <;> simp [Option.filter, hn]

/-! ## Runs -/

/-- In every interleaving of calls in which no call commits updated bars after another
    call has marked the action: the bars are those at the start, or those with the
    split applied once. -/
theorem adjustedAtMostOnce_of_run (store : Store)
    (hrun : Run (fun s l t => s.step historyDays d users l = some t)
      (fun s l => s.CommitsUnmarked d l) (initial store) s) :
    s.AdjustedAtMostOnce historyDays d store.prices := by
  have hinv : s.Inv historyDays d store.prices := hrun.invariant (initial_inv store)
    fun _ _ _ h hcond hstep => h.step hcond hstep
  rcases hinv.prices with hp | ⟨-, hp⟩
  · exact .inl hp
  · exact .inr hp

/-- A bar of the day before the ex-date, and the action. -/
def sampleStore : Store where
  prices := [⟨1, Date.midnight 739715, 100, 104, 96, 102, 1000⟩]
  actions := [⟨7, 1, 739716, 1 / 2, none, some "seed"⟩]
  audit := []
  cache := []

/-- The detection of a 2-for-1 split. -/
def sampleDetection : SplitDetection := ⟨1, 739716, 1 / 2, 7⟩

/-- The steps of one call. -/
def callSteps (id : ℕ) : List Label := .start id :: List.replicate 5 (.advance id)

/-- A call, and a second one that finds the action marked. -/
def callsInTurn : List Label := callSteps 0 ++ [.start 1, .advance 1]

/-- Two calls that both read the action before either has marked it. -/
def callsCrossed : List Label :=
  [.start 0, .start 1, .advance 0, .advance 1] ++ List.replicate 4 (.advance 0) ++
    List.replicate 4 (.advance 1)

/-- One call after the other. -/
theorem adjustedAtMostOnce_of_run_sample :
    ∃ s, callsInTurn.foldlM (fun (s : ApplyState) l => if s.CommitsUnmarked sampleDetection l then
        s.step 730 sampleDetection (fun _ => none) l else none) (initial sampleStore) = some s ∧
      s.AdjustedAtMostOnce 730 sampleDetection sampleStore.prices := by
  obtain ⟨s, hs⟩ := Option.isSome_iff_exists.mp (show (callsInTurn.foldlM
    (fun (s : ApplyState) l => if s.CommitsUnmarked sampleDetection l then
      s.step 730 sampleDetection (fun _ => none) l else none) (initial sampleStore)).isSome by
        decide +kernel)
  exact ⟨s, hs, adjustedAtMostOnce_of_run sampleStore (Run.of_foldlM_guarded _ hs)⟩

/-- Both calls adjust the bar: it opens at 25 where it opened at 100. -/
theorem split_applied_by_two_calls :
    ¬ ∀ s, Run (fun (s : ApplyState) l t => s.step 730 sampleDetection (fun _ => none) l = some t)
        Unconditional (initial sampleStore) s →
      s.AdjustedAtMostOnce 730 sampleDetection sampleStore.prices := by
  intro h
  have hrun : (callsCrossed.foldlM (ApplyState.step 730 sampleDetection fun _ => none)
      (initial sampleStore)).map (fun s => s.store.prices) =
        some [⟨1, Date.midnight 739715, 25, 26, 24, 51 / 2, 4000⟩] := by decide +kernel
  obtain ⟨s, hs, hprices⟩ := Option.map_eq_some_iff.mp hrun
  have honce : adjustPrices 730 sampleDetection sampleStore.prices =
      .ok ([⟨1, Date.midnight 739715, 50, 52, 48, 51, 2000⟩], 1) := by decide +kernel
  rcases h s (Run.of_foldlM _ hs) with hp | ⟨n, hn⟩
  · rw [hprices] at hp
    exact absurd hp (by decide +kernel)
  · rw [hprices, honce] at hn
    obtain ⟨hbars, -⟩ := Prod.mk.inj (Except.ok.inj hn)
    exact absurd hbars (by decide +kernel)

end Nivara.CorporateActions
