import Nivara.Lib.Transition

/-!
# Tokens for one use

Tokens that are issued, that live for a while, and that a taker removes when it takes
them. A `Ledger` is a view of such a system: which tokens live, which have been issued,
and who has taken which one.

`Ledger.Step` says what one step may do: a token comes to life only when it is issued
for the first time, and whoever takes one finds it alive and leaves it dead.

Results:

* `Ledger.Inv.step`: no token is taken twice.
* `Ledger.Spent.step`: a token that has been issued and lives no more stays so, and is not
  taken again.
* `ledger_of_run`: both for whole runs of a transition system.
-/

namespace Nivara.OneTime

open Transition

variable {κ ι : Type*}

structure Ledger (κ ι : Type*) where
  live : κ → Prop
  issued : κ → Prop
  taken : κ → ι → Prop

namespace Ledger

variable {L L' : Ledger κ ι}

/-- A token that lives has been issued and not been taken, and nobody shares a token. -/
structure Inv (L : Ledger κ ι) : Prop where
  issued_of_live : ∀ k, L.live k → L.issued k
  issued_of_taken : ∀ k i, L.taken k i → L.issued k
  not_taken_of_live : ∀ k i, L.live k → ¬ L.taken k i
  unique : ∀ k i j, L.taken k i → L.taken k j → i = j

/-- What one step may do. -/
structure Step (L L' : Ledger κ ι) : Prop where
  live : ∀ k, L'.live k → L.live k ∨ (¬ L.issued k ∧ L'.issued k)
  issued : ∀ k, L.issued k → L'.issued k
  taken : ∀ k i, L'.taken k i →
    L.taken k i ∨ (L.live k ∧ ¬ L'.live k ∧ ∀ j, L'.taken k j → L.taken k j ∨ j = i)

/-- The token was issued, and is no more. -/
def Spent (L : Ledger κ ι) (k : κ) : Prop := L.issued k ∧ ¬ L.live k

/-! ## Kinds of steps -/

/-- Nothing is issued and nothing is taken; tokens may die. -/
theorem Step.keep (hlive : ∀ k, L'.live k → L.live k) (hissued : ∀ k, L.issued k → L'.issued k)
    (htaken : ∀ k i, L'.taken k i → L.taken k i) : L.Step L' :=
  ⟨fun k h => .inl (hlive k h), hissued, fun k i h => .inl (htaken k i h)⟩

/-- The token `k₀` is issued. -/
theorem Step.issue (k₀ : κ) (hfresh : ¬ L.issued k₀) (hnew : L'.issued k₀)
    (hlive : ∀ k, L'.live k → L.live k ∨ k = k₀) (hissued : ∀ k, L.issued k → L'.issued k)
    (htaken : ∀ k i, L'.taken k i → L.taken k i) : L.Step L' := by
  refine ⟨fun k h => (hlive k h).imp id ?_, hissued, fun k i h => .inl (htaken k i h)⟩
  rintro rfl
  exact ⟨hfresh, hnew⟩

/-- `i₀` takes the token `k₀`. -/
theorem Step.take (k₀ : κ) (i₀ : ι) (hfound : L.live k₀) (hgone : ¬ L'.live k₀)
    (hlive : ∀ k, L'.live k → L.live k) (hissued : ∀ k, L.issued k → L'.issued k)
    (htaken : ∀ k i, L'.taken k i → L.taken k i ∨ (k = k₀ ∧ i = i₀)) : L.Step L' := by
  refine ⟨fun k h => .inl (hlive k h), hissued, fun k i h => (htaken k i h).imp id ?_⟩
  rintro ⟨rfl, rfl⟩
  exact ⟨hfound, hgone, fun j hj => (htaken k j hj).imp id And.right⟩

/-! ## What the steps keep -/

theorem Inv.step (h : L.Inv) (hstep : L.Step L') : L'.Inv where
  issued_of_live := by
    intro k hlive
    rcases hstep.live k hlive with hold | ⟨-, hnew⟩
    · exact hstep.issued k (h.issued_of_live k hold)
    · exact hnew
  issued_of_taken := by
    intro k i htaken
    rcases hstep.taken k i htaken with hold | ⟨hlive, -, -⟩
    · exact hstep.issued k (h.issued_of_taken k i hold)
    · exact hstep.issued k (h.issued_of_live k hlive)
  not_taken_of_live := by
    intro k i hlive htaken
    rcases hstep.taken k i htaken with hold | ⟨-, hgone, -⟩
    · rcases hstep.live k hlive with hlive | ⟨hfresh, -⟩
      · exact h.not_taken_of_live k i hlive hold
      · exact hfresh (h.issued_of_taken k i hold)
    · exact hgone hlive
  unique := by
    intro k i j hi hj
    rcases hstep.taken k i hi with hi' | ⟨hlive, -, honly⟩
    · rcases hstep.taken k j hj with hj' | ⟨hlive, -, -⟩
      · exact h.unique k i j hi' hj'
      · exact absurd hi' (h.not_taken_of_live k i hlive)
    · rcases honly j hj with hj' | rfl
      · exact absurd hj' (h.not_taken_of_live k j hlive)
      · rfl

theorem Spent.step {k : κ} (h : L.Spent k) (hstep : L.Step L') :
    L'.Spent k ∧ ∀ i, L'.taken k i → L.taken k i := by
  obtain ⟨hissued, hdead⟩ := h
  refine ⟨⟨hstep.issued k hissued, fun hlive => ?_⟩, fun i htaken => ?_⟩
  · rcases hstep.live k hlive with hlive | ⟨hfresh, -⟩
    · exact hdead hlive
    · exact hfresh hissued
  · rcases hstep.taken k i htaken with hold | ⟨hlive, -, -⟩
    · exact hold
    · exact absurd hlive hdead

end Ledger

/-! ## Runs -/

/-- Along a run whose steps are steps of the ledger, no token is taken twice, and one that is
    spent stays spent and is not taken again. -/
theorem ledger_of_run {σ α : Type*} {step : σ → α → σ → Prop} {cond : σ → α → Prop} {s t : σ}
    {ledger : σ → Ledger κ ι} {I : σ → Prop} (hrun : Run step cond s t) (hI : I s) (hL : (ledger s).Inv)
    (hstep : ∀ s a t, I s → cond s a → step s a t → I t ∧ (ledger s).Step (ledger t)) :
    I t ∧ (ledger t).Inv ∧
      ∀ k, (ledger s).Spent k → (ledger t).Spent k ∧ ∀ i, (ledger t).taken k i → (ledger s).taken k i := by
  induction hrun with
  | refl => exact ⟨hI, hL, fun k hk => ⟨hk, fun i hi => hi⟩⟩
  | tail a _ hcond hs ih =>
    obtain ⟨hIt, hLt, hspent⟩ := ih
    obtain ⟨hIu, hLstep⟩ := hstep _ a _ hIt hcond hs
    refine ⟨hIu, hLt.step hLstep, fun k hk => ?_⟩
    obtain ⟨hkt, htaken⟩ := hspent k hk
    obtain ⟨hku, htaken'⟩ := hkt.step hLstep
    exact ⟨hku, fun i hi => htaken i (htaken' i hi)⟩

end Nivara.OneTime
