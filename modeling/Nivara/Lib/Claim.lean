import Nivara.Lib.Transition

/-!
# A slot claimed for a window

Contenders for one slot, each with its own clock reading. A contender first clears
the slot when what it holds is at or below the contender's `cutoff`, and then claims it
when it is free; the slot then holds the contender's reading `now`. Anyone else may
clear the slot too, but not claim it.

Results, when no contender's cutoff reaches the reading of another one and no one
else's cutoff reaches any of them:

* `State.Inv`: at most one contender wins, and the slot holds its reading from then on.
* `State.Free`: when the slot is free at the start, a contender that has lost has
  lost to one that has won.
-/

namespace Nivara.Claim

open Transition

variable {ι σ : Type*}

/-- How far a contender is. -/
inductive Phase
  | idle
  | cleared
  | won
  | lost
  deriving DecidableEq

structure State (ι σ : Type*) where
  slot : Option σ
  phase : ι → Phase

inductive Label (ι σ : Type*)
  /-- A contender clears the slot. -/
  | clear (i : ι)
  /-- A contender claims the slot. -/
  | claim (i : ι)
  /-- Anyone else clears the slot. -/
  | clearBy (cutoff : σ)

/-- What is left of the slot. -/
def clearUpTo [LinearOrder σ] (cutoff : σ) (slot : Option σ) : Option σ :=
  slot.filter fun v => cutoff < v

/-- No contender's cutoff reaches the reading of another one. -/
def Close [LT σ] (cutoff now : ι → σ) : Prop := ∀ i j, i ≠ j → cutoff i < now j

/-- The condition on a step: no one else's cutoff reaches a contender's reading. -/
def State.Spares [LT σ] (now : ι → σ) (_ : State ι σ) : Label ι σ → Prop
  | .clearBy cutoff => ∀ j, cutoff < now j
  | _ => True

section Step

variable [DecidableEq ι] [LinearOrder σ] (cutoff now : ι → σ)

def State.step (s : State ι σ) : Label ι σ → Option (State ι σ)
  | .clear i =>
    if s.phase i = .idle then
      some ⟨clearUpTo (cutoff i) s.slot, Function.update s.phase i .cleared⟩
    else none
  | .claim i =>
    if s.phase i = .cleared then
      match s.slot with
      | none => some ⟨some (now i), Function.update s.phase i .won⟩
      | some v => some ⟨some v, Function.update s.phase i .lost⟩
    else none
  | .clearBy c => some ⟨clearUpTo c s.slot, s.phase⟩

end Step

/-- At most one contender has won, and the slot holds its reading. -/
structure State.Inv (now : ι → σ) (s : State ι σ) : Prop where
  unique : ∀ i j, s.phase i = .won → s.phase j = .won → i = j
  kept : ∀ i, s.phase i = .won → s.slot = some (now i)

/-- What the slot holds and what a contender has lost to is a contender's claim. -/
structure State.Free (s : State ι σ) : Prop where
  slot : s.slot ≠ none → ∃ j, s.phase j = .won
  lost : ∀ i, s.phase i = .lost → ∃ j, s.phase j = .won

theorem clearUpTo_of_lt [LinearOrder σ] {c v : σ} (h : c < v) : clearUpTo c (some v) = some v := by
  unfold clearUpTo
  rw [Option.filter_some, if_pos (decide_eq_true h)]

theorem slot_of_clearUpTo [LinearOrder σ] {c : σ} {slot : Option σ} (h : clearUpTo c slot ≠ none) : slot ≠ none := by
  rintro rfl
  exact h rfl

variable {cutoff now : ι → σ} {s t : State ι σ}

/-- Whoever is through, someone has won. -/
theorem State.Free.exists_won {i : ι} (h : s.Free) (hi : s.phase i = .won ∨ s.phase i = .lost) :
    ∃ j, s.phase j = .won := by
  rcases hi with hi | hi
  · exact ⟨i, hi⟩
  · exact h.lost i hi

variable [DecidableEq ι]

/-- A phase after an update to another one. -/
theorem of_update {i j : ι} {p q : Phase} (hp : p ≠ q)
    (h : Function.update s.phase i p j = q) : s.phase j = q ∧ j ≠ i := by
  by_cases hj : j = i
  · rw [hj, Function.update_self] at h
    exact absurd h hp
  · rw [Function.update_of_ne hj] at h
    exact ⟨h, hj⟩

/-- A winner stays one when another contender moves. -/
theorem exists_won_update {i : ι} {p : Phase} (hi : s.phase i ≠ .won)
    (h : ∃ j, s.phase j = .won) : ∃ j, Function.update s.phase i p j = .won := by
  obtain ⟨j, hj⟩ := h
  have hne : j ≠ i := by
    rintro rfl
    exact hi hj
  exact ⟨j, by rw [Function.update_of_ne hne]; exact hj⟩

variable [LinearOrder σ]

/-- One step keeps the winner and its reading. -/
theorem State.Inv.step (h : s.Inv now) (hclose : Close cutoff now) {l : Label ι σ}
    (hcond : s.Spares now l) (hstep : s.step cutoff now l = some t) : t.Inv now := by
  unfold State.step at hstep
  cases l with
  | clear i =>
    simp only at hstep
    split_ifs at hstep
    cases hstep
    refine ⟨fun j k hj hk => ?_, fun j hj => ?_⟩
    · exact h.unique j k (of_update (by decide) hj).1 (of_update (by decide) hk).1
    · obtain ⟨hwon, hne⟩ := of_update (by decide) hj
      have hslot := h.kept j hwon
      simp only [hslot]
      exact clearUpTo_of_lt (hclose i j (Ne.symm hne))
  | claim i =>
    simp only at hstep
    split_ifs at hstep
    cases hslot : s.slot with
    | none =>
      simp only [hslot] at hstep
      cases hstep
      -- the slot is free, so no one has won before
      have hnone : ∀ j, s.phase j ≠ .won := by
        intro j hj
        rw [h.kept j hj] at hslot
        cases hslot
      have honly : ∀ j, Function.update s.phase i Phase.won j = .won → j = i := by
        intro j hj
        by_contra hne
        rw [Function.update_of_ne hne] at hj
        exact hnone j hj
      refine ⟨fun j k hj hk => (honly j hj).trans (honly k hk).symm, fun j hj => ?_⟩
      rw [honly j hj]
    | some v =>
      simp only [hslot] at hstep
      cases hstep
      refine ⟨fun j k hj hk => ?_, fun j hj => ?_⟩
      · exact h.unique j k (of_update (by decide) hj).1 (of_update (by decide) hk).1
      · have hkept := h.kept j (of_update (by decide) hj).1
        rw [hslot] at hkept
        exact hkept
  | clearBy c =>
    cases hstep
    refine ⟨h.unique, fun j hj => ?_⟩
    have hslot := h.kept j hj
    simp only [hslot]
    exact clearUpTo_of_lt (hcond j)

/-- One step of contenders that started with a free slot. -/
theorem State.Free.step (h : s.Free) {l : Label ι σ} (hstep : s.step cutoff now l = some t) :
    t.Free := by
  unfold State.step at hstep
  cases l with
  | clear i =>
    simp only at hstep
    split_ifs at hstep with hi
    cases hstep
    have hne : s.phase i ≠ .won := by rw [hi]; decide
    refine ⟨fun hslot => ?_, fun j hj => ?_⟩
    · exact exists_won_update hne (h.slot (slot_of_clearUpTo hslot))
    · exact exists_won_update hne (h.lost j (of_update (by decide) hj).1)
  | claim i =>
    simp only at hstep
    split_ifs at hstep with hi
    have hne : s.phase i ≠ .won := by rw [hi]; decide
    cases hslot : s.slot with
    | none =>
      simp only [hslot] at hstep
      cases hstep
      have hwon : ∃ j, Function.update s.phase i Phase.won j = .won := ⟨i, Function.update_self ..⟩
      exact ⟨fun _ => hwon, fun _ _ => hwon⟩
    | some v =>
      simp only [hslot] at hstep
      cases hstep
      have hwon : ∃ j, s.phase j = .won := h.slot (by rw [hslot]; exact Option.some_ne_none v)
      exact ⟨fun _ => exists_won_update hne hwon, fun _ _ => exists_won_update hne hwon⟩
  | clearBy c =>
    cases hstep
    exact ⟨fun hslot => h.slot (slot_of_clearUpTo hslot), h.lost⟩

end Nivara.Claim
