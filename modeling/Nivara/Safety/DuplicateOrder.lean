import Nivara.Safety.Guardian
import Nivara.Lib.Claim

/-!
# Duplicate orders

The calls for one order contend for its slot in the sorted set: the trim clears the
slot when its score is a window or more behind the call's clock, and `ZADD NX` claims
it when it is free. A call for another order trims with its own clock and so clears
the slot too.

Results:

* `GuardianState.step_cases`: what one step does.
* `GuardianState.run_view`: seen from one order, the calls are contenders for a slot.
* `duplicatesSuppressed_of_run`: in every interleaving, at most one call for the order
  is allowed, exactly one when the slot was free, and the slot keeps its score; the
  clocks of calls for other orders must not be a window ahead.
-/

namespace Nivara.Safety

open SortedSet Transition

variable {ι : Type} [DecidableEq ι]

/-! ## What is to hold -/

/-- What holds for an order in a state that is reached from the recent orders `z₀`. -/
structure GuardianState.DuplicatesSuppressed (order : ι → Order) (now : ι → ℚ) (window : ℤ) (o : Order)
    (z₀ : ZSet String ℚ) (s : GuardianState ι) : Prop where
  /-- At most one call is allowed. -/
  atMostOne : ∀ i j, order i = o → order j = o → (s.calls i).allowed → (s.calls j).allowed → i = j
  /-- When the calls that have begun are complete and the set had no entry for the
      order, exactly one of them is allowed. -/
  exactlyOne : z₀ (orderMember o) = none →
    (∀ i, order i = o → s.calls i = .trim ∨ ∃ decision, s.calls i = .returned decision) →
    (∃ i, order i = o ∧ s.calls i ≠ .trim) → ∃! i, order i = o ∧ (s.calls i).allowed
  /-- The slot that a call has claimed keeps that call's timestamp. -/
  kept : ∀ i, order i = o → (s.calls i).claimed → s.recentOrders (orderMember o) = some (now i)
  /-- A step of a call leaves a slot within its window as it is. -/
  unchanged : ∀ i t score, order i = o → s.step order now window i = some t →
    s.recentOrders (orderMember o) = some score → now i - window < score →
    t.recentOrders (orderMember o) = some score

/-! ## The slot of one order -/

/-- How far a call is in the contention. -/
def Call.phase : Call → Claim.Phase
  | .trim => .idle
  | .zadd => .cleared
  | .expire added => if added then .won else .lost
  | .zscore => .lost
  | .returned decision => if decision.allowed then .won else .lost

/-- The calls for the order. -/
abbrev Contender (order : ι → Order) (o : Order) := { i // order i = o }

/-- What they have captured. -/
def clock (order : ι → Order) (now : ι → ℚ) (o : Order) (i : Contender order o) : ℚ := now i

/-- The slot of the order and the calls for it. -/
def GuardianState.view (order : ι → Order) (o : Order) (s : GuardianState ι) :
    Claim.State (Contender order o) ℚ :=
  ⟨s.recentOrders (orderMember o), fun i => (s.calls i).phase⟩

variable {order : ι → Order} {now : ι → ℚ} {window : ℤ} {o : Order} {s t : GuardianState ι}

omit [DecidableEq ι] in
theorem phase_eq_won {c : Call} : c.phase = .won ↔ c.claimed = true := by
  cases c with
  | expire added => cases added <;> decide
  | returned decision => cases hd : decision.allowed <;> simp [Call.phase, Call.claimed, hd]
  | _ => decide

omit [DecidableEq ι] in
/-- A call that has begun and is complete has won or lost. -/
theorem phase_of_complete {c : Call} (hdone : c = .trim ∨ ∃ decision, c = .returned decision)
    (hbegun : c ≠ .trim) : c.phase = .won ∨ c.phase = .lost := by
  rcases hdone with rfl | ⟨decision, rfl⟩
  · exact absurd rfl hbegun
  · cases hd : decision.allowed <;> simp [Call.phase, hd]

omit [DecidableEq ι] in
/-- A complete call that has claimed the slot is allowed. -/
theorem allowed_of_claimed {c : Call} (hdone : c = .trim ∨ ∃ decision, c = .returned decision)
    (hclaimed : c.claimed = true) : c.allowed = true := by
  rcases hdone with rfl | ⟨decision, rfl⟩
  · cases hclaimed
  · exact hclaimed

omit [DecidableEq ι] in
theorem claimed_of_allowed {c : Call} (h : c.allowed = true) : c.claimed = true := by
  cases c with
  | returned decision => exact h
  | _ => cases h

/-- The phases after a call for the order has gone on. -/
theorem view_goto {i : ι} (hi : order i = o) (c : Call) :
    (s.goto i c).view order o =
      ⟨(s.view order o).slot, Function.update (s.view order o).phase ⟨i, hi⟩ c.phase⟩ := by
  have hphase : (fun j : Contender order o => ((s.goto i c).calls j).phase) =
      Function.update (s.view order o).phase ⟨i, hi⟩ c.phase := by
    funext j
    by_cases hj : j = ⟨i, hi⟩
    · rw [hj, Function.update_self, GuardianState.goto_calls_self]
    · have hne : (j : ι) ≠ i := fun h => hj (Subtype.ext h)
      rw [Function.update_of_ne hj, GuardianState.goto_calls_of_ne s c hne]
      rfl
  exact congrArg (Claim.State.mk _) hphase

/-- A call for the order goes on without a change of its phase. -/
theorem view_goto_of_phase {i : ι} {c : Call} (hc : order i = o → (s.calls i).phase = c.phase) :
    (s.goto i c).view order o = s.view order o := by
  have hphase : (fun j : Contender order o => ((s.goto i c).calls j).phase) =
      fun j : Contender order o => (s.calls j).phase := by
    funext j
    by_cases hj : (j : ι) = i
    · rw [hj, GuardianState.goto_calls_self, hc (hj ▸ j.2)]
    · rw [GuardianState.goto_calls_of_ne s c hj]
  exact congrArg (Claim.State.mk _) hphase

/-- A step of the calls for the order as contenders. -/
def ContenderStep (order : ι → Order) (now : ι → ℚ) (window : ℤ) (o : Order)
    (s : Claim.State (Contender order o) ℚ) (l : Claim.Label (Contender order o) ℚ)
    (t : Claim.State (Contender order o) ℚ) : Prop :=
  s.step (fun i => clock order now o i - window) (clock order now o) l = some t

/-- No step by anyone else reaches the readings of the calls for the order. -/
def Spared (order : ι → Order) (now : ι → ℚ) (o : Order) (s : Claim.State (Contender order o) ℚ)
    (l : Claim.Label (Contender order o) ℚ) : Prop :=
  s.Spares (clock order now o) l

/-- What one step does: the trim, the addition, or a command that changes neither the
    set nor the call's phase. -/
theorem GuardianState.step_cases (hwindow : 0 < window) {i : ι}
    (hstep : s.step order now window i = some t) :
    ∃ z c audit, t = GuardianState.goto { s with recentOrders := z, audit := audit } i c ∧
      ((s.calls i = .trim ∧ c = .zadd ∧ z = zremrangebyscore (now i - window) s.recentOrders) ∨
        (s.calls i = .zadd ∧ c = .expire (zaddNx (orderMember (order i)) (now i) s.recentOrders).2 ∧
          z = (zaddNx (orderMember (order i)) (now i) s.recentOrders).1) ∨
        ((s.calls i).phase = c.phase ∧ z = s.recentOrders)) := by
  have hexpire : expire (window * 2) s.recentOrders = s.recentOrders := if_pos (by omega)
  unfold GuardianState.step GuardianState.advance at hstep
  cases hcall : s.calls i with
  | trim =>
    simp only [hcall] at hstep
    cases hstep
    exact ⟨_, _, s.audit, rfl, .inl ⟨rfl, rfl, rfl⟩⟩
  | zadd =>
    simp only [hcall] at hstep
    cases hstep
    exact ⟨_, _, s.audit, rfl, .inr (.inl ⟨rfl, rfl, rfl⟩)⟩
  | expire added =>
    simp only [hcall, hexpire] at hstep
    cases hstep
    refine ⟨s.recentOrders, _, s.audit, rfl, .inr (.inr ⟨?_, rfl⟩)⟩
    cases added <;> rfl
  | zscore =>
    simp only [hcall] at hstep
    cases hstep
    exact ⟨s.recentOrders, _, _, rfl, .inr (.inr ⟨rfl, rfl⟩)⟩
  | returned decision =>
    simp only [hcall] at hstep
    cases hstep

/-- One step of a call for the order is a step of a contender, or changes nothing. -/
theorem GuardianState.step_view (hwindow : 0 < window) {i : ι} (hi : order i = o)
    (hstep : s.step order now window i = some t) :
    Run (ContenderStep order now window o) (Spared order now o) (s.view order o) (t.view order o) := by
  obtain ⟨z, c, audit, rfl, ⟨hcall, rfl, rfl⟩ | ⟨hcall, rfl, rfl⟩ | ⟨hphase, rfl⟩⟩ :=
    step_cases hwindow hstep
  · refine .tail (.clear ⟨i, hi⟩) .refl trivial ?_
    have hidle : (s.view order o).phase ⟨i, hi⟩ = .idle := congrArg Call.phase hcall
    rw [view_goto hi]
    exact if_pos hidle
  · refine .tail (.claim ⟨i, hi⟩) .refl trivial ?_
    have hcleared : (s.view order o).phase ⟨i, hi⟩ = .cleared := congrArg Call.phase hcall
    unfold ContenderStep Claim.State.step
    simp only [if_pos hcleared]
    rw [view_goto hi, hi]
    cases hslot : s.recentOrders (orderMember o) with
    | none =>
      have hview : (s.view order o).slot = none := hslot
      have hadd : Function.update s.recentOrders (orderMember o) (some (now i)) (orderMember o) =
          some (now i) := Function.update_self ..
      rw [zaddNx_of_not_mem hslot, hview]
      exact congrArg (fun slot => some (Claim.State.mk slot _)) hadd.symm
    | some score =>
      have hview : (s.view order o).slot = some score := hslot
      rw [zaddNx_of_mem hslot, hview]
      exact congrArg (fun slot => some (Claim.State.mk slot _)) hslot.symm
  · have hview : (GuardianState.goto { s with audit := audit } i c).view order o = s.view order o :=
      view_goto_of_phase fun _ => hphase
    rw [hview]
    exact .refl

/-- One step of a call for another order clears the slot at most. -/
theorem GuardianState.step_view_of_ne (hwindow : 0 < window) {i : ι} (hi : order i ≠ o)
    (hbehind : ∀ j, order j = o → now i - window < now j)
    (hstep : s.step order now window i = some t) :
    Run (ContenderStep order now window o) (Spared order now o) (s.view order o) (t.view order o) := by
  obtain ⟨z, c, audit, rfl, hcases⟩ := step_cases hwindow hstep
  rw [view_goto_of_phase fun h => absurd h hi]
  rcases hcases with ⟨-, -, rfl⟩ | ⟨-, -, rfl⟩ | ⟨-, rfl⟩
  · exact .tail (.clearBy (now i - window)) .refl (fun j => hbehind j j.2) rfl
  · have hne : orderMember o ≠ orderMember (order i) := fun h => hi (orderMember_injective h).symm
    have hslot := zaddNx_of_ne (z := s.recentOrders) hne (now i)
    have hview : GuardianState.view order o { s with
        recentOrders := (zaddNx (orderMember (order i)) (now i) s.recentOrders).1
        audit := audit } = s.view order o := congrArg (fun slot => Claim.State.mk slot _) hslot
    rw [hview]
    exact .refl
  · exact .refl

/-- Seen from one order, a run of the calls is a run of contenders. -/
theorem GuardianState.run_view (hwindow : 0 < window)
    (hbehind : ∀ i j, order i ≠ o → order j = o → now i - window < now j)
    (hrun : Run (fun s i t => s.step order now window i = some t) Unconditional s t) :
    Run (ContenderStep order now window o) (Spared order now o) (s.view order o) (t.view order o) := by
  refine hrun.simulate fun s i t _ hstep => ?_
  by_cases hi : order i = o
  · exact step_view hwindow hi hstep
  · exact step_view_of_ne hwindow hi (fun j hj => hbehind i j hi hj) hstep

/-! ## Runs -/

/-- A step of a call for the order leaves a slot within its window as it is. -/
theorem GuardianState.slot_unchanged (hwindow : 0 < window) {i : ι} {score : ℚ} (hi : order i = o)
    (hstep : s.step order now window i = some t)
    (hslot : s.recentOrders (orderMember o) = some score) (hlive : now i - window < score) :
    t.recentOrders (orderMember o) = some score := by
  obtain ⟨z, c, audit, rfl, ⟨-, -, rfl⟩ | ⟨-, -, rfl⟩ | ⟨-, rfl⟩⟩ := step_cases hwindow hstep
  · exact zremrangebyscore_of_lt hslot hlive
  · rw [hi, zaddNx_of_mem hslot]
    exact hslot
  · exact hslot

/-- In every interleaving of calls, those for one order with clocks less than a window
    apart and those for other orders with clocks less than a window ahead of them:
    duplicates of the order are suppressed. -/
theorem duplicatesSuppressed_of_run (order : ι → Order) (now : ι → ℚ) (window : ℤ) (o : Order)
    (z₀ : ZSet String ℚ) (s : GuardianState ι) (hwindow : 0 < window)
    (hclose : ∀ i j, order i = o → order j = o → i ≠ j → |now i - now j| < window)
    (hothers : ∀ i j, order i ≠ o → order j = o → now i - now j < window)
    (hrun : Run (fun s i t => s.step order now window i = some t) Unconditional (initial z₀) s) :
    s.DuplicatesSuppressed order now window o z₀ := by
  have hbehind : ∀ i j, order i ≠ o → order j = o → now i - window < now j := by
    intro i j hi hj
    linarith [hothers i j hi hj]
  have hcutoff : Claim.Close (fun i => clock order now o i - window) (clock order now o) := by
    intro i j hij
    have hlt := (abs_lt.mp (hclose i j i.2 j.2 fun h => hij (Subtype.ext h))).2
    unfold clock
    linarith
  have hview := GuardianState.run_view hwindow hbehind hrun
  have hinv : (s.view order o).Inv (clock order now o) := by
    refine hview.invariant ⟨?_, ?_⟩ fun _ _ _ h hcond hstep => h.step hcutoff hcond hstep
    · intro i j hi; cases hi
    · intro i hi; cases hi
  have hwon : ∀ (i : ι) (hi : order i = o), (s.calls i).claimed = true →
      (s.view order o).phase ⟨i, hi⟩ = .won := fun i _ hc => phase_eq_won.mpr hc
  have hunique : ∀ i j, order i = o → order j = o → (s.calls i).allowed = true →
      (s.calls j).allowed = true → i = j := by
    intro i j hi hj hai haj
    have heq := hinv.unique ⟨i, hi⟩ ⟨j, hj⟩ (hwon i hi (claimed_of_allowed hai))
      (hwon j hj (claimed_of_allowed haj))
    exact congrArg Subtype.val heq
  refine ⟨hunique, ?_, ?_, ?_⟩
  · rintro hfree hdone ⟨i, hi, hbegun⟩
    have hfree : (s.view order o).Free := by
      refine hview.invariant ⟨fun h => absurd hfree h, ?_⟩ fun _ _ _ h _ hstep => h.step hstep
      intro i hi; cases hi
    obtain ⟨⟨j, hj⟩, hwins⟩ := hfree.exists_won (i := ⟨i, hi⟩) (phase_of_complete (hdone i hi) hbegun)
    have hallowed := allowed_of_claimed (hdone j hj) (phase_eq_won.mp hwins)
    exact ⟨j, ⟨hj, hallowed⟩, fun k ⟨hk, hk'⟩ => hunique k j hk hj hk' hallowed⟩
  · intro i hi hc
    exact hinv.kept ⟨i, hi⟩ (hwon i hi hc)
  · intro i t score hi hstep hslot hlive
    exact GuardianState.slot_unchanged hwindow hi hstep hslot hlive

/-! ## Three calls -/

def apple : Order := ⟨"AAPL", .buy, "10", by decide⟩

def tesla : Order := ⟨"TSLA", .sell, "2.5", by decide⟩

/-- The third call is for another order. -/
def sampleOrder (i : Fin 3) : Order := if i = 2 then tesla else apple

/-- All commands of each call, one call after the other. -/
def callsInTurn : List (Fin 3) := [0, 0, 0, 2, 2, 2, 1, 1, 1, 1]

/-- A call for another order trims between the two commands of the second call. -/
def callsCrossed : List (Fin 3) := [0, 0, 0, 1, 2, 1, 1]

/-- Clocks within one window. -/
theorem duplicatesSuppressed_of_run_sample :
    ∃ s, callsInTurn.foldlM (GuardianState.step sampleOrder (fun i => i) 60) (initial fun _ => none) =
        some s ∧ s.DuplicatesSuppressed sampleOrder (fun i => i) 60 apple fun _ => none := by
  obtain ⟨s, hs⟩ := Option.isSome_iff_exists.mp (show (callsInTurn.foldlM
    (GuardianState.step sampleOrder (fun i => i) 60) (initial fun _ => none)).isSome by decide +kernel)
  exact ⟨s, hs, duplicatesSuppressed_of_run sampleOrder (fun i => i) 60 apple (fun _ => none) s (by decide)
    (by decide +kernel) (by decide +kernel) (Run.of_foldlM _ hs)⟩

/-- The clocks of the calls for the order are 59 seconds apart. The call for the other
    order, a second later, trims what the first call has claimed. -/
theorem slot_trimmed_by_other_order :
    ¬ ∀ s, Run (fun s i t => GuardianState.step sampleOrder ![0, 59, 60] 60 s i = some t) Unconditional
        (initial fun _ => none) s →
      s.DuplicatesSuppressed sampleOrder ![0, 59, 60] 60 apple fun _ => none := by
  intro h
  have hrun : (callsCrossed.foldlM (GuardianState.step sampleOrder ![0, 59, 60] 60)
      (initial fun _ => none)).map (fun s => (s.calls 0, s.calls 1)) =
        some (.returned .allow, .returned .allow) := by decide +kernel
  obtain ⟨s, hs, hcalls⟩ := Option.map_eq_some_iff.mp hrun
  obtain ⟨h₀, h₁⟩ := Prod.mk.inj hcalls
  have heq : (0 : Fin 3) = 1 := (h s (Run.of_foldlM _ hs)).atMostOne 0 1 (by decide) (by decide)
    (by rw [h₀]; rfl) (by rw [h₁]; rfl)
  exact absurd heq (by decide)

end Nivara.Safety
