import Nivara.Lib.Transition
import Nivara.Scheduling.Scheduler

/-!
# A `send_task` that raises

`apply` claims the key of a plan before it sends the task, and an exception of `send_task`
ends the loop: the key stays claimed, and the plans after it are not looked at.

Results:

* `contained_spec`: what a loop does that gives the key back and goes on.
* `apply_contained_iff`: `apply` does the same exactly when no plan that it claims raises
  (or a plan without a key raises and nothing is left to be sent).
* `failed_send_keeps_the_key`: a batch that is lost, and one that is not looked at.
* `apply_run`: `apply` is the run of one tick in which nothing else happens.
-/

namespace Nivara.Scheduling

open ExpiringKeys Transition

/-! ## What is to hold -/

/-- The loop as it should be: a plan whose `send_task` raises leaves the keys as they were,
    and the other plans are claimed and dispatched. -/
def contained (clock : ℤ) : List (DispatchPlan × Bool) → Keys → Applied
  | [], keys => ⟨keys, [], false⟩
  | (p, raises) :: rest, keys =>
    let (claimedKeys, claimed) := claim clock p keys
    if !claimed || raises then contained clock rest keys
    else
      let applied := contained clock rest claimedKeys
      { applied with dispatched := p :: applied.dispatched }

/-- The key of the plan is taken. -/
def Taken (clock : ℤ) (p : DispatchPlan) (keys : Keys) : Prop :=
  ∃ key, p.dedupeKey = some key ∧ getKey clock key keys ≠ none

/-- `apply` dispatches what is to be dispatched, and leaves the same keys claimed. -/
def FailuresContained (clock : ℤ) (sends : List (DispatchPlan × Bool)) (keys : Keys) : Prop :=
  (apply clock sends keys).dispatched = (contained clock sends keys).dispatched ∧
    ∀ key, getKey clock key (apply clock sends keys).keys = getKey clock key (contained clock sends keys).keys

/-- No plan that is claimed raises; or it has no key, and nothing after it is to be sent. -/
def SendsHold (clock : ℤ) : List (DispatchPlan × Bool) → Keys → Prop
  | [], _ => True
  | (p, raises) :: rest, keys =>
    if (claim clock p keys).2 then
      if raises then p.dedupeKey = none ∧ ∀ q, (q, false) ∈ rest → Taken clock q keys
      else SendsHold clock rest (claim clock p keys).1
    else SendsHold clock rest keys

/-! ## Claims -/

variable {clock : ℤ} {p : DispatchPlan} {keys : Keys}

/-- What a claim does: a plan without a key is always claimed; a key that is taken is not
    claimed; a key that is free is set. -/
theorem claim_cases (clock : ℤ) (p : DispatchPlan) (keys : Keys) :
    (p.dedupeKey = none ∧ claim clock p keys = (keys, true)) ∨
    (Taken clock p keys ∧ claim clock p keys = (keys, false)) ∨
    (∃ key, p.dedupeKey = some key ∧ getKey clock key keys = none ∧
      claim clock p keys = (Function.update keys key (some ("1", clock + p.dedupeTtl)), true)) := by
  unfold claim
  cases hkey : p.dedupeKey with
  | none => exact .inl ⟨rfl, rfl⟩
  | some key =>
    cases hget : getKey clock key keys with
    | none => exact .inr (.inr ⟨key, rfl, hget, setNxEx_of_gone hget ..⟩)
    | some v =>
      refine .inr (.inl ⟨⟨key, hkey, ?_⟩, setNxEx_of_live hget ..⟩)
      rw [hget]
      exact Option.some_ne_none v

theorem not_taken_of_claimed (h : (claim clock p keys).2 = true) : ¬ Taken clock p keys := by
  rcases claim_cases clock p keys with ⟨hnone, -⟩ | ⟨-, heq⟩ | ⟨key, hkey, hget, -⟩
  · rintro ⟨key, hkey, -⟩
    rw [hnone] at hkey
    cases hkey
  · rw [heq] at h
    cases h
  · rintro ⟨key', hkey', hlive⟩
    rw [hkey] at hkey'
    cases hkey'
    exact hlive hget

/-- A key that a claim has set lives. -/
theorem getKey_update_self (key : String) (p : DispatchPlan) (keys : Keys) :
    getKey clock key (Function.update keys key (some ("1", clock + p.dedupeTtl))) = some "1" :=
  get_of_lt (Function.update_self ..) (by linarith [p.dedupeTtl_pos])

/-- A key that is taken stays taken. -/
theorem getKey_claim_of_taken {key : String} (h : getKey clock key keys ≠ none) :
    getKey clock key (claim clock p keys).1 ≠ none := by
  rcases claim_cases clock p keys with ⟨-, heq⟩ | ⟨-, heq⟩ | ⟨key', -, hget, heq⟩
  · rw [heq]
    exact h
  · rw [heq]
    exact h
  · have hne : key ≠ key' := by
      rintro rfl
      exact h hget
    rw [heq, getKey_update_of_ne hne]
    exact h

theorem claim_of_taken (h : (claim clock p keys).2 = false) :
    claim clock p keys = (keys, false) ∧ Taken clock p keys := by
  rcases claim_cases clock p keys with ⟨-, heq⟩ | ⟨htaken, heq⟩ | ⟨key, -, -, heq⟩
  · rw [heq] at h
    cases h
  · exact ⟨heq, htaken⟩
  · rw [heq] at h
    cases h

/-- A claim adds no key but the plan's own. -/
theorem live_of_live_claim {key : String} (h : getKey clock key (claim clock p keys).1 ≠ none) :
    getKey clock key keys ≠ none ∨ p.dedupeKey = some key := by
  rcases claim_cases clock p keys with ⟨-, heq⟩ | ⟨-, heq⟩ | ⟨key', hkey', -, heq⟩
  · exact .inl (by rwa [heq] at h)
  · exact .inl (by rwa [heq] at h)
  · by_cases hne : key = key'
    · exact .inr (hne ▸ hkey')
    · rw [heq, getKey_update_of_ne hne] at h
      exact .inl h

/-- A plan that has claimed its key holds it. -/
theorem live_of_claimed {key : String} (h : (claim clock p keys).2 = true) (hkey : p.dedupeKey = some key) :
    getKey clock key (claim clock p keys).1 ≠ none := by
  rcases claim_cases clock p keys with ⟨hnone, -⟩ | ⟨htaken, -⟩ | ⟨key', hkey', -, heq⟩
  · rw [hkey] at hnone
    cases hnone
  · exact absurd htaken (not_taken_of_claimed h)
  · rw [hkey] at hkey'
    cases hkey'
    rw [heq, getKey_update_self]
    exact Option.some_ne_none _

/-! ## The two loops -/

section

variable {raises : Bool} {rest : List (DispatchPlan × Bool)}

theorem apply_of_taken (h : (claim clock p keys).2 = false) :
    apply clock ((p, raises) :: rest) keys = apply clock rest keys := by
  rw [apply, (claim_of_taken h).1]
  rfl

theorem apply_of_raises (h : (claim clock p keys).2 = true) :
    apply clock ((p, true) :: rest) keys = ⟨(claim clock p keys).1, [], true⟩ := by
  rw [apply]
  simp only [h, Bool.not_true, Bool.false_eq_true, if_false, if_true]

theorem apply_of_sent (h : (claim clock p keys).2 = true) :
    apply clock ((p, false) :: rest) keys =
      { apply clock rest (claim clock p keys).1 with
        dispatched := p :: (apply clock rest (claim clock p keys).1).dispatched } := by
  rw [apply]
  simp only [h, Bool.not_true, Bool.false_eq_true, if_false]

theorem contained_of_taken (h : (claim clock p keys).2 = false) :
    contained clock ((p, raises) :: rest) keys = contained clock rest keys := by
  rw [contained, (claim_of_taken h).1]
  rfl

theorem contained_of_raises :
    contained clock ((p, true) :: rest) keys = contained clock rest keys := by
  rw [contained]
  simp only [Bool.or_true, if_true]

theorem contained_of_sent (h : (claim clock p keys).2 = true) :
    contained clock ((p, false) :: rest) keys =
      { contained clock rest (claim clock p keys).1 with
        dispatched := p :: (contained clock rest (claim clock p keys).1).dispatched } := by
  rw [contained]
  simp only [h, Bool.not_true, Bool.or_false, Bool.false_eq_true, if_false]

end

/-- What the loop as it should be does: a key that is claimed in the end was claimed before
    or belongs to a plan that is dispatched, a plan that does not raise is dispatched or its
    key is taken, and the keys of the dispatched plans are claimed. -/
theorem contained_spec (clock : ℤ) (sends : List (DispatchPlan × Bool)) (keys : Keys) :
    (∀ key, getKey clock key (contained clock sends keys).keys ≠ none →
      getKey clock key keys ≠ none ∨ ∃ q ∈ (contained clock sends keys).dispatched, q.dedupeKey = some key) ∧
    (∀ p, (p, false) ∈ sends →
      p ∈ (contained clock sends keys).dispatched ∨ Taken clock p (contained clock sends keys).keys) ∧
    (∀ key, getKey clock key keys ≠ none → getKey clock key (contained clock sends keys).keys ≠ none) ∧
    ∀ p ∈ (contained clock sends keys).dispatched, ∀ key, p.dedupeKey = some key →
      getKey clock key (contained clock sends keys).keys ≠ none := by
  induction sends generalizing keys with
  | nil =>
    refine ⟨fun key h => .inl h, ?_, fun key h => h, ?_⟩
    · intro p hp
      cases hp
    · intro p hp
      cases hp
  | cons send rest ih =>
    obtain ⟨p, raises⟩ := send
    cases hclaim : (claim clock p keys).2 with
    | false =>
      obtain ⟨hreleased, hothers, hkept, hdispatched⟩ := ih keys
      obtain ⟨-, key, hkey, hlive⟩ := claim_of_taken hclaim
      rw [contained_of_taken hclaim]
      refine ⟨hreleased, fun q hq => ?_, hkept, hdispatched⟩
      rcases List.mem_cons.mp hq with heq | hq
      · obtain ⟨rfl, -⟩ := Prod.mk.inj heq
        exact .inr ⟨key, hkey, hkept key hlive⟩
      · exact hothers q hq
    | true =>
      cases raises with
      | true =>
        obtain ⟨hreleased, hothers, hkept, hdispatched⟩ := ih keys
        rw [contained_of_raises]
        refine ⟨hreleased, fun q hq => ?_, hkept, hdispatched⟩
        rcases List.mem_cons.mp hq with heq | hq
        · cases heq
        · exact hothers q hq
      | false =>
        obtain ⟨hreleased, hothers, hkept, hdispatched⟩ := ih (claim clock p keys).1
        rw [contained_of_sent hclaim]
        refine ⟨fun key hlive => ?_, fun q hq => ?_, fun key hlive => ?_, fun q hq key hkey => ?_⟩
        · rcases hreleased key hlive with hlive | ⟨q, hq, hkey⟩
          · exact (live_of_live_claim hlive).imp_right fun hkey => ⟨p, List.mem_cons_self, hkey⟩
          · exact .inr ⟨q, List.mem_cons_of_mem _ hq, hkey⟩
        · rcases List.mem_cons.mp hq with heq | hq
          · cases heq
            exact .inl List.mem_cons_self
          · exact (hothers q hq).imp (List.mem_cons_of_mem _) id
        · exact hkept key (getKey_claim_of_taken hlive)
        · rcases List.mem_cons.mp hq with rfl | hq
          · exact hkept key (live_of_claimed hclaim hkey)
          · exact hdispatched q hq key hkey

/-! ## When nothing is to be sent -/

theorem contained_of_forall_taken {rest : List (DispatchPlan × Bool)}
    (h : ∀ q, (q, false) ∈ rest → Taken clock q keys) : contained clock rest keys = ⟨keys, [], false⟩ := by
  induction rest with
  | nil => rfl
  | cons send rest ih =>
    obtain ⟨p, raises⟩ := send
    have hrest := ih fun q hq => h q (List.mem_cons_of_mem _ hq)
    cases hclaim : (claim clock p keys).2 with
    | false => rw [contained_of_taken hclaim, hrest]
    | true =>
      cases raises with
      | true => rw [contained_of_raises, hrest]
      | false => exact absurd (h p List.mem_cons_self) (not_taken_of_claimed hclaim)

theorem forall_taken_of_contained {rest : List (DispatchPlan × Bool)}
    (h : (contained clock rest keys).dispatched = []) : ∀ q, (q, false) ∈ rest → Taken clock q keys := by
  induction rest with
  | nil =>
    intro q hq
    cases hq
  | cons send rest ih =>
    obtain ⟨p, raises⟩ := send
    intro q hq
    cases hclaim : (claim clock p keys).2 with
    | false =>
      rw [contained_of_taken hclaim] at h
      rcases List.mem_cons.mp hq with heq | hq
      · obtain ⟨rfl, -⟩ := Prod.mk.inj heq
        exact (claim_of_taken hclaim).2
      · exact ih h q hq
    | true =>
      cases raises with
      | true =>
        rw [contained_of_raises] at h
        rcases List.mem_cons.mp hq with heq | hq
        · cases heq
        · exact ih h q hq
      | false =>
        rw [contained_of_sent hclaim] at h
        cases h

/-! ## `apply` -/

/-- `apply` does what it should exactly when no plan that it claims raises, or a plan
    without a key raises and nothing after it is to be sent. -/
theorem apply_contained_iff (clock : ℤ) (sends : List (DispatchPlan × Bool)) (keys : Keys) :
    FailuresContained clock sends keys ↔ SendsHold clock sends keys := by
  unfold FailuresContained
  induction sends generalizing keys with
  | nil => exact ⟨fun _ => trivial, fun _ => ⟨rfl, fun _ => rfl⟩⟩
  | cons send rest ih =>
    obtain ⟨p, raises⟩ := send
    rw [SendsHold]
    cases hclaim : (claim clock p keys).2 with
    | false =>
      rw [apply_of_taken hclaim, contained_of_taken hclaim, if_neg Bool.false_ne_true]
      exact ih keys
    | true =>
      rw [if_pos rfl]
      cases raises with
      | true =>
        rw [apply_of_raises hclaim, contained_of_raises, if_pos rfl]
        constructor
        · rintro ⟨hdispatched, hkeys⟩
          have htaken := forall_taken_of_contained hdispatched.symm
          refine ⟨?_, htaken⟩
          rw [contained_of_forall_taken htaken] at hkeys
          rcases claim_cases clock p keys with ⟨hnone, -⟩ | ⟨htaken', -⟩ | ⟨key, -, hget, heq⟩
          · exact hnone
          · exact absurd htaken' (not_taken_of_claimed hclaim)
          · -- the key is claimed and nothing was sent
            have hkey := hkeys key
            simp only [heq] at hkey
            rw [getKey_update_self, hget] at hkey
            cases hkey
        · rintro ⟨hnone, htaken⟩
          rw [contained_of_forall_taken htaken]
          refine ⟨rfl, fun key => ?_⟩
          unfold claim
          rw [hnone]
      | false =>
        rw [apply_of_sent hclaim, contained_of_sent hclaim, if_neg Bool.false_ne_true, ← ih]
        exact and_congr_left' (List.cons_inj_right p)

/-- The recalculation of one minute at two exchanges. The first `send_task` raises: its key
    stays claimed, and the second task is not sent. -/
theorem failed_send_keeps_the_key :
    ¬ ∀ (clock : ℤ) (sends : List (DispatchPlan × Bool)) (keys : Keys),
      FailuresContained clock sends keys := by
  intro h
  have hdispatched := (h 0 [(inSessionPlan recalcTask "recalc" .xnys 0, true),
    (inSessionPlan recalcTask "recalc" .xnas 0, false)] fun _ => none).1
  have happlied : (apply 0 [(inSessionPlan recalcTask "recalc" .xnys 0, true),
    (inSessionPlan recalcTask "recalc" .xnas 0, false)] fun _ => none).dispatched = [] := by
    decide
  rw [happlied] at hdispatched
  revert hdispatched
  decide

/-! ## The loop as a run -/

/-- `apply` is what a tick does when nothing else happens. -/
theorem apply_run {ι : Type} [DecidableEq ι] (library : Exchange → ExchangeCalendar) {i : ι} {now : ℤ}
    (sends : List (DispatchPlan × Bool)) (s : SchedulerState ι)
    (hi : s.ticks i = .claim now (sends.map Prod.fst)) :
    ∃ t, Run (fun s l t => SchedulerState.step library s l = some t) Unconditional s t ∧
      t.keys = (apply s.clock sends s.keys).keys ∧
      t.ticks i = (if (apply s.clock sends s.keys).raised then .raised else .returned) ∧
      ∀ q ∈ (apply s.clock sends s.keys).dispatched, ⟨q, minuteFloor now⟩ ∈ t.sent := by
  suffices h : ∃ t, Run (fun s l t => SchedulerState.step library s l = some t) Unconditional s t ∧
      t.keys = (apply s.clock sends s.keys).keys ∧
      t.ticks i = (if (apply s.clock sends s.keys).raised then .raised else .returned) ∧
      (∀ q ∈ (apply s.clock sends s.keys).dispatched, ⟨q, minuteFloor now⟩ ∈ t.sent) ∧
      ∀ d ∈ s.sent, d ∈ t.sent by
    obtain ⟨t, hrun, hkeys, hticks, hsent, -⟩ := h
    exact ⟨t, hrun, hkeys, hticks, hsent⟩
  induction sends generalizing s with
  | nil =>
    refine ⟨s.goto i .returned, .tail (.claim i) .refl trivial ?_, rfl, ?_, ?_, fun d hd => hd⟩
    · show SchedulerState.step library s (.claim i) = _
      rw [SchedulerState.step, hi]
      rfl
    · exact s.goto_ticks_self i .returned
    · intro q hq
      cases hq
  | cons send rest ih =>
    obtain ⟨p, raises⟩ := send
    rw [List.map_cons] at hi
    cases hclaim : (claim s.clock p s.keys).2 with
    | false =>
      have hkeys := (claim_of_taken hclaim).1
      obtain ⟨t, hrun, ht⟩ := ih (s.goto i (.claim now (rest.map Prod.fst))) (s.goto_ticks_self i _)
      rw [apply_of_taken hclaim]
      refine ⟨t, .trans (.tail (.claim i) .refl trivial ?_) hrun, ht⟩
      show SchedulerState.step library s (.claim i) = _
      rw [SchedulerState.step, hi]
      simp only [hkeys]
      rfl
    | true =>
      let job := p.job (minuteFloor now)
      let u : SchedulerState ι := { s with
        keys := (claim s.clock p s.keys).1
        claimedBy := Function.update s.claimedBy job (some (i, s.clock)) }.goto i
          (.send now p (rest.map Prod.fst))
      have hclaimed : SchedulerState.step library s (.claim i) = some u := by
        rw [SchedulerState.step, hi]
        simp only [hclaim, if_true]
        rfl
      have hu : u.ticks i = .send now p (rest.map Prod.fst) := SchedulerState.goto_ticks_self ..
      let v : SchedulerState ι := { u with sent := ⟨p, minuteFloor now⟩ :: u.sent }.goto i
        (if raises then .raised else .claim now (rest.map Prod.fst))
      have hsend : SchedulerState.step library u (.send i raises) = some v := by
        rw [SchedulerState.step, hu]
      have hrun : Run (fun s l t => SchedulerState.step library s l = some t) Unconditional s v :=
        .tail (.send i raises) (.tail (.claim i) .refl trivial hclaimed) trivial hsend
      cases raises with
      | true =>
        rw [apply_of_raises hclaim]
        refine ⟨v, hrun, rfl, SchedulerState.goto_ticks_self .., ?_, ?_⟩
        · intro q hq
          cases hq
        · exact fun d hd => List.mem_cons_of_mem _ hd
      | false =>
        obtain ⟨t, hrun', hkeys, hticks, hdispatched, hsent⟩ := ih v (SchedulerState.goto_ticks_self ..)
        rw [apply_of_sent hclaim]
        refine ⟨t, hrun.trans hrun', hkeys, hticks, fun q hq => ?_, fun d hd => ?_⟩
        · rcases List.mem_cons.mp hq with rfl | hq
          · exact hsent _ List.mem_cons_self
          · exact hdispatched q hq
        · exact hsent d (List.mem_cons_of_mem _ hd)

end Nivara.Scheduling
