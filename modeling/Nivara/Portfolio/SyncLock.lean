import Nivara.Lib.ExpiringKeys
import Nivara.Lib.Transition
import Nivara.Common.Time
import Nivara.Portfolio.SyncEndpoint

/-!
# The lock of `sync_portfolio`

The requests of one user and their lock key (`api/portfolio.py`, lines 161-245), with Redis
available. Each command is one step, and time passes between the steps.

* What a request reads from the database and how its sync ends come with the step.
* The key's value is always `"1"`, and the `DEL` of the `finally` looks at nothing.
* `acquiredAt`, `lockedBy` and `removals` are history.

Results:

* `lock_exclusive_of_run`: a request removes no other request's key, and nobody else gets
  the lock within the TTL of a running request, as long as every request releases within
  the TTL or finds no key.
* `not_exclusive_of_late_release`: any other release removes another one's key.
* `outlived_lock_removed`: a request that outlives its lock removes the next one's.
-/

namespace Nivara.Portfolio

open ExpiringKeys Transition

/-- `_SYNC_LOCK_TTL`. -/
def syncLockTtl : ℤ := seconds 60

/-- `lock_key`. -/
def lockKey (userId : UUID) : String := s!"portfolio:sync:lock:{userId.str}"

/-- A request, by what it does next. -/
inductive SyncCall
  /-- `SELECT` the active connection. -/
  | select
  /-- `SET lock_key 1 NX EX`. -/
  | acquire
  /-- Everything between the lock and the `finally`. -/
  | sync
  /-- `DEL lock_key`. -/
  | release (response : SyncResponse)
  | returned (response : SyncResponse)
  deriving DecidableEq

structure LockState (ι : Type) where
  clock : ℤ
  keys : Store String String ℤ
  calls : ι → SyncCall
  /-- When the request set the key. -/
  acquiredAt : ι → Option ℤ
  /-- Who set the key last. -/
  lockedBy : Option ι
  /-- Who removed a key, and who had set it. -/
  removals : List (ι × Option ι)

inductive LockLabel (ι : Type)
  | select (i : ι) (found : Bool)
  | acquire (i : ι)
  | finish (i : ι) (response : SyncResponse)
  | release (i : ι)
  /-- Time passes. -/
  | wait (microseconds : ℕ)

variable {ι : Type}

namespace LockState

section

variable [DecidableEq ι]

def goto (s : LockState ι) (i : ι) (c : SyncCall) : LockState ι :=
  { s with calls := Function.update s.calls i c }

/-- One step of the system. -/
def step (userId : UUID) (s : LockState ι) : LockLabel ι → Option (LockState ι)
  | .select i found =>
    match s.calls i with
    | .select => some (s.goto i (if found then .acquire else .returned (.http noActiveConnection)))
    | _ => none
  | .acquire i =>
    match s.calls i with
    | .acquire =>
      let (keys, acquired) := setNxEx s.clock (lockKey userId) "1" syncLockTtl s.keys
      if acquired then
        some ({ s with
          keys := keys
          acquiredAt := Function.update s.acquiredAt i (some s.clock)
          lockedBy := some i }.goto i .sync)
      else some (s.goto i (.returned (.http syncInProgress)))
    | _ => none
  | .finish i response =>
    match s.calls i with
    | .sync => some (s.goto i (.release response))
    | _ => none
  | .release i =>
    match s.calls i with
    | .release response =>
      let removals :=
        if (getKey s.clock (lockKey userId) s.keys).isSome then (i, s.lockedBy) :: s.removals
        else s.removals
      some ({ s with keys := delete (lockKey userId) s.keys, removals := removals }.goto i (.returned response))
    | _ => none
  | .wait microseconds => some { s with clock := s.clock + microseconds }

end

/-- The request has got the lock at the time `a`, and has not released it. -/
def Running (s : LockState ι) (i : ι) (a : ℤ) : Prop :=
  s.acquiredAt i = some a ∧ (s.calls i = .sync ∨ ∃ response, s.calls i = .release response)

/-- Nobody removes the key of another request, and requests that run at the same time got
    the lock at least its TTL apart. -/
structure Exclusive (s : LockState ι) : Prop where
  own : ∀ i owner, (i, owner) ∈ s.removals → owner = some i
  alone : ∀ i j a b, i ≠ j → s.Running i a → s.Running j b → a + syncLockTtl ≤ b ∨ b + syncLockTtl ≤ a

/-- A request releases within the TTL of its lock, or when there is no key. -/
def ReleasesInTime (userId : UUID) (s : LockState ι) : LockLabel ι → Prop
  | .release i =>
    (∃ a, s.acquiredAt i = some a ∧ s.clock < a + syncLockTtl) ∨
      getKey s.clock (lockKey userId) s.keys = none
  | _ => True

/-- A running request whose TTL is not over holds the lock. -/
structure Inv (userId : UUID) (s : LockState ι) : Prop extends s.Exclusive where
  held : ∀ i a, s.Running i a → s.clock < a + syncLockTtl →
    s.keys (lockKey userId) = some ("1", a + syncLockTtl) ∧ s.lockedBy = some i

/-! ## Steps -/

variable {userId : UUID} {s t : LockState ι} {i j : ι} {a : ℤ}

theorem Running.congr (h : t.Running j a) (hacquired : t.acquiredAt j = s.acquiredAt j)
    (hcalls : t.calls j = s.calls j) : s.Running j a := by
  unfold Running at h ⊢
  rwa [← hacquired, ← hcalls]

variable [DecidableEq ι]

@[simp] theorem goto_calls_self (s : LockState ι) (i : ι) (c : SyncCall) : (s.goto i c).calls i = c :=
  Function.update_self ..

theorem goto_calls_of_ne (s : LockState ι) (c : SyncCall) (h : j ≠ i) : (s.goto i c).calls j = s.calls j :=
  Function.update_of_ne h ..

/-- A step of a request that neither sets nor removes the key. -/
theorem Inv.goto (h : s.Inv userId) {c : SyncCall} (hc : ∀ a, (s.goto i c).Running i a → s.Running i a) :
    (s.goto i c).Inv userId := by
  have hrunning : ∀ j a, (s.goto i c).Running j a → s.Running j a := by
    intro j a hj
    by_cases hji : j = i
    · subst hji
      exact hc a hj
    · exact hj.congr rfl (s.goto_calls_of_ne c hji)
  exact ⟨⟨h.own, fun i j a b hne hi hj => h.alone i j a b hne (hrunning i a hi) (hrunning j b hj)⟩,
    fun i a hi hlt => h.held i a (hrunning i a hi) hlt⟩

/-- A request gets the lock: it was free, so whoever runs has outlived the TTL. -/
theorem Inv.acquire (h : s.Inv userId) (hgone : getKey s.clock (lockKey userId) s.keys = none) :
    ({ s with
        keys := Function.update s.keys (lockKey userId) (some ("1", s.clock + syncLockTtl))
        acquiredAt := Function.update s.acquiredAt i (some s.clock)
        lockedBy := some i }.goto i .sync).Inv userId := by
  let t : LockState ι := { s with
    keys := Function.update s.keys (lockKey userId) (some ("1", s.clock + syncLockTtl))
    acquiredAt := Function.update s.acquiredAt i (some s.clock)
    lockedBy := some i }.goto i .sync
  show t.Inv userId
  have houtlived : ∀ j a, s.Running j a → a + syncLockTtl ≤ s.clock := by
    intro j a hj
    by_contra hlt
    obtain ⟨hkey, -⟩ := h.held j a hj (not_le.mp hlt)
    rw [get_of_lt hkey (not_le.mp hlt)] at hgone
    cases hgone
  have hself : ∀ a, t.Running i a → a = s.clock := by
    rintro a ⟨ha, -⟩
    have hupdate : Function.update s.acquiredAt i (some s.clock) i = some a := ha
    rw [Function.update_self] at hupdate
    exact (Option.some.inj hupdate).symm
  have hother : ∀ j a, j ≠ i → t.Running j a → s.Running j a := fun j a hji hj =>
    hj.congr (Function.update_of_ne hji ..) (Function.update_of_ne hji ..)
  refine ⟨⟨h.own, fun j k a b hne hj hk => ?_⟩, fun j a hj hlt => ?_⟩
  · by_cases hji : j = i
    · subst hji
      have hb := houtlived k b (hother k b (Ne.symm hne) hk)
      rw [hself a hj]
      exact .inr hb
    · have ha := houtlived j a (hother j a hji hj)
      by_cases hki : k = i
      · subst hki
        rw [hself b hk]
        exact .inl ha
      · exact h.alone j k a b hne (hother j a hji hj) (hother k b hki hk)
  · by_cases hji : j = i
    · subst hji
      rw [hself a hj]
      have hkeys : t.keys = Function.update s.keys (lockKey userId) (some ("1", s.clock + syncLockTtl)) := rfl
      rw [hkeys, Function.update_self]
      exact ⟨rfl, rfl⟩
    · have ha := houtlived j a (hother j a hji hj)
      have hclock : t.clock = s.clock := rfl
      omega

/-- A request releases: the key is its own, or there is none. -/
theorem Inv.release (h : s.Inv userId) {response : SyncResponse}
    (hcond : s.ReleasesInTime userId (.release i)) (hi : s.calls i = .release response) :
    ({ s with
        keys := delete (lockKey userId) s.keys
        removals := if (getKey s.clock (lockKey userId) s.keys).isSome then (i, s.lockedBy) :: s.removals
          else s.removals }.goto i (.returned response)).Inv userId := by
  let t : LockState ι := { s with
    keys := delete (lockKey userId) s.keys
    removals := if (getKey s.clock (lockKey userId) s.keys).isSome then (i, s.lockedBy) :: s.removals
      else s.removals }.goto i (.returned response)
  show t.Inv userId
  have hown : (getKey s.clock (lockKey userId) s.keys).isSome → s.lockedBy = some i := by
    intro hlive
    rcases hcond with ⟨a, ha, hlt⟩ | hnone
    · exact (h.held i a ⟨ha, .inr ⟨response, hi⟩⟩ hlt).2
    · rw [hnone] at hlive
      cases hlive
  have hother : ∀ j a, t.Running j a → j ≠ i ∧ s.Running j a := by
    intro j a hj
    have hji : j ≠ i := by
      rintro rfl
      have hcalls : t.calls j = .returned response := Function.update_self ..
      rcases hj.2 with hsync | ⟨response', hrelease⟩
      · rw [hcalls] at hsync
        cases hsync
      · rw [hcalls] at hrelease
        cases hrelease
    exact ⟨hji, hj.congr rfl (Function.update_of_ne hji ..)⟩
  refine ⟨⟨fun j owner hmem => ?_, fun j k a b hne hj hk => ?_⟩, fun j a hj hlt => ?_⟩
  · have hmem' : (j, owner) ∈ (if (getKey s.clock (lockKey userId) s.keys).isSome
        then (i, s.lockedBy) :: s.removals else s.removals) := hmem
    by_cases hlive : (getKey s.clock (lockKey userId) s.keys).isSome = true
    · rw [if_pos hlive] at hmem'
      rcases List.mem_cons.mp hmem' with heq | hmem'
      · obtain ⟨rfl, rfl⟩ := Prod.mk.inj heq
        exact hown hlive
      · exact h.own j owner hmem'
    · rw [if_neg hlive] at hmem'
      exact h.own j owner hmem'
  · exact h.alone j k a b hne (hother j a hj).2 (hother k b hk).2
  · -- the key of a request whose TTL is not over is there, and its own
    obtain ⟨hji, hj⟩ := hother j a hj
    have hlt' : s.clock < a + syncLockTtl := hlt
    obtain ⟨hkey, hlocked⟩ := h.held j a hj hlt'
    have hlive : (getKey s.clock (lockKey userId) s.keys).isSome = true := by
      rw [get_of_lt hkey hlt']
      rfl
    rw [hown hlive] at hlocked
    exact absurd (Option.some.inj hlocked).symm hji

/-- One step keeps the invariant. -/
theorem Inv.step (h : s.Inv userId) {l : LockLabel ι} (hcond : s.ReleasesInTime userId l)
    (hstep : s.step userId l = some t) : t.Inv userId := by
  have hends : ∀ (i : ι) (c : SyncCall), (∀ response, c ≠ .release response) → c ≠ .sync →
      (s.goto i c).Inv userId := by
    intro i c hrelease hsync
    refine h.goto fun a ha => ?_
    rcases ha.2 with hc | ⟨response, hc⟩
    · exact absurd (((s.goto_calls_self i c).symm.trans hc)) hsync
    · exact absurd ((s.goto_calls_self i c).symm.trans hc) (hrelease response)
  unfold LockState.step at hstep
  cases l with
  | select i found =>
    simp only at hstep
    split at hstep
    · cases hstep
      cases found with
      | true => exact hends i .acquire (fun _ => SyncCall.noConfusion) SyncCall.noConfusion
      | false => exact hends i _ (fun _ => SyncCall.noConfusion) SyncCall.noConfusion
    · cases hstep
  | acquire i =>
    simp only at hstep
    split at hstep
    · cases hget : getKey s.clock (lockKey userId) s.keys with
      | none =>
        have hacquired := h.acquire (i := i) hget
        rw [setNxEx_of_gone hget] at hstep
        cases hstep
        exact hacquired
      | some v =>
        rw [setNxEx_of_live hget] at hstep
        cases hstep
        exact hends i _ (fun _ => SyncCall.noConfusion) SyncCall.noConfusion
    · cases hstep
  | finish i response =>
    simp only at hstep
    split at hstep
    · rename_i hi
      cases hstep
      exact h.goto fun a ha => ⟨ha.1, .inl hi⟩
    · cases hstep
  | release i =>
    simp only at hstep
    split at hstep
    · rename_i response hi
      cases hstep
      exact h.release hcond hi
    · cases hstep
  | wait microseconds =>
    cases hstep
    refine ⟨⟨h.own, h.alone⟩, fun i a hi hlt => h.held i a hi ?_⟩
    simp only at hlt
    omega

end LockState

/-! ## Runs -/

/-- Before any request, with any keys. -/
def LockState.initial (clock : ℤ) (keys : Store String String ℤ) : LockState ι :=
  ⟨clock, keys, fun _ => .select, fun _ => none, none, []⟩

theorem LockState.initial_inv (userId : UUID) (clock : ℤ) (keys : Store String String ℤ) :
    (LockState.initial clock keys : LockState ι).Inv userId where
  own := by
    intro i owner hmem
    cases hmem
  alone := by
    rintro i j a b - ⟨ha, -⟩
    cases ha
  held := by
    rintro i a ⟨ha, -⟩
    cases ha

variable [DecidableEq ι]

/-- In every interleaving of requests that all release within the TTL of their lock, or find
    no key: nobody removes another one's key, and nobody gets the lock within the TTL of a
    running request. -/
theorem lock_exclusive_of_run (userId : UUID) (clock : ℤ) (keys : Store String String ℤ) (s : LockState ι)
    (hrun : Run (fun s l t => LockState.step userId s l = some t) (LockState.ReleasesInTime userId)
      (LockState.initial clock keys) s) : s.Exclusive :=
  (hrun.invariant (LockState.initial_inv userId clock keys)
    fun _ _ _ h hcond hstep => h.step hcond hstep).toExclusive

/-! ## Releasing too late -/

namespace LockState

/-- A key that a request has set runs out one TTL later. -/
def KeyOfLocker (userId : UUID) (s : LockState ι) : Prop :=
  ∀ i, s.lockedBy = some i → ∃ a, s.acquiredAt i = some a ∧
    ∀ v deadline, s.keys (lockKey userId) = some (v, deadline) → deadline = a + syncLockTtl

/-- Every step keeps it, in time or not. -/
theorem KeyOfLocker.step {userId : UUID} {s t : LockState ι} (h : s.KeyOfLocker userId) {l : LockLabel ι}
    (hstep : s.step userId l = some t) : t.KeyOfLocker userId := by
  unfold LockState.step at hstep
  cases l with
  | acquire i =>
    simp only at hstep
    split at hstep
    · cases hget : getKey s.clock (lockKey userId) s.keys with
      | none =>
        rw [setNxEx_of_gone hget, if_pos rfl] at hstep
        have ht := (Option.some.inj hstep).symm
        have hkeys : t.keys = Function.update s.keys (lockKey userId) (some ("1", s.clock + syncLockTtl)) := by
          rw [ht]; rfl
        have hacquired : t.acquiredAt = Function.update s.acquiredAt i (some s.clock) := by rw [ht]; rfl
        have hlocked : t.lockedBy = some i := by rw [ht]; rfl
        intro j hj
        have hij : i = j := Option.some.inj (hlocked.symm.trans hj)
        subst hij
        refine ⟨s.clock, by rw [hacquired, Function.update_self], fun v deadline hkey => ?_⟩
        rw [hkeys, Function.update_self] at hkey
        exact (Prod.mk.inj (Option.some.inj hkey)).2.symm
      | some v =>
        rw [setNxEx_of_live hget] at hstep
        cases hstep
        exact h
    · cases hstep
  | release i =>
    simp only at hstep
    split at hstep
    · have ht := (Option.some.inj hstep).symm
      have hkeys : t.keys = Function.update s.keys (lockKey userId) none := by rw [ht]; rfl
      intro j hj
      have hlocked : s.lockedBy = some j := by rw [ht] at hj; exact hj
      obtain ⟨a, ha, -⟩ := h j hlocked
      refine ⟨a, by rw [ht]; exact ha, fun v deadline hkey => ?_⟩
      rw [hkeys, Function.update_self] at hkey
      cases hkey
    · cases hstep
  | select i found =>
    simp only at hstep
    split at hstep <;> cases hstep
    exact h
  | finish i response =>
    simp only at hstep
    split at hstep <;> cases hstep
    exact h
  | wait microseconds =>
    cases hstep
    exact h

/-- A release that does not meet the condition removes a key that the request has not set. -/
theorem KeyOfLocker.late_release {userId : UUID} {s t : LockState ι} {i : ι} (h : s.KeyOfLocker userId)
    (hcond : ¬ s.ReleasesInTime userId (.release i)) (hstep : s.step userId (.release i) = some t) :
    ¬ t.Exclusive := by
  unfold ReleasesInTime at hcond
  push Not at hcond
  obtain ⟨houtlived, hlive⟩ := hcond
  obtain ⟨v, hv⟩ := Option.ne_none_iff_exists'.mp hlive
  obtain ⟨deadline, hkey, hlt⟩ := getKey_eq_some_iff.mp hv
  unfold LockState.step at hstep
  simp only at hstep
  split at hstep
  · cases hstep
    intro hexclusive
    have hown : s.lockedBy = some i := by
      refine hexclusive.own i s.lockedBy ?_
      show (i, s.lockedBy) ∈ if (getKey s.clock (lockKey userId) s.keys).isSome = true then
        (i, s.lockedBy) :: s.removals else s.removals
      rw [hv, Option.isSome_some, if_pos rfl]
      exact List.mem_cons_self
    obtain ⟨a, ha, hdeadline⟩ := h i hown
    have hlate := houtlived a ha
    rw [← hdeadline v deadline hkey] at hlate
    exact absurd hlt (not_lt.mpr hlate)
  · cases hstep

end LockState

/-- In any run, a release that does not meet the condition removes another one's key. -/
theorem not_exclusive_of_late_release {userId : UUID} {clock : ℤ} {keys : Store String String ℤ}
    {cond : LockState ι → LockLabel ι → Prop} {s t : LockState ι} {i : ι}
    (hrun : Run (fun s l t => LockState.step userId s l = some t) cond (LockState.initial clock keys) s)
    (hcond : ¬ s.ReleasesInTime userId (.release i)) (hstep : s.step userId (.release i) = some t) :
    ¬ t.Exclusive := by
  have hlocker : s.KeyOfLocker userId :=
    hrun.invariant (fun j hj => by cases hj) fun _ _ _ h _ hstep => h.step hstep
  exact hlocker.late_release hcond hstep

instance (userId : UUID) (s : LockState ι) : (l : LockLabel ι) → Decidable (s.ReleasesInTime userId l)
  | .release i =>
    decidable_of_iff ((∃ a ∈ s.acquiredAt i, s.clock < a + syncLockTtl) ∨
      getKey s.clock (lockKey userId) s.keys = none) Iff.rfl
  | .select .. | .acquire _ | .finish .. | .wait _ => isTrue trivial

/-- The second request is refused, the third one gets the lock that the first has released;
    the fourth one finds its lock gone. -/
def requestsInTime : List (LockLabel (Fin 4)) :=
  [.select 0 true, .select 1 true, .acquire 0, .acquire 1, .wait 30000000, .finish 0 .serverError,
    .release 0, .select 2 true, .acquire 2, .finish 2 .serverError, .release 2, .select 3 true, .acquire 3,
    .wait 60000000, .finish 3 .serverError, .release 3]

theorem lock_exclusive_of_run_sample :
    ∃ s, requestsInTime.foldlM (fun (s : LockState (Fin 4)) l =>
        if s.ReleasesInTime 1 l then s.step 1 l else none) (LockState.initial 0 fun _ => none) = some s ∧
      s.Exclusive := by
  obtain ⟨s, hs⟩ := Option.isSome_iff_exists.mp (show (requestsInTime.foldlM
    (fun (s : LockState (Fin 4)) l => if s.ReleasesInTime 1 l then s.step 1 l else none)
      (LockState.initial 0 fun _ => none)).isSome by decide +kernel)
  exact ⟨s, hs, lock_exclusive_of_run 1 0 (fun _ => none) s (Run.of_foldlM_guarded _ hs)⟩

/-- The first request is still running after a minute, and releases when the second one has
    got the lock. -/
def outlivedRequest : List (LockLabel (Fin 3)) :=
  [.select 0 true, .acquire 0, .wait 61000000, .select 1 true, .acquire 1, .finish 0 .serverError,
    .release 0, .select 2 true, .acquire 2]

theorem outlived_lock_removed :
    ¬ ∀ s : LockState (Fin 3),
      Run (fun s l t => LockState.step 1 s l = some t) Unconditional (LockState.initial 0 fun _ => none) s →
        s.Exclusive := by
  intro h
  obtain ⟨s, hs, hremovals⟩ := Option.map_eq_some_iff.mp (show (outlivedRequest.foldlM
    (LockState.step 1) (LockState.initial 0 fun _ => none)).map LockState.removals = some [(0, some 1)] by
      decide +kernel)
  have hown := (h s (Run.of_foldlM _ hs)).own 0 (some 1)
  rw [hremovals] at hown
  have heq := hown (List.mem_singleton.mpr rfl)
  revert heq
  decide

end Nivara.Portfolio
