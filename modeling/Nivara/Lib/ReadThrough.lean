import Nivara.Lib.ExpiringKeys
import Nivara.Lib.Transition

/-!
# Read-through caches

Calls that look a request up in a store of keys with a time to live and, when it is not
there, fetch it and store what they got. Each access to the store and each fetch is a step
of its own, and the calls interleave with each other, with deletions and with time.

A `Policy` says under which key, for how long and as what a request is stored; it carries
that keys are distinct and that what is stored is read back. A payload that cannot be read
counts as absent. `fetched` and `writes` are history.

Results:

* `Inv.step`: what a call returns was fetched for its request, and was stored no longer ago
  than the time to live, or was fetched by the call itself.
* `Since.step`: after a deletion while nobody fetches the request, only what was fetched later
  is returned.
* `served_of_run`: both for whole runs.
-/

namespace Nivara.ReadThrough

open ExpiringKeys Transition

/-- How requests are cached. -/
structure Policy {ρ : Type*} (κ π : Type*) (ν : ρ → Type*) where
  key : ρ → κ
  ttl : ρ → ℤ
  /-- A request that is not refused. -/
  valid : ρ → Bool
  encode : ∀ r, ν r → π
  decode : ∀ r, π → Option (ν r)
  key_injective : Function.Injective key
  decode_encode : ∀ r v, decode r (encode r v) = some v

variable {ρ κ π ι : Type*} {ν : ρ → Type*}

/-- An answer to a request. -/
structure Fetch (ν : ρ → Type*) where
  request : ρ
  value : ν request
  began : ℤ
  ended : ℤ

/-- A call, by what it does next. -/
inductive Call (ν : ρ → Type*)
  | idle
  /-- Look the request up. -/
  | read (r : ρ)
  | fetch (r : ρ) (began : ℤ)
  | store (f : Fetch ν)
  /-- It has returned what it read or fetched at a time. -/
  | returned (r : ρ) (v : ν r) (time : ℤ)
  | raised

structure State (κ π ι : Type*) (ν : ρ → Type*) where
  clock : ℤ
  store : Store κ π ℤ
  calls : ι → Call ν
  /-- The answers to all requests. -/
  fetched : List (Fetch ν)
  /-- The answers that were stored, and when. -/
  writes : List (Fetch ν × ℤ)

inductive Label (κ π ι : Type*) (ν : ρ → Type*)
  | start (i : ι) (r : ρ)
  | read (i : ι)
  /-- The answer of the upstream, `none` when it fails. -/
  | answer (i : ι) (upstream : ∀ r, Option (ν r))
  | write (i : ι)
  /-- The store fails. -/
  | fail (i : ι)
  | delete (k : κ)
  /-- Another writer. -/
  | put (k : κ) (payload : π) (ttl : ℤ)
  | wait (n : ℕ)

namespace State

variable [DecidableEq κ] [DecidableEq ι] (P : Policy κ π ν)

def goto (s : State κ π ι ν) (i : ι) (c : Call ν) : State κ π ι ν :=
  { s with calls := Function.update s.calls i c }

/-- Look a request up: an entry that can be read. -/
def lookup (s : State κ π ι ν) (r : ρ) : Option (ν r) :=
  (getKey s.clock (P.key r) s.store).bind (P.decode r)

/-- One step. -/
def step (s : State κ π ι ν) : Label κ π ι ν → Option (State κ π ι ν)
  | .start i r =>
    match s.calls i with
    | .idle => some (s.goto i (if P.valid r then .read r else .raised))
    | _ => none
  | .read i =>
    match s.calls i with
    | .read r =>
      some (s.goto i (match s.lookup P r with
        | some v => .returned r v s.clock
        | none => .fetch r s.clock))
    | _ => none
  | .answer i upstream =>
    match s.calls i with
    | .fetch r began =>
      match upstream r with
      | none => some (s.goto i .raised)
      | some v =>
        let f : Fetch ν := ⟨r, v, began, s.clock⟩
        some ({ s with fetched := f :: s.fetched }.goto i (.store f))
    | _ => none
  | .write i =>
    match s.calls i with
    | .store f =>
      let store := setEx s.clock (P.key f.request) (P.encode f.request f.value) (P.ttl f.request) s.store
      some ({ s with store := store, writes := (f, s.clock) :: s.writes }.goto i
        (.returned f.request f.value f.ended))
    | _ => none
  | .fail i =>
    match s.calls i with
    | .read _ | .store _ => some (s.goto i .raised)
    | _ => none
  | .delete k => some { s with store := delete k s.store }
  | .put k payload ttl => some { s with store := setEx s.clock k payload ttl s.store }
  | .wait n => some { s with clock := s.clock + n }

end State

/-- The condition on a step: what another writer puts under a key of the cache cannot be read. -/
def Unreadable (P : Policy κ π ν) (_ : State κ π ι ν) : Label κ π ι ν → Prop
  | .put k payload _ => ∀ r, P.key r = k → P.decode r payload = none
  | _ => True

def initial (clock : ℤ) : State κ π ι ν := ⟨clock, fun _ => none, fun _ => .idle, [], []⟩

/-- What a call returned at a time was fetched for its request: just then, or it was stored since
    and no longer ago than the time to live. -/
def State.Served (P : Policy κ π ν) (s : State κ π ι ν) (r : ρ) (v : ν r) (time : ℤ) : Prop :=
  ∃ began ended, ⟨r, v, began, ended⟩ ∈ s.fetched ∧ began ≤ ended ∧
    (ended = time ∨ ∃ w, (⟨r, v, began, ended⟩, w) ∈ s.writes ∧ ended ≤ w ∧ w ≤ time ∧ time < w + P.ttl r)

/-! ## Steps -/

variable {P : Policy κ π ν} {s t : State κ π ι ν}

/-- What the history grows by is kept. -/
theorem State.Served.mono {r : ρ} {v : ν r} {time : ℤ} (h : s.Served P r v time)
    (hf : s.fetched ⊆ t.fetched) (hw : s.writes ⊆ t.writes) : t.Served P r v time := by
  obtain ⟨began, ended, hmem, hle, hserved⟩ := h
  refine ⟨began, ended, hf hmem, hle, hserved.imp id ?_⟩
  rintro ⟨w, hmemw, hrest⟩
  exact ⟨w, hw hmemw, hrest⟩

/-- What is known of the entries and the calls. -/
structure Inv (P : Policy κ π ν) (s : State κ π ι ν) : Prop where
  fetched : ∀ f ∈ s.fetched, f.began ≤ f.ended ∧ f.ended ≤ s.clock
  written : ∀ f w, (f, w) ∈ s.writes → f ∈ s.fetched ∧ f.ended ≤ w ∧ w ≤ s.clock
  /-- An entry is an answer that was stored, or cannot be read. -/
  stored : ∀ k payload deadline, s.store k = some (payload, deadline) →
    (∃ f w, (f, w) ∈ s.writes ∧ P.key f.request = k ∧ payload = P.encode f.request f.value ∧
      deadline = w + P.ttl f.request) ∨ ∀ r, P.key r = k → P.decode r payload = none
  fetching : ∀ i r began, s.calls i = .fetch r began → began ≤ s.clock
  storing : ∀ i f, s.calls i = .store f → f ∈ s.fetched
  returned : ∀ i r v time, s.calls i = .returned r v time → time ≤ s.clock ∧ s.Served P r v time

/-- An entry that is found is an answer to the request that was stored. -/
theorem Inv.exists_of_lookup (h : Inv P s) {r : ρ} {v : ν r} (hv : s.lookup P r = some v) :
    ∃ began ended w deadline, (⟨r, v, began, ended⟩, w) ∈ s.writes ∧
      s.store (P.key r) = some (P.encode r v, deadline) ∧ s.clock < w + P.ttl r := by
  obtain ⟨payload, hpayload, hdecode⟩ := Option.bind_eq_some_iff.mp hv
  obtain ⟨deadline, hstore, hlt⟩ := getKey_eq_some_iff.mp hpayload
  rcases h.stored _ payload deadline hstore with ⟨⟨r', v', began, ended⟩, w, hw, hkey, rfl, rfl⟩ |
    hunreadable
  · obtain rfl : r' = r := P.key_injective hkey
    obtain rfl := Option.some.inj ((P.decode_encode r' v').symm.trans hdecode)
    exact ⟨began, ended, w, _, hw, hstore, hlt⟩
  · rw [hunreadable r rfl] at hdecode
    cases hdecode

section Step

variable [DecidableEq κ] [DecidableEq ι]

omit [DecidableEq κ] in
/-- A step of one call: what is to be shown of it, the rest being as before. -/
theorem Inv.call (h : Inv P s) {i : ι} {c : Call ν} (ht : t.calls = Function.update s.calls i c)
    (hclock : t.clock = s.clock) (hf : s.fetched ⊆ t.fetched) (hw : s.writes ⊆ t.writes)
    (hfetched : ∀ f ∈ t.fetched, f.began ≤ f.ended ∧ f.ended ≤ t.clock)
    (hwritten : ∀ f w, (f, w) ∈ t.writes → f ∈ t.fetched ∧ f.ended ≤ w ∧ w ≤ t.clock)
    (hstored : ∀ k payload deadline, t.store k = some (payload, deadline) →
      (∃ f w, (f, w) ∈ t.writes ∧ P.key f.request = k ∧ payload = P.encode f.request f.value ∧
        deadline = w + P.ttl f.request) ∨ ∀ r, P.key r = k → P.decode r payload = none)
    (hfetching : ∀ r began, c = .fetch r began → began ≤ t.clock)
    (hstoring : ∀ f, c = .store f → f ∈ t.fetched)
    (hreturned : ∀ r v time, c = .returned r v time → time ≤ t.clock ∧ t.Served P r v time) : Inv P t := by
  have hcalls : ∀ j c', t.calls j = c' → (j = i ∧ c = c') ∨ s.calls j = c' := by
    intro j c' hj
    rw [ht] at hj
    by_cases hji : j = i
    · subst hji
      rw [Function.update_self] at hj
      exact .inl ⟨rfl, hj⟩
    · rw [Function.update_of_ne hji] at hj
      exact .inr hj
  refine ⟨hfetched, hwritten, hstored, fun j r began hj => ?_, fun j f hj => ?_, fun j r v time hj => ?_⟩
    <;>
    rcases hcalls j _ hj with ⟨-, hc⟩ | hold
  · exact hfetching r began hc
  · exact hclock ▸ h.fetching j r began hold
  · exact hstoring f hc
  · exact hf (h.storing j f hold)
  · exact hreturned r v time hc
  · obtain ⟨hle, hserved⟩ := h.returned j r v time hold
    exact ⟨hclock ▸ hle, hserved.mono hf hw⟩

theorem Inv.step (h : Inv P s) {l : Label κ π ι ν} (hcond : Unreadable P s l)
    (hstep : s.step P l = some t) :
    Inv P t := by
  cases l with
  | start i r =>
    simp only [State.step] at hstep
    split at hstep
    · cases hstep
      refine h.call rfl rfl (List.Subset.refl _) (List.Subset.refl _) h.fetched h.written h.stored
        (fun r' began hc => ?_) (fun f hc => ?_) fun r' v time hc => ?_ <;> split at hc <;> cases hc
    · cases hstep
  | read i =>
    simp only [State.step] at hstep
    split at hstep
    · rename_i r hi
      cases hstep
      refine h.call rfl rfl (List.Subset.refl _) (List.Subset.refl _) h.fetched h.written h.stored
        (fun r' began hc => ?_) (fun f hc => ?_) fun r' v time hc => ?_ <;> split at hc <;> cases hc
      · exact le_rfl
      · rename_i hlookup
        obtain ⟨began, ended, w, deadline, hw, -, hlt⟩ := h.exists_of_lookup hlookup
        obtain ⟨hmem, hended, hwle⟩ := h.written _ w hw
        exact ⟨le_rfl, began, ended, hmem, (h.fetched _ hmem).1, .inr ⟨w, hw, hended, hwle, hlt⟩⟩
    · cases hstep
  | answer i upstream =>
    simp only [State.step] at hstep
    split at hstep
    · rename_i r began hi
      split at hstep
      · cases hstep
        refine h.call rfl rfl (List.Subset.refl _) (List.Subset.refl _) h.fetched h.written h.stored
          (fun r' began hc => ?_) (fun f hc => ?_) fun r' v time hc => ?_ <;> cases hc
      · cases hstep
        refine h.call rfl rfl (List.subset_cons_self ..) (List.Subset.refl _) ?_
          (fun f w hw => ?_) h.stored (fun r' began hc => ?_) (fun f hc => ?_) fun r' v time hc => ?_
        · intro f hf
          rcases List.mem_cons.mp hf with rfl | hf
          · exact ⟨h.fetching i r began hi, le_rfl⟩
          · exact h.fetched f hf
        · obtain ⟨hmem, hrest⟩ := h.written f w hw
          exact ⟨List.mem_cons_of_mem _ hmem, hrest⟩
        · cases hc
        · cases hc
          exact List.mem_cons_self
        · cases hc
    · cases hstep
  | write i =>
    simp only [State.step] at hstep
    split at hstep
    · rename_i f hi
      cases hstep
      have hmem := h.storing i f hi
      obtain ⟨hbegan, hended⟩ := h.fetched f hmem
      refine h.call rfl rfl (List.Subset.refl _) (List.subset_cons_self ..) h.fetched
        (fun f' w hw => ?_) (fun k payload deadline hk => ?_) (fun r began hc => ?_) (fun f' hc => ?_)
        fun r v time hc => ?_
      · rcases List.mem_cons.mp hw with heq | hw
        · cases heq
          exact ⟨hmem, hended, le_rfl⟩
        · exact h.written f' w hw
      · change setEx s.clock (P.key f.request) (P.encode f.request f.value) (P.ttl f.request) s.store k =
          _ at hk
        by_cases hkey : k = P.key f.request
        · subst hkey
          rw [setEx, Function.update_self] at hk
          cases hk
          exact .inl ⟨f, s.clock, List.mem_cons_self, rfl, rfl, rfl⟩
        · rw [setEx, Function.update_of_ne hkey] at hk
          refine (h.stored k payload deadline hk).imp ?_ id
          rintro ⟨f', w, hw, hrest⟩
          exact ⟨f', w, List.mem_cons_of_mem _ hw, hrest⟩
      · cases hc
      · cases hc
      · cases hc
        exact ⟨hended, f.began, f.ended, hmem, hbegan, .inl rfl⟩
    · cases hstep
  | fail i =>
    simp only [State.step] at hstep
    split at hstep
    case h_3 => cases hstep
    all_goals
      cases hstep
      refine h.call rfl rfl (List.Subset.refl _) (List.Subset.refl _) h.fetched h.written h.stored
        (fun r' began hc => ?_) (fun f hc => ?_) fun r' v time hc => ?_ <;> cases hc
  | delete k =>
    cases hstep
    refine ⟨h.fetched, h.written, fun k' payload deadline hk => ?_, h.fetching, h.storing, h.returned⟩
    change delete k s.store k' = _ at hk
    by_cases hkey : k' = k
    · rw [hkey, delete, Function.update_self] at hk
      cases hk
    · rw [delete, Function.update_of_ne hkey] at hk
      exact h.stored k' payload deadline hk
  | put k payload ttl =>
    cases hstep
    refine ⟨h.fetched, h.written, fun k' payload' deadline hk => ?_, h.fetching, h.storing, h.returned⟩
    change setEx s.clock k payload ttl s.store k' = _ at hk
    by_cases hkey : k' = k
    · subst hkey
      rw [setEx, Function.update_self] at hk
      cases hk
      exact .inr hcond
    · rw [setEx, Function.update_of_ne hkey] at hk
      exact h.stored k' payload' deadline hk
  | wait n =>
    cases hstep
    have hle : s.clock ≤ s.clock + n := by omega
    refine ⟨fun f hf => ?_, fun f w hw => ?_, h.stored, fun i r began hi =>
      (h.fetching i r began hi).trans hle,
      h.storing, fun i r v time hi => ?_⟩
    · obtain ⟨hbegan, hended⟩ := h.fetched f hf
      exact ⟨hbegan, hended.trans hle⟩
    · obtain ⟨hmem, hended, hwle⟩ := h.written f w hw
      exact ⟨hmem, hended, hwle.trans hle⟩
    · obtain ⟨htime, hserved⟩ := h.returned i r v time hi
      exact ⟨htime.trans hle, hserved⟩

end Step

/-! ## Deletions -/

/-- The request is not cached, and nobody is fetching it. -/
structure Quiet (P : Policy κ π ν) (s : State κ π ι ν) (r : ρ) : Prop where
  absent : getKey s.clock (P.key r) s.store = none
  notFetching : ∀ i began, s.calls i ≠ .fetch r began
  notStoring : ∀ i v began ended, s.calls i ≠ .store ⟨r, v, began, ended⟩

/-- The value was fetched after `start`. -/
def FetchedSince (start : ℤ) (s : State κ π ι ν) (r : ρ) (v : ν r) : Prop :=
  ∃ began ended, start ≤ began ∧ ⟨r, v, began, ended⟩ ∈ s.fetched

/-- After a state in which a request was not cached and not being fetched. -/
structure Since (P : Policy κ π ν) (s₀ : State κ π ι ν) (r : ρ) (s : State κ π ι ν) : Prop where
  clock : s₀.clock ≤ s.clock
  stored : ∀ payload deadline, s.store (P.key r) = some (payload, deadline) → s₀.clock < deadline →
    (∃ v, payload = P.encode r v ∧ FetchedSince s₀.clock s r v) ∨ P.decode r payload = none
  fetching : ∀ i began, s.calls i = .fetch r began → s₀.clock ≤ began
  storing : ∀ i v began ended, s.calls i = .store ⟨r, v, began, ended⟩ →
    s₀.clock ≤ began ∧ ⟨r, v, began, ended⟩ ∈ s.fetched
  returned : ∀ i v time, s.calls i = .returned r v time →
    s₀.calls i = .returned r v time ∨ FetchedSince s₀.clock s r v

theorem Quiet.since {r : ρ} (h : Quiet P s r) : Since P s r s where
  clock := le_rfl
  stored := fun _ _ hk hlt => absurd (deadline_le_of_get h.absent hk) (not_le.mpr hlt)
  fetching := fun i began hi => absurd hi (h.notFetching i began)
  storing := fun i v began ended hi => absurd hi (h.notStoring i v began ended)
  returned := fun _ _ _ hi => .inl hi

section Step

variable {s₀ : State κ π ι ν} {r : ρ} [DecidableEq ι]

/-- A step of one call. -/
theorem Since.call (h : Since P s₀ r s) {i : ι} {c : Call ν} (ht : t.calls = Function.update s.calls i c)
    (hclock : t.clock = s.clock) (hf : s.fetched ⊆ t.fetched)
    (hstored : ∀ payload deadline, t.store (P.key r) = some (payload, deadline) → s₀.clock < deadline →
      (∃ v, payload = P.encode r v ∧ FetchedSince s₀.clock t r v) ∨ P.decode r payload = none)
    (hfetching : ∀ began, c = .fetch r began → s₀.clock ≤ began)
    (hstoring : ∀ v began ended, c = .store ⟨r, v, began, ended⟩ →
      s₀.clock ≤ began ∧ ⟨r, v, began, ended⟩ ∈ t.fetched)
    (hreturned : ∀ v time, c = .returned r v time → FetchedSince s₀.clock t r v) : Since P s₀ r t := by
  have hcalls : ∀ j c', t.calls j = c' → (j = i ∧ c = c') ∨ s.calls j = c' := by
    intro j c' hj
    rw [ht] at hj
    by_cases hji : j = i
    · subst hji
      rw [Function.update_self] at hj
      exact .inl ⟨rfl, hj⟩
    · rw [Function.update_of_ne hji] at hj
      exact .inr hj
  refine ⟨hclock ▸ h.clock, hstored, fun j began hj => ?_, fun j v began ended hj => ?_,
    fun j v time hj => ?_⟩ <;> rcases hcalls j _ hj with ⟨-, hc⟩ | hold
  · exact hfetching began hc
  · exact h.fetching j began hold
  · exact hstoring v began ended hc
  · obtain ⟨hbegan, hmem⟩ := h.storing j v began ended hold
    exact ⟨hbegan, hf hmem⟩
  · exact .inr (hreturned v time hc)
  · refine (h.returned j v time hold).imp id ?_
    rintro ⟨began, ended, hbegan, hmem⟩
    exact ⟨began, ended, hbegan, hf hmem⟩

omit [DecidableEq ι] in
/-- The entry of the request is as before. -/
theorem Since.stored_mono (h : Since P s₀ r s) (hf : s.fetched ⊆ t.fetched) {payload : π} {deadline : ℤ}
    (hk : s.store (P.key r) = some (payload, deadline)) (hlt : s₀.clock < deadline) :
    (∃ v, payload = P.encode r v ∧ FetchedSince s₀.clock t r v) ∨ P.decode r payload = none := by
  refine (h.stored payload deadline hk hlt).imp ?_ id
  rintro ⟨v, hv, began, ended, hbegan, hmem⟩
  exact ⟨v, hv, began, ended, hbegan, hf hmem⟩

variable [DecidableEq κ]

theorem Since.step (h : Since P s₀ r s) {l : Label κ π ι ν} (hcond : Unreadable P s l)
    (hstep : s.step P l = some t) : Since P s₀ r t := by
  cases l with
  | start i r' =>
    simp only [State.step] at hstep
    split at hstep
    · cases hstep
      refine h.call rfl rfl (List.Subset.refl _) h.stored (fun began hc => ?_) (fun v began ended hc => ?_)
        fun v time hc => ?_ <;> split at hc <;> cases hc
    · cases hstep
  | read i =>
    simp only [State.step] at hstep
    split at hstep
    · rename_i r' hi
      cases hstep
      refine h.call rfl rfl (List.Subset.refl _) h.stored (fun began hc => ?_) (fun v began ended hc => ?_)
        fun v time hc => ?_ <;> split at hc <;> cases hc
      · exact h.clock
      · rename_i hlookup
        obtain ⟨payload, hpayload, hdecode⟩ := Option.bind_eq_some_iff.mp hlookup
        obtain ⟨deadline, hstore, hlt⟩ := getKey_eq_some_iff.mp hpayload
        rcases h.stored payload deadline hstore (h.clock.trans_lt hlt) with ⟨v', rfl, hsince⟩ | hunreadable
        · obtain rfl := Option.some.inj ((P.decode_encode r v').symm.trans hdecode)
          exact hsince
        · rw [hunreadable] at hdecode
          cases hdecode
    · cases hstep
  | answer i upstream =>
    simp only [State.step] at hstep
    split at hstep
    · rename_i r' began' hi
      split at hstep
      · cases hstep
        refine h.call rfl rfl (List.Subset.refl _) h.stored (fun began hc => ?_)
          (fun v began ended hc => ?_)
          fun v time hc => ?_ <;> cases hc
      · cases hstep
        refine h.call rfl rfl (List.subset_cons_self ..)
          (fun _ _ hk => h.stored_mono (List.subset_cons_self ..) hk)
          (fun began hc => ?_) (fun v began ended hc => ?_) fun v time hc => ?_
        · cases hc
        · cases hc
          exact ⟨h.fetching i _ hi, List.mem_cons_self⟩
        · cases hc
    · cases hstep
  | write i =>
    simp only [State.step] at hstep
    split at hstep
    · rename_i f hi
      cases hstep
      refine h.call rfl rfl (List.Subset.refl _) (fun payload deadline hk hlt => ?_) (fun began hc => ?_)
        (fun v began ended hc => ?_) fun v time hc => ?_
      · change setEx s.clock (P.key f.request) (P.encode f.request f.value) (P.ttl f.request) s.store
          (P.key r) = _
          at hk
        by_cases hkey : P.key r = P.key f.request
        · obtain ⟨r', v, began, ended⟩ := f
          obtain rfl : r = r' := P.key_injective hkey
          rw [setEx, Function.update_self] at hk
          cases hk
          obtain ⟨hbegan, hmem⟩ := h.storing i v began ended hi
          exact .inl ⟨v, rfl, began, ended, hbegan, hmem⟩
        · rw [setEx, Function.update_of_ne hkey] at hk
          exact h.stored payload deadline hk hlt
      · cases hc
      · cases hc
      · obtain ⟨r', v', began, ended⟩ := f
        cases hc
        obtain ⟨hbegan, hmem⟩ := h.storing i v' began _ hi
        exact ⟨began, _, hbegan, hmem⟩
    · cases hstep
  | fail i =>
    simp only [State.step] at hstep
    split at hstep
    case h_3 => cases hstep
    all_goals
      cases hstep
      refine h.call rfl rfl (List.Subset.refl _) h.stored (fun began hc => ?_) (fun v began ended hc => ?_)
        fun v time hc => ?_ <;> cases hc
  | delete k =>
    cases hstep
    refine ⟨h.clock, fun payload deadline hk hlt => ?_, h.fetching, h.storing, h.returned⟩
    change delete k s.store (P.key r) = _ at hk
    by_cases hkey : P.key r = k
    · rw [hkey, delete, Function.update_self] at hk
      cases hk
    · rw [delete, Function.update_of_ne hkey] at hk
      exact h.stored payload deadline hk hlt
  | put k payload ttl =>
    cases hstep
    refine ⟨h.clock, fun payload' deadline hk hlt => ?_, h.fetching, h.storing, h.returned⟩
    change setEx s.clock k payload ttl s.store (P.key r) = _ at hk
    by_cases hkey : P.key r = k
    · rw [hkey, setEx, Function.update_self] at hk
      cases hk
      exact .inr (hcond r hkey)
    · rw [setEx, Function.update_of_ne hkey] at hk
      exact h.stored payload' deadline hk hlt
  | wait n =>
    cases hstep
    have hle : s.clock ≤ s.clock + n := by omega
    exact ⟨h.clock.trans hle, h.stored, h.fetching, h.storing, h.returned⟩

end Step

/-! ## Runs -/

theorem initial_inv (P : Policy κ π ν) (clock : ℤ) : Inv P (initial clock : State κ π ι ν) where
  fetched := fun _ hf => absurd hf List.not_mem_nil
  written := fun _ _ hw => absurd hw List.not_mem_nil
  stored := by
    intro k payload deadline hk
    cases hk
  fetching := by
    intro i r began hi
    cases hi
  storing := by
    intro i f hi
    cases hi
  returned := by
    intro i r v time hi
    cases hi

variable [DecidableEq κ] [DecidableEq ι]

/-- A list of labels without another writer is a run. -/
theorem run_of_foldlM {P : Policy κ π ν} {s t : State κ π ι ν} (l : List (Label κ π ι ν))
    (hl : ∀ a ∈ l, ∀ k payload ttl, a ≠ .put k payload ttl)
    (h : l.foldlM (fun s a => State.step P s a) s = some t) :
    Run (fun s l t => State.step P s l = some t) (Unreadable P) s t := by
  induction l generalizing s with
  | nil =>
    cases h
    exact .refl
  | cons a l ih =>
    rw [List.foldlM_cons] at h
    obtain ⟨u, hu, hrest⟩ := Option.bind_eq_some_iff.mp h
    have hcond : Unreadable P s a := by
      cases a with
      | put k payload ttl => exact absurd rfl (hl _ List.mem_cons_self k payload ttl)
      | _ => trivial
    exact (Run.tail a .refl hcond hu).trans (ih (fun b hb => hl b (List.mem_cons_of_mem _ hb)) hrest)

/-- In every interleaving: what a call has returned is `Served`; and after a state in which a request
    is not cached and not being fetched, only what was fetched since is returned for it. -/
theorem served_of_run (P : Policy κ π ν) (clock : ℤ) {s t : State κ π ι ν}
    (hs : Run (fun s l t => State.step P s l = some t) (Unreadable P) (initial clock) s)
    (ht : Run (fun s l t => State.step P s l = some t) (Unreadable P) s t) :
    (∀ i r v time, t.calls i = .returned r v time → time ≤ t.clock ∧ t.Served P r v time) ∧
      ∀ r, Quiet P s r → ∀ i v time, t.calls i = .returned r v time →
        s.calls i = .returned r v time ∨ FetchedSince s.clock t r v := by
  have hinv := (hs.trans ht).invariant (initial_inv P clock) fun _ _ _ h hc hst => h.step hc hst
  refine ⟨hinv.returned, fun r hquiet => ?_⟩
  have hsince := ht.invariant hquiet.since fun _ _ _ h hc hst => h.step hc hst
  exact hsince.returned

end Nivara.ReadThrough
