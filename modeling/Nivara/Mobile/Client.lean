import Nivara.Lib.Transition

/-!
# The API client of the mobile app

The response interceptor of `api/client.ts` (lines 43-130). JavaScript runs what lies between
two `await`s in one piece, so that is one step of a handler of the interceptor; what it awaits
settles in any order.

* `doRefresh` and `onAuthFailure` are what `configureAuth` was given: how their promises
  settle comes with the step. Whether the one of `onAuthFailure` will be fulfilled comes with
  the call.
* Whether a config has `_retry` comes with its error.
* `settlements` is history: the calls of `resolve` and `reject` for a queued request.

Results:

* `drainWaiters_settlements`: every waiter is settled as often as it is in the queue.
* `client_orderly_of_run`: one refresh at a time, an empty queue between refreshes and every
  queued request settled once, as long as no 401 is queued behind the last `onAuthFailure` of
  a handler.
* `not_orderly_of_late_response`: one that is queued there can be left.
* `request_left_in_queue`: one that is, from the start.
-/

namespace Nivara.Mobile

open Transition

/-! ## Errors -/

/-- `RetriableConfig`, as far as the interceptor reads it. -/
structure RequestConfig where
  retry : Bool
  url : Option String
  deriving DecidableEq

structure AxiosError where
  config : Option RequestConfig
  /-- `error.response?.status`. -/
  status : Option ℕ
  deriving DecidableEq

/-- What a promise is rejected with. -/
inductive Rejection
  | axios (error : AxiosError)
  | error (message : String)
  | undefined
  deriving DecidableEq

/-- `text.includes(part)`. -/
def includes (text part : String) : Bool := decide (List.IsInfix part.toList text.toList)

/-- The interceptor hands the error on. -/
def AxiosError.handedOn (error : AxiosError) : Bool :=
  match error.config with
  | none => true
  | some original =>
    error.status ≠ some 401 || original.retry ||
      original.url.any fun url => url ≠ "" && includes url "/api/auth/refresh"

/-- A token that is neither `null` nor empty. -/
def truthy (token : Option String) : Option String := token.filter fun t => t ≠ ""

/-- `err ?? new Error('token refresh failed')`. -/
def Rejection.orRefreshFailed : Rejection → Rejection
  | .undefined => .error "token refresh failed"
  | err => err

/-! ## Handlers -/

/-- A call of the interceptor, by what it awaits. -/
inductive Handler
  | idle
  /-- Its promise is in the queue. -/
  | queued
  /-- `await doRefresh()`. -/
  | refreshing (error : AxiosError)
  /-- `await onAuthFailure()`, in the `try` or in the `catch`. -/
  | authFailure (reason : Rejection) (inCatch fulfils : Bool)
  /-- `return api.request(original)`. -/
  | replayed (token : String)
  | rejected (reason : Rejection)
  deriving DecidableEq

/-- A call for a queued request. -/
inductive Settlement
  | resolve (token : String)
  | reject (reason : Rejection)
  deriving DecidableEq

structure ClientState (ι : Type) where
  isRefreshing : Bool
  waiters : List ι
  handlers : ι → Handler
  settlements : ι → List Settlement

inductive ClientLabel (ι : Type)
  /-- A request fails, and the interceptor is called. -/
  | response (i : ι) (error : AxiosError)
  /-- `doRefresh()` is fulfilled. -/
  | refreshed (i : ι) (newToken : Option String) (fulfils : Bool)
  /-- `doRefresh()` is rejected. -/
  | refreshFailed (i : ι) (refreshErr : Rejection) (fulfils : Bool)
  /-- `onAuthFailure()` is fulfilled. -/
  | authFailureDone (i : ι)
  /-- `onAuthFailure()` is rejected. -/
  | authFailureFailed (i : ι) (refreshErr : Rejection) (fulfils : Bool)

variable {ι : Type}

namespace ClientState

section

variable [DecidableEq ι]

def goto (s : ClientState ι) (i : ι) (h : Handler) : ClientState ι :=
  { s with handlers := Function.update s.handlers i h }

/-- A call of `w.resolve` or `w.reject`. -/
def settle (s : ClientState ι) (w : ι) (settlement : Settlement) : ClientState ι :=
  { s with settlements := Function.update s.settlements w (s.settlements w ++ [settlement]) }

/-- `drainWaiters`. -/
def drainWaiters (s : ClientState ι) (token : Option String) (err : Rejection) : ClientState ι :=
  let pending := s.waiters
  let s := { s with waiters := [] }
  match truthy token with
  | some token => pending.foldl (fun s w => s.settle w (.resolve token)) s
  | none => pending.foldl (fun s w => s.settle w (.reject err.orRefreshFailed)) s

/-- One step of the system. -/
def step (s : ClientState ι) : ClientLabel ι → Option (ClientState ι)
  | .response i error =>
    match s.handlers i with
    | .idle =>
      if error.handedOn then some (s.goto i (.rejected (.axios error)))
      else if s.isRefreshing then some ({ s with waiters := s.waiters ++ [i] }.goto i .queued)
      else some ({ s with isRefreshing := true }.goto i (.refreshing error))
    | _ => none
  | .refreshed i newToken fulfils =>
    match s.handlers i with
    | .refreshing error =>
      match truthy newToken with
      | none => some ((s.drainWaiters none (.axios error)).goto i (.authFailure (.axios error) false fulfils))
      | some token =>
        some ({ s.drainWaiters (some token) .undefined with isRefreshing := false }.goto i (.replayed token))
    | _ => none
  | .refreshFailed i refreshErr fulfils =>
    match s.handlers i with
    | .refreshing _ =>
      some ((s.drainWaiters none refreshErr).goto i (.authFailure refreshErr true fulfils))
    | _ => none
  | .authFailureDone i =>
    match s.handlers i with
    | .authFailure reason _ true => some ({ s with isRefreshing := false }.goto i (.rejected reason))
    | _ => none
  | .authFailureFailed i refreshErr fulfils =>
    match s.handlers i with
    | .authFailure _ false false =>
      some ((s.drainWaiters none refreshErr).goto i (.authFailure refreshErr true fulfils))
    | .authFailure _ true false => some ({ s with isRefreshing := false }.goto i (.rejected refreshErr))
    | _ => none

end

/-- Before any request. -/
def initial : ClientState ι := ⟨false, [], fun _ => .idle, fun _ => []⟩

end ClientState

/-! ## What is to hold -/

/-- The handler has set `isRefreshing`, and will clear it. -/
def Handler.isActive : Handler → Bool
  | .refreshing _ => true
  | .authFailure .. => true
  | _ => false

/-- The handler awaits an `onAuthFailure` after which it drains the queue no more: the one of
    the `catch`, or one that will be fulfilled. -/
def Handler.endsHandling : Handler → Bool
  | .authFailure _ inCatch fulfils => inCatch || fulfils
  | _ => false

namespace ClientState

/-- One refresh at a time, an empty queue between refreshes, and a request that was queued
    waits for the refresh or was settled once. -/
structure Orderly (s : ClientState ι) : Prop where
  oneRefresh : ∀ i j e e', s.handlers i = .refreshing e → s.handlers j = .refreshing e' → i = j
  drained : s.isRefreshing = false → s.waiters = []
  settled : ∀ i, s.handlers i = .queued →
    (s.isRefreshing = true ∧ i ∈ s.waiters ∧ s.settlements i = []) ∨ ∃ o, s.settlements i = [o]

/-- The condition on a step: no 401 is queued while a handler awaits its last
    `onAuthFailure`. -/
def ArrivesInTime (s : ClientState ι) : ClientLabel ι → Prop
  | .response _ error => error.handedOn = false → ∀ j, (s.handlers j).endsHandling = false
  | _ => True

/-- The invariant of the interleaving. -/
structure Inv (s : ClientState ι) : Prop where
  active : ∀ i, (s.handlers i).isActive = true → s.isRefreshing = true
  unique : ∀ i j, (s.handlers i).isActive = true → (s.handlers j).isActive = true → i = j
  waiting : ∀ i ∈ s.waiters, s.handlers i = .queued ∧ s.settlements i = []
  nodup : s.waiters.Nodup
  settled : ∀ i, s.handlers i = .queued → i ∈ s.waiters ∨ ∃ o, s.settlements i = [o]
  idle : ∀ i, s.handlers i = .idle → s.settlements i = []
  free : s.isRefreshing = false → s.waiters = []
  ending : ∀ i, (s.handlers i).endsHandling = true → s.waiters = []

variable {s t : ClientState ι} {i : ι}

theorem Inv.orderly (h : s.Inv) : s.Orderly where
  oneRefresh := by
    intro i j e e' hi hj
    exact h.unique i j (by rw [hi]; rfl) (by rw [hj]; rfl)
  drained := h.free
  settled := by
    intro i hi
    rcases h.settled i hi with hmem | hsettled
    · refine .inl ⟨?_, hmem, (h.waiting i hmem).2⟩
      by_contra hfree
      rw [h.free (Bool.eq_false_iff.mpr hfree)] at hmem
      cases hmem
    · exact .inr hsettled

variable [DecidableEq ι]

/-! ## The queue -/

theorem foldl_settle (settlement : Settlement) (pending : List ι) (s : ClientState ι) :
    pending.foldl (fun s w => s.settle w settlement) s =
      { s with settlements := fun i => s.settlements i ++ List.replicate (pending.count i) settlement } := by
  induction pending generalizing s with
  | nil => simp
  | cons w pending ih =>
    rw [List.foldl_cons, ih]
    unfold settle
    congr 1
    funext i
    by_cases hi : i = w
    · subst hi
      simp [List.replicate_succ]
    · simp [Function.update_of_ne hi, List.count_cons_of_ne (Ne.symm hi)]

/-- The queue is empty, and every waiter is settled as often as it was in it. -/
theorem drainWaiters_settlements (s : ClientState ι) (token : Option String) (err : Rejection) :
    ∃ o, s.drainWaiters token err =
      { s with
        waiters := []
        settlements := fun i => s.settlements i ++ List.replicate (s.waiters.count i) o } := by
  unfold drainWaiters
  cases truthy token with
  | none => exact ⟨_, foldl_settle ..⟩
  | some token => exact ⟨_, foldl_settle ..⟩

/-- After a drain nobody waits, and who waited has been settled. -/
theorem Inv.drain (h : s.Inv) (token : Option String) (err : Rejection) :
    (s.drainWaiters token err).Inv ∧ (s.drainWaiters token err).waiters = [] ∧
      (s.drainWaiters token err).handlers = s.handlers ∧
      (s.drainWaiters token err).isRefreshing = s.isRefreshing := by
  obtain ⟨o, heq⟩ := s.drainWaiters_settlements token err
  rw [heq]
  refine ⟨⟨h.active, h.unique, ?_, List.nodup_nil, fun i hi => .inr ?_, fun i hi => ?_, fun _ => rfl,
    fun _ _ => rfl⟩, rfl, rfl, rfl⟩
  · intro i hi
    cases hi
  · simp only
    by_cases hmem : i ∈ s.waiters
    · rw [(h.waiting i hmem).2, List.count_eq_one_of_mem h.nodup hmem]
      exact ⟨o, rfl⟩
    · obtain ⟨o', ho'⟩ := (h.settled i hi).resolve_left hmem
      rw [List.count_eq_zero_of_not_mem hmem, ho']
      exact ⟨o', rfl⟩
  · have hmem : i ∉ s.waiters := fun hmem => by
      have hqueued := (h.waiting i hmem).1.symm.trans hi
      cases hqueued
    simp only
    rw [List.count_eq_zero_of_not_mem hmem, h.idle i hi]
    rfl

/-! ## Handlers -/

@[simp] theorem goto_handlers_self (s : ClientState ι) (i : ι) (h : Handler) : (s.goto i h).handlers i = h :=
  Function.update_self ..

theorem goto_handlers_of_ne (s : ClientState ι) {j : ι} (h : Handler) (hj : j ≠ i) :
    (s.goto i h).handlers j = s.handlers j := Function.update_of_ne hj ..

/-- What holds of a handler after a step in which another one has moved held before. -/
theorem handlers_of_goto {p : Handler → Prop} {new : Handler} {j : ι} (hj : p ((s.goto i new).handlers j))
    (hnew : ¬ p new) : j ≠ i ∧ p (s.handlers j) := by
  by_cases hne : j = i
  · rw [hne, goto_handlers_self] at hj
    exact absurd hj hnew
  · rw [goto_handlers_of_ne _ new hne] at hj
    exact ⟨hne, hj⟩

/-- A handler goes on; it was not in the queue, and will not be. The flag may change with it. -/
theorem Inv.goto (h : s.Inv) (i : ι) (new : Handler) (isRefreshing : Bool) (hi : s.handlers i ≠ .queued)
    (hqueued : new ≠ .queued) (hidle : new ≠ .idle)
    (hactive : ∀ j, (({ s with isRefreshing := isRefreshing }.goto i new).handlers j).isActive = true →
      isRefreshing = true)
    (hunique : ∀ j k, (({ s with isRefreshing := isRefreshing }.goto i new).handlers j).isActive = true →
      (({ s with isRefreshing := isRefreshing }.goto i new).handlers k).isActive = true → j = k)
    (hending : new.endsHandling = true → s.waiters = [])
    (hfree : isRefreshing = false → s.waiters = []) :
    ({ s with isRefreshing := isRefreshing }.goto i new).Inv where
  active := hactive
  unique := hunique
  waiting := by
    intro j hj
    have hne : j ≠ i := by
      rintro rfl
      exact hi (h.waiting j hj).1
    rw [goto_handlers_of_ne _ new hne]
    exact h.waiting j hj
  nodup := h.nodup
  settled := fun j hj => h.settled j (handlers_of_goto (p := fun new => new = .queued) hj hqueued).2
  idle := fun j hj => h.idle j (handlers_of_goto (p := fun new => new = .idle) hj hidle).2
  free := hfree
  ending := by
    intro j hj
    by_cases hne : j = i
    · rw [hne, goto_handlers_self] at hj
      exact hending hj
    · rw [goto_handlers_of_ne _ new hne] at hj
      exact h.ending j hj

/-- The active handler, after it has gone on. -/
theorem Inv.active_goto (h : s.Inv) (hi : (s.handlers i).isActive = true) {new : Handler} (isRefreshing : Bool)
    {j : ι} (hj : (({ s with isRefreshing := isRefreshing }.goto i new).handlers j).isActive = true) : j = i := by
  by_contra hne
  rw [goto_handlers_of_ne _ new hne] at hj
  exact hne (h.unique j i hj hi)

/-- The active handler goes on as the active one. -/
theorem Inv.stay (h : s.Inv) (hi : (s.handlers i).isActive = true) {new : Handler} (hnew : new.isActive = true)
    (hending : new.endsHandling = true → s.waiters = []) : (s.goto i new).Inv := by
  have hrefreshing := h.active i hi
  have hgoto := h.goto i new s.isRefreshing
    (fun heq => by rw [heq] at hi; cases hi) (fun heq => by rw [heq] at hnew; cases hnew)
    (fun heq => by rw [heq] at hnew; cases hnew) (fun _ _ => hrefreshing)
    (fun j k hj hk => (h.active_goto hi _ hj).trans (h.active_goto hi _ hk).symm) hending h.free
  exact hgoto

/-- The active handler clears the flag, with nobody in the queue. -/
theorem Inv.finish (h : s.Inv) (hi : (s.handlers i).isActive = true) {new : Handler}
    (hnew : new.isActive = false) (hqueued : new ≠ .queued) (hidle : new ≠ .idle) (hwaiters : s.waiters = []) :
    ({ s with isRefreshing := false }.goto i new).Inv := by
  refine h.goto i new false (fun heq => by rw [heq] at hi; cases hi) hqueued hidle (fun j hj => ?_)
    (fun j k hj hk => (h.active_goto hi _ hj).trans (h.active_goto hi _ hk).symm) (fun _ => hwaiters)
    fun _ => hwaiters
  have hji := h.active_goto hi _ hj
  rw [hji, goto_handlers_self, hnew] at hj
  cases hj

/-! ## One step -/

/-- A request that is not handled is rejected. -/
theorem Inv.handOn (h : s.Inv) (hi : s.handlers i = .idle) (reason : Rejection) :
    (s.goto i (.rejected reason)).Inv := by
  have hother : ∀ j, ((s.goto i (.rejected reason)).handlers j).isActive = true →
      (s.handlers j).isActive = true := fun j hj =>
    (handlers_of_goto (p := fun new => new.isActive = true) hj Bool.false_ne_true).2
  have hgoto := h.goto i (.rejected reason) s.isRefreshing (by rw [hi]; exact Handler.noConfusion)
    Handler.noConfusion Handler.noConfusion (fun j hj => h.active j (hother j hj))
    (fun j k hj hk => h.unique j k (hother j hj) (hother k hk)) (fun hending => by cases hending) h.free
  exact hgoto

/-- A request starts a refresh. -/
theorem Inv.refresh (h : s.Inv) (hi : s.handlers i = .idle) (hfree : s.isRefreshing = false)
    (error : AxiosError) : ({ s with isRefreshing := true }.goto i (.refreshing error)).Inv := by
  have hself : ∀ j, (({ s with isRefreshing := true }.goto i (.refreshing error)).handlers j).isActive = true →
      j = i := by
    intro j hj
    by_contra hne
    rw [goto_handlers_of_ne _ _ hne] at hj
    have hrefreshing := h.active j hj
    rw [hfree] at hrefreshing
    cases hrefreshing
  exact h.goto i (.refreshing error) true (by rw [hi]; exact Handler.noConfusion) Handler.noConfusion Handler.noConfusion
    (fun _ _ => rfl) (fun j k hj hk => (hself j hj).trans (hself k hk).symm)
    (fun hending => by cases hending) fun hflag => by cases hflag

/-- A request is queued: nobody awaits the last `onAuthFailure`, so someone will drain the
    queue. -/
theorem Inv.queue (h : s.Inv) (hi : s.handlers i = .idle) (hflag : s.isRefreshing = true)
    (hending : ∀ j, (s.handlers j).endsHandling = false) :
    ({ s with waiters := s.waiters ++ [i] }.goto i .queued).Inv where
  active := fun _ _ => hflag
  unique := by
    have hother : ∀ j, (({ s with waiters := s.waiters ++ [i] }.goto i .queued).handlers j).isActive = true →
        (s.handlers j).isActive = true := fun j hj =>
      (handlers_of_goto (p := fun new => new.isActive = true) hj Bool.false_ne_true).2
    exact fun j k hj hk => h.unique j k (hother j hj) (hother k hk)
  waiting := by
    intro j hj
    rcases List.mem_append.mp hj with hold | hnew
    · have hne : j ≠ i := by
        rintro rfl
        have heq := (h.waiting j hold).1.symm.trans hi
        cases heq
      rw [goto_handlers_of_ne _ _ hne]
      exact h.waiting j hold
    · rw [List.mem_singleton.mp hnew, goto_handlers_self]
      exact ⟨rfl, h.idle i hi⟩
  nodup := by
    have hmem : i ∉ s.waiters := fun hmem => by
      have heq := (h.waiting i hmem).1.symm.trans hi
      cases heq
    exact List.nodup_append.mpr ⟨h.nodup, List.nodup_singleton i, fun a ha b hb => by
      rintro rfl
      exact hmem (List.mem_singleton.mp hb ▸ ha)⟩
  settled := by
    intro j hj
    by_cases hne : j = i
    · exact .inl (List.mem_append_right _ (List.mem_singleton.mpr hne))
    · rw [goto_handlers_of_ne _ _ hne] at hj
      exact (h.settled j hj).imp (List.mem_append_left _) fun hsettled => hsettled
  idle := fun j hj => h.idle j (handlers_of_goto (p := fun new => new = .idle) hj Handler.noConfusion).2
  free := by
    intro hfree
    have hfree' : s.isRefreshing = false := hfree
    rw [hflag] at hfree'
    cases hfree'
  ending := by
    intro j hj
    have hbefore := (handlers_of_goto (p := fun new => new.endsHandling = true) hj Bool.false_ne_true).2
    rw [hending j] at hbefore
    cases hbefore

/-- One step keeps the invariant. -/
theorem Inv.step (h : s.Inv) {l : ClientLabel ι} (hcond : s.ArrivesInTime l) (hstep : s.step l = some t) :
    t.Inv := by
  unfold ClientState.step at hstep
  cases l with
  | response i error =>
    cases hi : s.handlers i with
    | idle =>
      simp only [hi] at hstep
      cases hon : error.handedOn with
      | true =>
        rw [hon, if_pos rfl] at hstep
        cases hstep
        exact h.handOn hi _
      | false =>
        rw [hon, if_neg Bool.false_ne_true] at hstep
        by_cases hflag : s.isRefreshing = true
        · rw [if_pos hflag] at hstep
          cases hstep
          exact h.queue hi hflag (hcond hon)
        · rw [if_neg hflag] at hstep
          cases hstep
          exact h.refresh hi (Bool.eq_false_iff.mpr hflag) error
    | _ =>
      simp only [hi] at hstep
      cases hstep
  | refreshed i newToken fulfils =>
    cases hi : s.handlers i with
    | refreshing error =>
      have hactive : (s.handlers i).isActive = true := by rw [hi]; rfl
      simp only [hi] at hstep
      cases hnew : truthy newToken with
      | none =>
        simp only [hnew] at hstep
        cases hstep
        obtain ⟨hinv, hwaiters, hhandlers, -⟩ := h.drain none (.axios error)
        exact hinv.stay (by rw [hhandlers]; exact hactive) rfl fun _ => hwaiters
      | some token =>
        simp only [hnew] at hstep
        cases hstep
        obtain ⟨hinv, hwaiters, hhandlers, -⟩ := h.drain (some token) .undefined
        exact hinv.finish (by rw [hhandlers]; exact hactive) rfl Handler.noConfusion Handler.noConfusion hwaiters
    | _ =>
      simp only [hi] at hstep
      cases hstep
  | refreshFailed i refreshErr fulfils =>
    cases hi : s.handlers i with
    | refreshing error =>
      have hactive : (s.handlers i).isActive = true := by rw [hi]; rfl
      simp only [hi] at hstep
      cases hstep
      obtain ⟨hinv, hwaiters, hhandlers, -⟩ := h.drain none refreshErr
      exact hinv.stay (by rw [hhandlers]; exact hactive) rfl fun _ => hwaiters
    | _ =>
      simp only [hi] at hstep
      cases hstep
  | authFailureDone i =>
    simp only at hstep
    split at hstep
    · rename_i reason inCatch hi
      cases hstep
      have hactive : (s.handlers i).isActive = true := by rw [hi]; rfl
      have hwaiters := h.ending i (by rw [hi]; exact Bool.or_true inCatch)
      exact h.finish hactive rfl Handler.noConfusion Handler.noConfusion hwaiters
    · cases hstep
  | authFailureFailed i refreshErr fulfils =>
    simp only at hstep
    split at hstep
    · rename_i reason hi
      cases hstep
      have hactive : (s.handlers i).isActive = true := by rw [hi]; rfl
      obtain ⟨hinv, hwaiters, hhandlers, -⟩ := h.drain none refreshErr
      exact hinv.stay (by rw [hhandlers]; exact hactive) rfl fun _ => hwaiters
    · rename_i reason hi
      cases hstep
      have hactive : (s.handlers i).isActive = true := by rw [hi]; rfl
      have hwaiters := h.ending i (by rw [hi]; rfl)
      exact h.finish hactive rfl Handler.noConfusion Handler.noConfusion hwaiters
    · cases hstep

end ClientState

/-! ## Runs -/

theorem ClientState.initial_inv : (ClientState.initial : ClientState ι).Inv where
  active := by intro i hi; cases hi
  unique := by intro i j hi; cases hi
  waiting := by intro i hi; cases hi
  nodup := List.nodup_nil
  settled := by intro i hi; cases hi
  idle := fun _ _ => rfl
  free := fun _ => rfl
  ending := fun _ _ => rfl

variable [DecidableEq ι]

/-- In every interleaving of failing requests, refreshes and calls of `onAuthFailure` in which
    no 401 is queued while a handler awaits its last `onAuthFailure`. -/
theorem client_orderly_of_run (s : ClientState ι)
    (hrun : Run (fun s l t => ClientState.step s l = some t) ClientState.ArrivesInTime ClientState.initial s) :
    s.Orderly :=
  (hrun.invariant ClientState.initial_inv fun _ _ _ h hcond hstep => h.step hcond hstep).orderly

/-- The handling that a 401 comes too late for can end with the request in the queue. -/
theorem ClientState.Inv.late {s t : ClientState ι} (h : s.Inv) {i : ι} {error : AxiosError}
    (hcond : ¬ s.ArrivesInTime (.response i error)) (hstep : s.step (.response i error) = some t) :
    ∃ l u, t.step l = some u ∧ ¬ u.Orderly := by
  unfold ClientState.ArrivesInTime at hcond
  push Not at hcond
  obtain ⟨hon, j, hj⟩ := hcond
  obtain ⟨reason, inCatch, fulfils, hhandler⟩ : ∃ reason inCatch fulfils,
      s.handlers j = .authFailure reason inCatch fulfils := by
    cases hh : s.handlers j with
    | authFailure reason inCatch fulfils => exact ⟨_, _, _, rfl⟩
    | _ => simp [hh, Handler.endsHandling] at hj
  have hflag : s.isRefreshing = true := h.active j (by rw [hhandler]; rfl)
  -- the request is queued
  have hqueue : s.handlers i = .idle ∧ t = { s with waiters := s.waiters ++ [i] }.goto i .queued := by
    cases hi : s.handlers i with
    | idle =>
      simp only [ClientState.step, hi] at hstep
      rw [hon, if_neg Bool.false_ne_true, if_pos hflag] at hstep
      exact ⟨rfl, (Option.some.inj hstep).symm⟩
    | _ =>
      simp only [ClientState.step, hi] at hstep
      cases hstep
  obtain ⟨hidle, ht⟩ := hqueue
  have hji : j ≠ i := by
    rintro rfl
    rw [hidle] at hhandler
    cases hhandler
  have hother : t.handlers j = .authFailure reason inCatch fulfils := by
    rw [ht, ClientState.goto_handlers_of_ne _ _ hji]
    exact hhandler
  have hwaiters : t.waiters = s.waiters ++ [i] := by rw [ht]; rfl
  -- the handler clears the flag
  have hleft : ∀ new : Handler, ¬ ({ t with isRefreshing := false }.goto j new).Orderly := by
    intro new horderly
    have hempty : t.waiters = [] := horderly.drained rfl
    rw [hwaiters] at hempty
    exact List.append_ne_nil_of_right_ne_nil _ (List.cons_ne_nil i []) hempty
  cases hfulfils : fulfils with
  | true =>
    refine ⟨.authFailureDone j, _, ?_, hleft (.rejected reason)⟩
    simp only [ClientState.step, hother, hfulfils]
  | false =>
    have hcatch : inCatch = true := by
      simpa [hhandler, Handler.endsHandling, hfulfils] using hj
    refine ⟨.authFailureFailed j reason false, _, ?_, hleft (.rejected reason)⟩
    simp only [ClientState.step, hother, hfulfils, hcatch]

/-- The first step that does not meet the condition can end with a request in the queue. -/
theorem not_orderly_of_late_response {s t : ClientState ι} {i : ι} {error : AxiosError}
    (hrun : Run (fun s l t => ClientState.step s l = some t) ClientState.ArrivesInTime ClientState.initial s)
    (hcond : ¬ s.ArrivesInTime (.response i error)) (hstep : s.step (.response i error) = some t) :
    ∃ l u, t.step l = some u ∧ ¬ u.Orderly :=
  (hrun.invariant ClientState.initial_inv fun _ _ _ h hcond hstep => h.step hcond hstep).late hcond hstep

instance [Fintype ι] (s : ClientState ι) : (l : ClientLabel ι) → Decidable (s.ArrivesInTime l)
  | .response _ error =>
    decidable_of_iff (error.handedOn = false → ∀ j, (s.handlers j).endsHandling = false) Iff.rfl
  | .refreshed .. | .refreshFailed .. | .authFailureDone _ | .authFailureFailed .. => isTrue trivial

/-- A 401 of a request that has not been retried. -/
def expired : AxiosError := ⟨some ⟨false, some "/api/portfolio/summary"⟩, some 401⟩

/-- Two requests are queued behind a refresh and replayed; a third one finds that the refresh
    token is gone, with one queued behind it, and its `onAuthFailure` fails once. -/
def failingRequests : List (ClientLabel (Fin 6)) :=
  [.response 0 expired, .response 1 expired, .response 2 expired, .refreshed 0 (some "token") true,
    .response 3 expired, .response 4 expired, .refreshed 3 none false, .response 5 expired,
    .authFailureFailed 3 .undefined true, .authFailureDone 3]

theorem client_orderly_of_run_sample :
    ∃ s, failingRequests.foldlM (fun (s : ClientState (Fin 6)) l =>
        if s.ArrivesInTime l then s.step l else none) ClientState.initial = some s ∧ s.Orderly := by
  obtain ⟨s, hs⟩ := Option.isSome_iff_exists.mp (show (failingRequests.foldlM
    (fun (s : ClientState (Fin 6)) l => if s.ArrivesInTime l then s.step l else none)
      ClientState.initial).isSome by decide +kernel)
  exact ⟨s, hs, client_orderly_of_run s (Run.of_foldlM_guarded _ hs)⟩

/-- The refresh fails; while the handler waits for the sign-out another request gets a 401. -/
def lateRequest : List (ClientLabel (Fin 2)) :=
  [.response 0 expired, .refreshed 0 none true, .response 1 expired, .authFailureDone 0]

/-- It is left in the queue. -/
theorem request_left_in_queue :
    ¬ ∀ s : ClientState (Fin 2),
      Run (fun s l t => ClientState.step s l = some t) Unconditional ClientState.initial s → s.Orderly := by
  intro h
  obtain ⟨s, hs, hwaiters⟩ := Option.map_eq_some_iff.mp (show (lateRequest.foldlM ClientState.step
    ClientState.initial).map (fun s => (s.isRefreshing, s.waiters)) = some (false, [1]) by decide +kernel)
  obtain ⟨hfree, hqueue⟩ := Prod.mk.inj hwaiters
  have hdrained := (h s (Run.of_foldlM _ hs)).drained hfree
  rw [hqueue] at hdrained
  cases hdrained

end Nivara.Mobile
