import Nivara.Mobile.Client

/-!
# The auth store of the mobile app

`hydrate`, `refresh` and `signOut` of `store/auth.ts` (lines 71-102 and 155-191), in any
number and interleaved at their `await`s.

* An operation of `SecureStore` takes effect, or fails, between its call and the point where
  the caller goes on: `perform` is its effect, `resume` the rest of the caller up to the next
  `await`.
* What the backend answers comes with the step.
* `hydrate` and `refresh` share their path from the request on, with `kind` for the
  differences.

Results:

* `signedOut_of_run`: when every call has ended and one was a `signOut`, no token is stored and
  the state is signed out, as long as nothing is saved or published behind the last `signOut`,
  and its deletion and the load of a `hydrate` behind it do not fail.
* `refresh_signs_in_again`: a refresh whose answer comes after the sign-out.
-/

namespace Nivara.Mobile

open Transition

/-! ## Model -/

structure TokenPair where
  accessToken : String
  refreshToken : String
  deriving DecidableEq

structure UserPublic where
  id : String
  email : String
  fullName : Option String
  locale : Option String
  deriving DecidableEq

/-- `Status`. -/
inductive AuthStatus
  | idle
  | hydrating
  | authenticated
  | unauthenticated
  deriving DecidableEq

/-- Who asks for a new pair. -/
inductive RefreshKind
  | hydrate
  | refresh
  deriving DecidableEq

/-- A call, by what it awaits. -/
inductive AuthCall
  | idle
  /-- `hydrate`: `getItemAsync`. -/
  | load
  | loaded (stored : Option String)
  /-- `POST /api/auth/refresh`. -/
  | post (kind : RefreshKind) (refreshToken : String)
  /-- `setItemAsync` of the new refresh token. -/
  | save (kind : RefreshKind) (pair : TokenPair)
  | saved (kind : RefreshKind) (pair : TokenPair)
  /-- `hydrate`: `GET /api/auth/me`. -/
  | fetchUser
  /-- `deleteItemAsync` in the `catch`. -/
  | drop (kind : RefreshKind)
  | dropped (kind : RefreshKind)
  /-- `signOut`: `POST /api/auth/logout`. -/
  | logout (refreshToken : String)
  /-- `signOut`: `deleteItemAsync`. -/
  | delete
  | deleted
  | done
  /-- `hydrate` or `refresh` has raised. -/
  | failed
  | signedOut
  /-- `signOut` has raised. -/
  | signOutFailed
  deriving DecidableEq

structure AuthStore (ι : Type) where
  /-- The refresh token in the secure store. -/
  stored : Option String
  status : AuthStatus
  accessToken : Option String
  refreshToken : Option String
  user : Option UserPublic
  calls : ι → AuthCall

inductive AuthLabel (ι : Type)
  | hydrate (i : ι)
  | refresh (i : ι)
  | signOut (i : ι)
  /-- The operation of `SecureStore` takes effect, or fails. -/
  | perform (i : ι) (fails : Bool)
  /-- The caller goes on after it. -/
  | resume (i : ι)
  /-- `/api/auth/refresh` answers with a pair, or the request fails. -/
  | respond (i : ι) (pair : Option TokenPair)
  /-- `/api/auth/logout` answers, or the request fails. -/
  | respondLogout (i : ι)
  /-- `/api/auth/me` answers with the user, or the request fails. -/
  | respondUser (i : ι) (user : Option UserPublic)

variable {ι : Type}

namespace AuthStore

section

variable [DecidableEq ι]

def goto (s : AuthStore ι) (i : ι) (c : AuthCall) : AuthStore ι :=
  { s with calls := Function.update s.calls i c }

/-- `set` of a signed out state. -/
def clear (s : AuthStore ι) : AuthStore ι :=
  { s with accessToken := none, refreshToken := none, user := none, status := .unauthenticated }

/-- The effect of an operation of `SecureStore`. -/
def perform (s : AuthStore ι) (i : ι) (fails : Bool) : AuthCall → Option (AuthStore ι)
  | .load => some (s.goto i (if fails then .failed else .loaded s.stored))
  | .save kind pair =>
    if fails then some (s.goto i (.drop kind))
    else some ({ s with stored := truthy (some pair.refreshToken) }.goto i (.saved kind pair))
  | .drop kind =>
    if fails then some (s.goto i .failed) else some ({ s with stored := none }.goto i (.dropped kind))
  | .delete =>
    if fails then some (s.goto i .signOutFailed) else some ({ s with stored := none }.goto i .deleted)
  | _ => none

/-- What follows it. -/
def resume (s : AuthStore ι) (i : ι) : AuthCall → Option (AuthStore ι)
  | .loaded stored =>
    match truthy stored with
    | none => some ({ s with status := .unauthenticated }.goto i .done)
    | some token => some (s.goto i (.post .hydrate token))
  | .saved .hydrate pair =>
    some ({ s with
      accessToken := some pair.accessToken
      refreshToken := some pair.refreshToken
      status := .authenticated }.goto i .fetchUser)
  | .saved .refresh pair =>
    some ({ s with accessToken := some pair.accessToken, refreshToken := some pair.refreshToken }.goto i .done)
  | .dropped _ => some (s.clear.goto i .done)
  | .deleted => some (s.clear.goto i .signedOut)
  | _ => none

/-- One step of the system. -/
def step (s : AuthStore ι) : AuthLabel ι → Option (AuthStore ι)
  | .hydrate i =>
    match s.calls i with
    | .idle => some ({ s with status := .hydrating }.goto i .load)
    | _ => none
  | .refresh i =>
    match s.calls i with
    | .idle =>
      match truthy s.refreshToken with
      | none => some (s.goto i .done)
      | some token => some (s.goto i (.post .refresh token))
    | _ => none
  | .signOut i =>
    match s.calls i with
    | .idle =>
      match truthy s.refreshToken with
      | none => some (s.goto i .delete)
      | some token => some (s.goto i (.logout token))
    | _ => none
  | .perform i fails => s.perform i fails (s.calls i)
  | .resume i => s.resume i (s.calls i)
  | .respond i pair =>
    match s.calls i with
    | .post kind _ =>
      match pair with
      | some pair => some (s.goto i (.save kind pair))
      | none => some (s.goto i (.drop kind))
    | _ => none
  | .respondLogout i =>
    match s.calls i with
    | .logout _ => some (s.goto i .delete)
    | _ => none
  | .respondUser i user =>
    match s.calls i with
    | .fetchUser => some ({ s with user := user.or s.user }.goto i .done)
    | _ => none

end

/-- No call has been made; what is stored and published is left from before. -/
def initial (stored : Option String) (status : AuthStatus) (accessToken refreshToken : Option String)
    (user : Option UserPublic) : AuthStore ι :=
  ⟨stored, status, accessToken, refreshToken, user, fun _ => .idle⟩

end AuthStore

/-! ## How far a call is -/

/-- A `signOut` that has yet to delete the token. -/
def AuthCall.deletes : AuthCall → Bool
  | .logout _ => true
  | .delete => true
  | _ => false

/-- A `signOut` that has deleted it. -/
def AuthCall.hasDeleted : AuthCall → Bool
  | .deleted => true
  | .signedOut => true
  | _ => false

/-- A `signOut` that has yet to clear the state. -/
def AuthCall.clears : AuthCall → Bool
  | .logout _ => true
  | .delete => true
  | .deleted => true
  | _ => false

/-- A `signOut` that has cleared it. -/
def AuthCall.hasCleared : AuthCall → Bool
  | .signedOut => true
  | _ => false

/-- A call of `signOut`. -/
def AuthCall.isSignOut : AuthCall → Bool
  | .logout _ => true
  | .delete => true
  | .deleted => true
  | .signedOut => true
  | .signOutFailed => true
  | _ => false

/-- A `hydrate` that finds no token, or has yet to look for one. -/
def AuthCall.findsNone : AuthCall → Bool
  | .load => true
  | .loaded stored => (truthy stored).isNone
  | _ => false

/-- The call has ended, or was never made. -/
def AuthCall.isEnd : AuthCall → Bool
  | .idle => true
  | .done => true
  | .failed => true
  | .signedOut => true
  | .signOutFailed => true
  | _ => false

/-- Both points lie on the same side of everything that a `signOut` does. -/
structure AuthCall.SameSide (c c' : AuthCall) : Prop where
  deletes : c'.deletes = c.deletes
  hasDeleted : c'.hasDeleted = c.hasDeleted
  clears : c'.clears = c.clears
  hasCleared : c'.hasCleared = c.hasCleared
  isSignOut : c'.isSignOut = c.isSignOut

namespace AuthStore

/-- Some call is that far. -/
def HasCall (s : AuthStore ι) (p : AuthCall → Bool) : Prop := ∃ i, p (s.calls i) = true

/-- Everything that `signOut` was to delete and to clear is deleted and cleared. -/
structure SignedOut (s : AuthStore ι) : Prop where
  stored : s.stored = none
  status : s.status = .unauthenticated
  accessToken : s.accessToken = none
  refreshToken : s.refreshToken = none

/-- The condition on a step: behind the last `signOut` that has deleted the token none is saved,
    behind the last one that has cleared the state no pair is published and no `hydrate` is
    left without its token, and the deletion of the last one does not fail. -/
def KeepsSignedOut (s : AuthStore ι) : AuthLabel ι → Prop
  | .perform i fails =>
    match s.calls i with
    | .save .. => fails = true ∨ s.HasCall AuthCall.deletes ∨ ¬ s.HasCall AuthCall.hasDeleted
    | .delete => fails = false ∨ ∃ j, j ≠ i ∧ (s.calls j).deletes = true
    | .load => fails = false ∨ s.HasCall AuthCall.clears ∨ ¬ s.HasCall AuthCall.hasCleared ∨ s.status ≠ .hydrating
    | _ => True
  | .resume i =>
    match s.calls i with
    | .saved .. => s.HasCall AuthCall.clears ∨ ¬ s.HasCall AuthCall.hasCleared
    | _ => True
  | _ => True

/-- The invariant of the interleaving. -/
structure Inv (s : AuthStore ι) : Prop where
  stored : s.HasCall AuthCall.hasDeleted → ¬ s.HasCall AuthCall.deletes → s.stored = none
  tokens : s.HasCall AuthCall.hasCleared → ¬ s.HasCall AuthCall.clears → s.accessToken = none ∧ s.refreshToken = none
  status : s.HasCall AuthCall.hasCleared → ¬ s.HasCall AuthCall.clears →
    s.status = .unauthenticated ∨ (s.status = .hydrating ∧ s.HasCall AuthCall.findsNone)
  called : s.HasCall AuthCall.isSignOut → s.HasCall AuthCall.clears ∨ s.HasCall AuthCall.hasCleared

variable {s t : AuthStore ι}

theorem HasCall.mono {p q : AuthCall → Bool} (h : s.HasCall p) (hpq : ∀ c, p c = true → q c = true) : s.HasCall q :=
  h.elim fun i hi => ⟨i, hpq _ hi⟩

/-- When the state is cleared, the token has been deleted. -/
theorem stored_of_cleared (h : s.Inv) (hcleared : s.HasCall AuthCall.hasCleared) (hclears : ¬ s.HasCall AuthCall.clears) :
    s.stored = none := by
  refine h.stored (hcleared.mono fun c hc => ?_) fun hdeletes => hclears (hdeletes.mono fun c hc => ?_)
  · cases c <;> first | rfl | cases hc
  · cases c <;> first | rfl | cases hc

/-- What the invariant says when every call has ended. -/
theorem Inv.signedOut (h : s.Inv) (hend : ∀ i, (s.calls i).isEnd = true) (hcalled : s.HasCall AuthCall.isSignOut) :
    s.SignedOut := by
  have hnone : ∀ p : AuthCall → Bool, (∀ c, p c = true → c.isEnd = false) → ¬ s.HasCall p := by
    rintro p hp ⟨i, hi⟩
    have hnot := hp _ hi
    rw [hend i] at hnot
    cases hnot
  have hclears : ¬ s.HasCall AuthCall.clears := hnone _ fun c hc => by cases c <;> first | rfl | cases hc
  have hcleared := (h.called hcalled).resolve_left hclears
  obtain ⟨haccess, hrefresh⟩ := h.tokens hcleared hclears
  refine ⟨stored_of_cleared h hcleared hclears, ?_, haccess, hrefresh⟩
  rcases h.status hcleared hclears with hstatus | ⟨-, hfinds⟩
  · exact hstatus
  · exact absurd hfinds (hnone _ fun c hc => by cases c <;> first | rfl | cases hc)

/-! ## Steps -/

variable [DecidableEq ι] {i : ι} {c c' : AuthCall}

/-- What each step does to the store, and the call that it takes. -/
inductive Effect (s : AuthStore ι) : AuthLabel ι → AuthStore ι → Prop
  | hydrate {i : ι} (hi : s.calls i = .idle) :
    Effect s (.hydrate i) ({ s with status := .hydrating }.goto i .load)
  | noToken {i : ι} (hi : s.calls i = .idle) : Effect s (.refresh i) (s.goto i .done)
  | refresh {i : ι} (token : String) (hi : s.calls i = .idle) :
    Effect s (.refresh i) (s.goto i (.post .refresh token))
  | delete {i : ι} (hi : s.calls i = .idle) : Effect s (.signOut i) (s.goto i .delete)
  | logout {i : ι} (token : String) (hi : s.calls i = .idle) : Effect s (.signOut i) (s.goto i (.logout token))
  | perform {i : ι} {fails : Bool} {t : AuthStore ι} (h : s.perform i fails (s.calls i) = some t) :
    Effect s (.perform i fails) t
  | resume {i : ι} {t : AuthStore ι} (h : s.resume i (s.calls i) = some t) : Effect s (.resume i) t
  | answered {i : ι} {kind : RefreshKind} {token : String} (pair : TokenPair) (hi : s.calls i = .post kind token) :
    Effect s (.respond i (some pair)) (s.goto i (.save kind pair))
  | refused {i : ι} {kind : RefreshKind} {token : String} (hi : s.calls i = .post kind token) :
    Effect s (.respond i none) (s.goto i (.drop kind))
  | loggedOut {i : ι} {token : String} (hi : s.calls i = .logout token) :
    Effect s (.respondLogout i) (s.goto i .delete)
  | fetched {i : ι} (user : Option UserPublic) (hi : s.calls i = .fetchUser) :
    Effect s (.respondUser i user) ({ s with user := user.or s.user }.goto i .done)

theorem effect_of_step {l : AuthLabel ι} (hstep : s.step l = some t) : s.Effect l t := by
  cases l with
  | perform i fails => exact .perform hstep
  | resume i => exact .resume hstep
  | hydrate i =>
    simp only [AuthStore.step] at hstep
    split at hstep
    · next hi =>
      cases hstep
      exact .hydrate hi
    · cases hstep
  | refresh i =>
    simp only [AuthStore.step] at hstep
    split at hstep
    · next hi =>
      split at hstep
      · cases hstep
        exact .noToken hi
      · next token _ =>
        cases hstep
        exact .refresh token hi
    · cases hstep
  | signOut i =>
    simp only [AuthStore.step] at hstep
    split at hstep
    · next hi =>
      split at hstep
      · cases hstep
        exact .delete hi
      · next token _ =>
        cases hstep
        exact .logout token hi
    · cases hstep
  | respond i pair =>
    simp only [AuthStore.step] at hstep
    split at hstep
    · next hi =>
      cases pair with
      | some pair =>
        cases hstep
        exact .answered pair hi
      | none =>
        cases hstep
        exact .refused hi
    · cases hstep
  | respondLogout i =>
    simp only [AuthStore.step] at hstep
    split at hstep
    · next hi =>
      cases hstep
      exact .loggedOut hi
    · cases hstep
  | respondUser i user =>
    simp only [AuthStore.step] at hstep
    split at hstep
    · next hi =>
      cases hstep
      exact .fetched user hi
    · cases hstep

/-- A call moves within a range, or out of it: the others are where they were. -/
theorem hasCall_update {p : AuthCall → Bool} (hi : s.calls i = c)
    (hcalls : t.calls = Function.update s.calls i c') (hp : p c' = p c) : t.HasCall p ↔ s.HasCall p := by
  unfold HasCall
  refine exists_congr fun j => ?_
  rw [hcalls]
  by_cases hj : j = i
  · rw [hj, Function.update_self, hi, hp]
  · rw [Function.update_of_ne hj]

theorem HasCall.update {p : AuthCall → Bool} (h : s.HasCall p) (hi : s.calls i = c)
    (hcalls : t.calls = Function.update s.calls i c') (hp : p c = true → p c' = true) : t.HasCall p := by
  obtain ⟨j, hj⟩ := h
  refine ⟨j, ?_⟩
  rw [hcalls]
  by_cases hji : j = i
  · rw [hji, hi] at hj
    rw [hji, Function.update_self]
    exact hp hj
  · rwa [Function.update_of_ne hji]

/-- The call that has moved. -/
theorem hasCall_goto (s : AuthStore ι) (i : ι) {p : AuthCall → Bool} (hp : p c' = true) : (s.goto i c').HasCall p :=
  ⟨i, by rw [show (s.goto i c').calls i = c' from Function.update_self ..]; exact hp⟩

/-- A step that crosses nothing that a `signOut` does. -/
theorem Inv.keep (h : s.Inv) (hi : s.calls i = c) (hcalls : t.calls = Function.update s.calls i c')
    (hside : c.SameSide c')
    (hstored : s.HasCall AuthCall.hasDeleted → ¬ s.HasCall AuthCall.deletes → t.stored = none)
    (hcleared : s.HasCall AuthCall.hasCleared → ¬ s.HasCall AuthCall.clears →
      (t.accessToken = none ∧ t.refreshToken = none) ∧
        (t.status = .unauthenticated ∨ (t.status = .hydrating ∧ t.HasCall AuthCall.findsNone))) : t.Inv where
  stored := by
    rw [hasCall_update hi hcalls hside.hasDeleted, hasCall_update hi hcalls hside.deletes]
    exact hstored
  tokens := by
    rw [hasCall_update hi hcalls hside.hasCleared, hasCall_update hi hcalls hside.clears]
    exact fun hdone hnone => (hcleared hdone hnone).1
  status := by
    rw [hasCall_update hi hcalls hside.hasCleared, hasCall_update hi hcalls hside.clears]
    exact fun hdone hnone => (hcleared hdone hnone).2
  called := by
    rw [hasCall_update hi hcalls hside.isSignOut, hasCall_update hi hcalls hside.clears,
      hasCall_update hi hcalls hside.hasCleared]
    exact h.called

/-- A step that changes nothing but the call and what is stored. -/
theorem Inv.store (h : s.Inv) (hi : s.calls i = c) (c' : AuthCall) (hside : c.SameSide c') {stored : Option String}
    (hstored : s.HasCall AuthCall.hasDeleted → ¬ s.HasCall AuthCall.deletes → stored = none)
    (hfinds : c.findsNone = true → s.HasCall AuthCall.hasCleared → ¬ s.HasCall AuthCall.clears →
      s.status = .hydrating → c'.findsNone = true) : ({ s with stored := stored }.goto i c').Inv := by
  refine h.keep hi rfl hside hstored fun hdone hnone => ⟨h.tokens hdone hnone, ?_⟩
  rcases h.status hdone hnone with hstatus | ⟨hstatus, hcall⟩
  · exact .inl hstatus
  · exact .inr ⟨hstatus, hcall.update hi rfl fun hc => hfinds hc hdone hnone hstatus⟩

/-- A step that changes nothing but the call. -/
theorem Inv.move (h : s.Inv) (hi : s.calls i = c) (hside : c.SameSide c')
    (hfinds : c.findsNone = true → s.HasCall AuthCall.hasCleared → ¬ s.HasCall AuthCall.clears →
      s.status = .hydrating → c'.findsNone = true) : (s.goto i c').Inv :=
  h.store hi c' hside h.stored hfinds

omit [DecidableEq ι] in
/-- The user does not matter to the invariant. -/
theorem Inv.setUser (h : s.Inv) (user : Option UserPublic) : AuthStore.Inv { s with user := user } :=
  ⟨h.stored, h.tokens, h.status, h.called⟩

omit [DecidableEq ι] in
/-- A step after which a `signOut` has yet to clear the state. -/
theorem Inv.clearing (hstored : t.HasCall AuthCall.hasDeleted → ¬ t.HasCall AuthCall.deletes → t.stored = none)
    (hclears : t.HasCall AuthCall.clears) : t.Inv where
  stored := hstored
  tokens := fun _ hnone => absurd hclears hnone
  status := fun _ hnone => absurd hclears hnone
  called := fun _ => .inl hclears

theorem clears_of_deletes (h : c.deletes = true) : c.clears = true := by
  cases c <;> first | rfl | cases h

/-- An operation of `SecureStore` takes effect, or fails. -/
theorem Inv.perform (h : s.Inv) {fails : Bool} (hcond : s.KeepsSignedOut (.perform i fails))
    (hi : s.calls i = c) (hstep : s.perform i fails c = some t) : t.Inv := by
  unfold AuthStore.perform at hstep
  simp only [KeepsSignedOut, hi] at hcond
  cases c with
  | load =>
    cases hstep
    cases fails with
    | true =>
      refine h.move hi ⟨rfl, rfl, rfl, rfl, rfl⟩ fun _ hdone hnone hstatus => ?_
      rcases hcond with hfails | hclears | hcleared | hother
      · cases hfails
      · exact absurd hclears hnone
      · exact absurd hdone hcleared
      · exact absurd hstatus hother
    | false =>
      refine h.move hi ⟨rfl, rfl, rfl, rfl, rfl⟩ fun _ hdone hnone _ => ?_
      -- the token is deleted, so the load finds none
      show (truthy s.stored).isNone = true
      rw [stored_of_cleared h hdone hnone]
      rfl
  | save kind pair =>
    cases fails with
    | true =>
      cases hstep
      exact h.move hi ⟨rfl, rfl, rfl, rfl, rfl⟩ fun hfinds => by cases hfinds
    | false =>
      cases hstep
      refine h.store hi (.saved kind pair) ⟨rfl, rfl, rfl, rfl, rfl⟩ (fun hdeleted hnone => ?_) fun hfinds => by cases hfinds
      rcases hcond with hfails | hdeletes | hnot
      · cases hfails
      · exact absurd hdeletes hnone
      · exact absurd hdeleted hnot
  | drop kind =>
    cases fails with
    | true =>
      cases hstep
      exact h.move hi ⟨rfl, rfl, rfl, rfl, rfl⟩ fun hfinds => by cases hfinds
    | false =>
      cases hstep
      exact h.store hi (.dropped kind) ⟨rfl, rfl, rfl, rfl, rfl⟩ (fun _ _ => rfl) fun hfinds => by cases hfinds
  | delete =>
    cases fails with
    | true =>
      cases hstep
      -- another `signOut` has yet to delete the token
      obtain ⟨j, hji, hj⟩ := hcond.resolve_left Bool.noConfusion
      have hdeletes : (s.goto i .signOutFailed).HasCall AuthCall.deletes :=
        ⟨j, by rw [show (s.goto i .signOutFailed).calls j = s.calls j from Function.update_of_ne hji ..]; exact hj⟩
      exact .clearing (fun _ hnone => absurd hdeletes hnone) (hdeletes.mono fun _ => clears_of_deletes)
    | false =>
      cases hstep
      exact .clearing (fun _ _ => rfl) (hasCall_goto _ i rfl)
  | _ => cases hstep

/-- A caller goes on after an operation of `SecureStore`. -/
theorem Inv.resume (h : s.Inv) (hcond : s.KeepsSignedOut (.resume i)) (hi : s.calls i = c)
    (hstep : s.resume i c = some t) : t.Inv := by
  unfold AuthStore.resume at hstep
  simp only [KeepsSignedOut, hi] at hcond
  cases c with
  | loaded stored =>
    simp only at hstep
    cases hstored : truthy stored with
    | none =>
      simp only [hstored] at hstep
      cases hstep
      exact h.keep hi rfl ⟨rfl, rfl, rfl, rfl, rfl⟩ h.stored fun hdone hnone => ⟨h.tokens hdone hnone, .inl rfl⟩
    | some token =>
      simp only [hstored] at hstep
      cases hstep
      refine h.move hi ⟨rfl, rfl, rfl, rfl, rfl⟩ fun hfinds => ?_
      simp only [AuthCall.findsNone, hstored] at hfinds
      cases hfinds
  | saved kind pair =>
    have hcleared : ∀ (u : AuthStore ι), s.HasCall AuthCall.hasCleared → ¬ s.HasCall AuthCall.clears →
        (u.accessToken = none ∧ u.refreshToken = none) ∧
          (u.status = .unauthenticated ∨ (u.status = .hydrating ∧ u.HasCall AuthCall.findsNone)) :=
      fun u hdone hnone => (hcond.elim hnone fun hnot => hnot hdone).elim
    cases kind with
    | hydrate =>
      cases hstep
      exact h.keep hi rfl ⟨rfl, rfl, rfl, rfl, rfl⟩ h.stored (hcleared _)
    | refresh =>
      cases hstep
      exact h.keep hi rfl ⟨rfl, rfl, rfl, rfl, rfl⟩ h.stored (hcleared _)
  | dropped kind =>
    cases hstep
    exact h.keep hi rfl ⟨rfl, rfl, rfl, rfl, rfl⟩ h.stored fun _ _ => ⟨⟨rfl, rfl⟩, .inl rfl⟩
  | deleted =>
    cases hstep
    have hcalls : (s.clear.goto i .signedOut).calls = Function.update s.calls i .signedOut := rfl
    refine ⟨?_, fun _ _ => ⟨rfl, rfl⟩, fun _ _ => .inl rfl, fun _ => .inr (hasCall_goto _ i rfl)⟩
    rw [hasCall_update hi hcalls rfl, hasCall_update hi hcalls rfl]
    exact h.stored
  | _ => cases hstep

/-- A `signOut` that begins has yet to delete the token. -/
theorem Inv.begin_signOut (i : ι) (hc : c.deletes = true) : (s.goto i c).Inv := by
  have hdeletes : (s.goto i c).HasCall AuthCall.deletes := hasCall_goto s i hc
  exact .clearing (fun _ hnone => absurd hdeletes hnone) (hdeletes.mono fun _ => clears_of_deletes)

/-- One step keeps the invariant. -/
theorem Inv.step (h : s.Inv) {l : AuthLabel ι} (hcond : s.KeepsSignedOut l) (hstep : s.step l = some t) :
    t.Inv := by
  cases effect_of_step hstep with
  | perform hperform => exact h.perform hcond rfl hperform
  | resume hresume => exact h.resume hcond rfl hresume
  | @hydrate i hi =>
    exact h.keep hi rfl ⟨rfl, rfl, rfl, rfl, rfl⟩ h.stored
      fun hdone hnone => ⟨h.tokens hdone hnone, .inr ⟨rfl, hasCall_goto _ i rfl⟩⟩
  | noToken hi => exact h.move hi ⟨rfl, rfl, rfl, rfl, rfl⟩ fun hfinds => by cases hfinds
  | refresh token hi => exact h.move hi ⟨rfl, rfl, rfl, rfl, rfl⟩ fun hfinds => by cases hfinds
  | @delete i hi => exact .begin_signOut i rfl
  | @logout i token hi => exact .begin_signOut i rfl
  | answered pair hi => exact h.move hi ⟨rfl, rfl, rfl, rfl, rfl⟩ fun hfinds => by cases hfinds
  | refused hi => exact h.move hi ⟨rfl, rfl, rfl, rfl, rfl⟩ fun hfinds => by cases hfinds
  | loggedOut hi => exact h.move hi ⟨rfl, rfl, rfl, rfl, rfl⟩ fun hfinds => by cases hfinds
  | fetched user hi =>
    exact (h.setUser (user.or s.user)).move hi ⟨rfl, rfl, rfl, rfl, rfl⟩ fun hfinds => by cases hfinds

end AuthStore

/-! ## Runs -/

theorem AuthStore.initial_inv (stored : Option String) (status : AuthStatus)
    (accessToken refreshToken : Option String) (user : Option UserPublic) :
    (AuthStore.initial stored status accessToken refreshToken user : AuthStore ι).Inv where
  stored := by rintro ⟨i, hi⟩; cases hi
  tokens := by rintro ⟨i, hi⟩; cases hi
  status := by rintro ⟨i, hi⟩; cases hi
  called := by rintro ⟨i, hi⟩; cases hi

variable [DecidableEq ι]

/-- In every interleaving of `signOut`s, refreshes and `hydrate`s in which nothing is saved or
    published behind the last `signOut`: when all have ended, the app is signed out. -/
theorem signedOut_of_run (stored : Option String) (status : AuthStatus) (accessToken refreshToken : Option String)
    (user : Option UserPublic) (s : AuthStore ι) (i : ι)
    (hrun : Run (fun s l t => AuthStore.step s l = some t) AuthStore.KeepsSignedOut
      (AuthStore.initial stored status accessToken refreshToken user) s)
    (hend : ∀ j, (s.calls j).isEnd = true) (hsignOut : (s.calls i).isSignOut = true) : s.SignedOut :=
  (hrun.invariant (AuthStore.initial_inv stored status accessToken refreshToken user)
    fun _ _ _ h hcond hstep => h.step hcond hstep).signedOut hend ⟨i, hsignOut⟩

instance [Fintype ι] (s : AuthStore ι) (p : AuthCall → Bool) : Decidable (s.HasCall p) :=
  inferInstanceAs (Decidable (∃ i, p (s.calls i) = true))

instance [Fintype ι] (s : AuthStore ι) (l : AuthLabel ι) : Decidable (s.KeepsSignedOut l) := by
  unfold AuthStore.KeepsSignedOut
  split
  · split <;> infer_instance
  · split <;> infer_instance
  · infer_instance

/-- An app that is signed in, with the tokens "a0" and "r0". -/
def sampleStore {ι : Type} : AuthStore ι := .initial (some "r0") .authenticated (some "a0") (some "r0") none

/-- A refresh is answered and saved before the sign-out deletes the token; a `hydrate` comes
    afterwards. -/
def signOutInTime : List (AuthLabel (Fin 3)) :=
  [.refresh 0, .signOut 1, .respond 0 (some ⟨"a1", "r1"⟩), .perform 0 false, .resume 0, .respondLogout 1,
    .perform 1 false, .resume 1, .hydrate 2, .perform 2 false, .resume 2]

theorem signedOut_of_run_sample :
    ∃ s, signOutInTime.foldlM (fun (s : AuthStore (Fin 3)) l =>
        if s.KeepsSignedOut l then s.step l else none) sampleStore = some s ∧ s.SignedOut := by
  obtain ⟨s, hs⟩ := Option.isSome_iff_exists.mp (show ((signOutInTime.foldlM
    (fun (s : AuthStore (Fin 3)) l => if s.KeepsSignedOut l then s.step l else none) sampleStore).filter
      fun s => (∀ j, (s.calls j).isEnd = true) ∧ (s.calls 1).isSignOut = true).isSome by decide +kernel)
  obtain ⟨hs, hends⟩ := Option.filter_eq_some_iff.mp hs
  obtain ⟨hend, hsignOut⟩ := of_decide_eq_true hends
  exact ⟨s, hs, signedOut_of_run _ _ _ _ _ s 1 (Run.of_foldlM_guarded _ hs) hend hsignOut⟩

/-- The answer to a refresh comes when the sign-out is through. -/
def lateAnswer : List (AuthLabel (Fin 2)) :=
  [.refresh 0, .signOut 1, .respondLogout 1, .perform 1 false, .resume 1, .respond 0 (some ⟨"a1", "r1"⟩),
    .perform 0 false, .resume 0]

/-- The new tokens are stored and published. -/
theorem refresh_signs_in_again :
    ¬ ∀ (s : AuthStore (Fin 2)) (i : Fin 2),
      Run (fun s l t => AuthStore.step s l = some t) Unconditional sampleStore s →
      (∀ j, (s.calls j).isEnd = true) → (s.calls i).isSignOut = true → s.SignedOut := by
  intro h
  obtain ⟨s, hs, hend⟩ := Option.map_eq_some_iff.mp (show (lateAnswer.foldlM AuthStore.step sampleStore).map
    (fun s => (s.stored, s.calls 0, s.calls 1)) = some (some "r1", .done, .signedOut) by decide +kernel)
  obtain ⟨hstored, hcalls⟩ := Prod.mk.inj hend
  obtain ⟨hrefresh, hsignOut⟩ := Prod.mk.inj hcalls
  have hends : ∀ j, (s.calls j).isEnd = true := by
    intro j
    match j with
    | 0 => rw [hrefresh]; rfl
    | 1 => rw [hsignOut]; rfl
  have hnone := (h s 1 (Run.of_foldlM _ hs) hends (by rw [hsignOut]; rfl)).stored
  rw [hstored] at hnone
  cases hnone

end Nivara.Mobile
