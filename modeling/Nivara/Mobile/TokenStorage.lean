import Nivara.Lib.TwoCopies
import Nivara.Mobile.AuthStore

/-!
# The refresh token, stored and in memory

`signIn` and `signUp` of `store/auth.ts` (lines 104-138) beside the calls of `AuthStore`, in
any number and interleaved at their `await`s. Each of them writes the secure store and then,
after an `await`, the state.

* A `signOut` that a 401 brings about is a `signOut`, the refresh before it a `refresh`.
* `hydrate` is called once at the start of the app, with nothing in memory.

Results:

* `TokenStorage.step_copies`: a call is one of a system of two copies with a mark, the status.
* `tokensAgree_of_run`: when no call is in flight, the stored token is that of the state, and
  the status is `authenticated` when there is one, as long as no call publishes a token that is
  not the stored one, nor ends, with nothing published, where they differ.
* `signOut_during_hydrate`: a `signOut` between the two writes of `hydrate`.
-/

namespace Nivara.Mobile

open Transition TwoCopies

/-! ## Model -/

/-- `signIn` posts to `/api/auth/login`, `signUp` to `/api/auth/register`. -/
inductive SignInKind
  | signIn
  | signUp
  deriving DecidableEq

/-- A call of `signIn` or `signUp`, by what it awaits. -/
inductive SignInCall
  | idle
  | post (kind : SignInKind)
  /-- `setItemAsync`. -/
  | save (pair : TokenPair)
  | saved (pair : TokenPair)
  /-- `GET /api/auth/me`. -/
  | fetchUser
  | done
  /-- It has raised. -/
  | failed
  deriving DecidableEq

structure TokenStorage (ι κ : Type) where
  auth : AuthStore ι
  signIns : κ → SignInCall

inductive TokenLabel (ι κ : Type)
  | auth (l : AuthLabel ι)
  | signIn (k : κ) (kind : SignInKind)
  /-- The backend answers with a pair, or the request fails. -/
  | respond (k : κ) (pair : Option TokenPair)
  /-- `setItemAsync` takes effect, or fails. -/
  | perform (k : κ) (fails : Bool)
  /-- The caller goes on after it. -/
  | resume (k : κ)
  /-- `/api/auth/me` answers with the user, or the request fails. -/
  | respondUser (k : κ) (user : Option UserPublic)

variable {ι κ : Type}

namespace TokenStorage

section

variable [DecidableEq ι] [DecidableEq κ]

def goto (s : TokenStorage ι κ) (k : κ) (c : SignInCall) : TokenStorage ι κ :=
  { s with signIns := Function.update s.signIns k c }

/-- One step of the system. -/
def step (s : TokenStorage ι κ) : TokenLabel ι κ → Option (TokenStorage ι κ)
  | .auth l => (s.auth.step l).map fun auth => { s with auth := auth }
  | .signIn k kind =>
    match s.signIns k with
    | .idle => some (s.goto k (.post kind))
    | _ => none
  | .respond k pair =>
    match s.signIns k with
    | .post _ =>
      match pair with
      | some pair => some (s.goto k (.save pair))
      | none => some (s.goto k .failed)
    | _ => none
  | .perform k fails =>
    match s.signIns k with
    | .save pair =>
      if fails then some (s.goto k .failed)
      else some ({ s with auth := { s.auth with stored := truthy (some pair.refreshToken) } }.goto k (.saved pair))
    | _ => none
  | .resume k =>
    match s.signIns k with
    | .saved pair =>
      some ({ s with auth := { s.auth with
        accessToken := some pair.accessToken
        refreshToken := some pair.refreshToken
        status := .authenticated } }.goto k .fetchUser)
    | _ => none
  | .respondUser k user =>
    match s.signIns k with
    | .fetchUser => some ({ s with auth := { s.auth with user := user.or s.auth.user } }.goto k .done)
    | _ => none

/-- The start of the app: `hydrate` has been called, with a token in the store or none. -/
def boot (i : ι) (stored : Option String) : TokenStorage ι κ where
  auth := (AuthStore.initial stored .hydrating none none none).goto i .load
  signIns := fun _ => .idle

end

/-- No call is in flight. -/
def Quiet (s : TokenStorage ι κ) : Prop :=
  (∀ i, (s.auth.calls i).isEnd = true) ∧
    ∀ k, s.signIns k = .idle ∨ s.signIns k = .done ∨ s.signIns k = .failed

/-- The stored token is that of the state, and the status says whether there is one. -/
structure TokensAgree (s : TokenStorage ι κ) : Prop where
  stored : s.auth.stored = s.auth.refreshToken
  status : s.auth.status = .authenticated ↔ s.auth.refreshToken.isSome = true

end TokenStorage

/-! ## The two copies -/

/-- How far a call is with the two copies. -/
def AuthCall.progress : AuthCall → Progress (Option String)
  | .load => .unwritten true
  | .loaded stored => if (truthy stored).isNone then .marking else .unwritten true
  | .post kind _ => .unwritten (kind = .hydrate)
  | .save kind _ => .unwritten (kind = .hydrate)
  | .saved kind pair => .written (some pair.refreshToken) (kind = .hydrate)
  | .drop _ => .unwritten true
  | .dropped _ => .written none true
  | .logout _ => .unwritten true
  | .delete => .unwritten true
  | .deleted => .written none true
  | _ => .out

/-- How far a `signIn` is with them. -/
def SignInCall.progress : SignInCall → Progress (Option String)
  | .post _ => .unwritten true
  | .save _ => .unwritten true
  | .saved pair => .written (some pair.refreshToken) true
  | _ => .out

namespace TokenStorage

/-- The secure store and the state, with the status as mark. -/
def copies (s : TokenStorage ι κ) : Copies (ι ⊕ κ) (Option String) where
  stored := s.auth.stored
  published := s.auth.refreshToken
  mark := s.auth.status = .authenticated
  calls := Sum.elim (fun i => (s.auth.calls i).progress) fun k => (s.signIns k).progress

/-- The tokens agree without call `j`, or another call has yet to store one or to publish the stored
    one; and the status is right without it, or another call has yet to set it. -/
def Kept (s : TokenStorage ι κ) (j : ι ⊕ κ) : Prop :=
  s.copies.StoreKept j ∧ s.copies.MarkKept Option.isSome j

/-- The token is the stored one, or another call has yet to store one or to publish the stored one. -/
def IsStored (s : TokenStorage ι κ) (j : ι ⊕ κ) (token : Option String) : Prop :=
  s.auth.stored = token ∨ s.copies.StoreOwed j

/-- The condition on a step. A call publishes the token that is stored, a `refresh` where the
    status is `authenticated`; one that fails, or finds no token, leaves the copies as they
    should be; all this unless another call in flight will see to it. A token to store is not
    empty. -/
def KeepsAgreement (s : TokenStorage ι κ) : TokenLabel ι κ → Prop
  | .auth (.perform i fails) =>
    match s.auth.calls i with
    | .load =>
      if fails then s.Kept (.inl i) else truthy s.auth.stored = none → s.copies.StoreKept (.inl i)
    | .save _ pair => fails = true ∨ pair.refreshToken ≠ ""
    | .drop _ => fails = false ∨ s.Kept (.inl i)
    | .delete => fails = false ∨ s.Kept (.inl i)
    | _ => True
  | .auth (.resume i) =>
    match s.auth.calls i with
    | .loaded stored => truthy stored = none → s.auth.refreshToken = none ∨ s.copies.MarkOwed (.inl i)
    | .saved kind pair =>
      s.IsStored (.inl i) (some pair.refreshToken) ∧
        (kind = .hydrate ∨ s.auth.status = .authenticated ∨ s.copies.MarkOwed (.inl i))
    | .dropped _ => s.IsStored (.inl i) none
    | .deleted => s.IsStored (.inl i) none
    | _ => True
  | .respond k pair => pair ≠ none ∨ s.Kept (.inr k)
  | .perform k fails =>
    match s.signIns k with
    | .save pair => if fails then s.Kept (.inr k) else pair.refreshToken ≠ ""
    | _ => True
  | .resume k =>
    match s.signIns k with
    | .saved pair => s.IsStored (.inr k) (some pair.refreshToken)
    | _ => True
  | _ => True

variable {s t : TokenStorage ι κ}

theorem tokensAgree_of_inOrder (h : s.copies.InOrder Option.isSome) : s.TokensAgree where
  stored := h.stored
  status := by
    have hmark : decide (s.auth.status = .authenticated) = s.auth.refreshToken.isSome := h.mark
    rw [← hmark, decide_eq_true_eq]

theorem progress_of_isEnd {c : AuthCall} (h : c.isEnd = true) : c.progress = .out := by
  cases c <;> first | rfl | cases h

/-- A call in flight is one of the copies, or only fetches the user. -/
theorem copies_out_of_quiet (h : s.Quiet) (j : ι ⊕ κ) : s.copies.calls j = .out := by
  cases j with
  | inl i => exact progress_of_isEnd (h.1 i)
  | inr k =>
    show (s.signIns k).progress = .out
    rcases h.2 k with hk | hk | hk <;> rw [hk] <;> rfl

variable [DecidableEq ι] [DecidableEq κ]

/-- The copies after a step of `AuthStore`. -/
theorem copies_auth {a : AuthStore ι} {i : ι} {c : AuthCall} (h : a.calls = Function.update s.auth.calls i c) :
    ({ s with auth := a } : TokenStorage ι κ).copies =
      ⟨a.stored, a.refreshToken, a.status = .authenticated,
        Function.update s.copies.calls (.inl i) c.progress⟩ := by
  have hcalls : Sum.elim (fun i => (a.calls i).progress) (fun k => (s.signIns k).progress) =
      Function.update s.copies.calls (.inl i) c.progress := by
    funext j
    cases j with
    | inl j =>
      rw [h]
      by_cases hj : j = i
      · rw [hj, Function.update_self, Sum.elim_inl, Function.update_self]
      · rw [Function.update_of_ne (by simpa using hj), Sum.elim_inl, Function.update_of_ne hj]
        rfl
    | inr k => rw [Function.update_of_ne (by simp)]; rfl
  rw [← hcalls]
  rfl

/-- A step of `AuthStore` as one of the copies. -/
theorem step_auth {a : AuthStore ι} {i : ι} {c : AuthCall} (h : a.calls = Function.update s.auth.calls i c)
    (hstep : Step Option.isSome s.copies (.inl i) ⟨a.stored, a.refreshToken, a.status = .authenticated,
      Function.update s.copies.calls (.inl i) c.progress⟩) :
    Step Option.isSome s.copies (.inl i) ({ s with auth := a } : TokenStorage ι κ).copies := by
  rw [copies_auth h]
  exact hstep

/-- The copies after a step of a `signIn`. -/
theorem copies_goto (a : AuthStore ι) {k : κ} {c : SignInCall} (h : a.calls = s.auth.calls) :
    ({ s with auth := a }.goto k c).copies =
      ⟨a.stored, a.refreshToken, a.status = .authenticated,
        Function.update s.copies.calls (.inr k) c.progress⟩ := by
  have hcalls : Sum.elim (fun i => (a.calls i).progress)
      (fun k' => (Function.update s.signIns k c k').progress) =
        Function.update s.copies.calls (.inr k) c.progress := by
    funext j
    cases j with
    | inl i => rw [h, Function.update_of_ne (by simp)]; rfl
    | inr j =>
      by_cases hj : j = k
      · rw [hj, Function.update_self, Sum.elim_inr, Function.update_self]
      · rw [Function.update_of_ne (by simpa using hj), Sum.elim_inr, Function.update_of_ne hj]
        rfl
  rw [← hcalls]
  rfl

/-- A step of a `signIn` as one of the copies. -/
theorem step_goto {a : AuthStore ι} {k : κ} {c : SignInCall} (h : a.calls = s.auth.calls)
    (hstep : Step Option.isSome s.copies (.inr k) ⟨a.stored, a.refreshToken, a.status = .authenticated,
      Function.update s.copies.calls (.inr k) c.progress⟩) :
    Step Option.isSome s.copies (.inr k) ({ s with auth := a }.goto k c).copies := by
  rw [copies_goto a h]
  exact hstep

/-- A step of `AuthStore` that touches neither copy. -/
theorem copies_auth_of_out {i : ι} {c c' : AuthCall} (user : Option UserPublic) (hi : s.auth.calls i = c)
    (hc : c.progress = .out) (hc' : c'.progress = .out) :
    ({ s with auth := { s.auth with user := user }.goto i c' } : TokenStorage ι κ).copies = s.copies := by
  have hout : s.copies.calls (.inl i) = .out := (congrArg AuthCall.progress hi).trans hc
  rw [copies_auth (i := i) (c := c') rfl, hc', ← hout, Function.update_eq_self]
  rfl

/-- A step of a `signIn` that touches neither copy. -/
theorem copies_goto_of_out {k : κ} {c c' : SignInCall} (user : Option UserPublic) (hk : s.signIns k = c)
    (hc : c.progress = .out) (hc' : c'.progress = .out) :
    ({ s with auth := { s.auth with user := user } }.goto k c').copies = s.copies := by
  have hout : s.copies.calls (.inr k) = .out := (congrArg SignInCall.progress hk).trans hc
  rw [copies_goto { s.auth with user := user } rfl, hc', ← hout, Function.update_eq_self]
  rfl

omit [DecidableEq ι] [DecidableEq κ] in
/-- The call that moves. -/
theorem copies_calls_inl {i : ι} {c : AuthCall} (h : s.auth.calls i = c) : s.copies.calls (.inl i) = c.progress :=
  congrArg AuthCall.progress h

omit [DecidableEq ι] [DecidableEq κ] in
theorem copies_calls_inr {k : κ} {c : SignInCall} (h : s.signIns k = c) : s.copies.calls (.inr k) = c.progress :=
  congrArg SignInCall.progress h

/-! ## Steps -/

/-- An operation of `SecureStore` that one of `hydrate`, `refresh` and `signOut` awaits. -/
theorem perform_copies {i : ι} {fails : Bool} {c : AuthCall} {a : AuthStore ι}
    (hcond : s.KeepsAgreement (.auth (.perform i fails))) (hi : s.auth.calls i = c)
    (hstep : s.auth.perform i fails c = some a) :
    Step Option.isSome s.copies (.inl i) ({ s with auth := a } : TokenStorage ι κ).copies := by
  have hprogress := copies_calls_inl hi
  unfold AuthStore.perform at hstep
  simp only [KeepsAgreement, hi] at hcond
  cases c with
  | load =>
    cases fails with
    | true =>
      cases hstep
      obtain ⟨hstore, hmark⟩ := hcond
      exact step_auth rfl (.abandon hstore hmark)
    | false =>
      cases hstep
      refine step_auth (c := .loaded s.auth.stored) rfl ?_
      by_cases hnone : truthy s.auth.stored = none
      · have hmarking : (AuthCall.loaded s.auth.stored).progress = .marking := by
          rw [AuthCall.progress, hnone]
          rfl
        rw [hmarking]
        exact .settle (hcond hnone)
      · have hunwritten : (AuthCall.loaded s.auth.stored).progress = .unwritten true := by
          rw [AuthCall.progress, if_neg (by simpa [Option.isNone_iff_eq_none] using hnone)]
        rw [hunwritten]
        exact .plan (fun _ => rfl) (.inl rfl)
  | save kind pair =>
    cases fails with
    | true =>
      cases hstep
      exact step_auth rfl (.plan (fun _ => rfl) (.inl rfl))
    | false =>
      cases hstep
      have htoken : truthy (some pair.refreshToken) = some pair.refreshToken := by
        rw [truthy, Option.filter_some, if_pos (by simpa using hcond)]
      rw [htoken]
      exact step_auth rfl (.write (some pair.refreshToken) hprogress)
  | drop kind =>
    cases fails with
    | true =>
      cases hstep
      obtain ⟨hstore, hmark⟩ := hcond.resolve_left (by decide)
      exact step_auth rfl (.abandon hstore hmark)
    | false =>
      cases hstep
      exact step_auth rfl (.write none hprogress)
  | delete =>
    cases fails with
    | true =>
      cases hstep
      obtain ⟨hstore, hmark⟩ := hcond.resolve_left (by decide)
      exact step_auth rfl (.abandon hstore hmark)
    | false =>
      cases hstep
      exact step_auth rfl (.write none hprogress)
  | _ => cases hstep

/-- What follows it. -/
theorem resume_copies {i : ι} {c : AuthCall} {a : AuthStore ι} (hcond : s.KeepsAgreement (.auth (.resume i)))
    (hi : s.auth.calls i = c) (hstep : s.auth.resume i c = some a) :
    Step Option.isSome s.copies (.inl i) ({ s with auth := a } : TokenStorage ι κ).copies := by
  have hprogress := copies_calls_inl hi
  unfold AuthStore.resume at hstep
  simp only [KeepsAgreement, hi] at hcond
  cases c with
  | loaded stored =>
    simp only at hstep
    cases hstored : truthy stored with
    | none =>
      simp only [hstored] at hstep
      cases hstep
      have hmarking : s.copies.calls (.inl i) = .marking := by
        rw [hprogress, AuthCall.progress, hstored]
        rfl
      have hmark : false = Option.isSome s.auth.refreshToken ∨ s.copies.MarkOwed (.inl i) :=
        (hcond hstored).imp (fun h => by rw [h]; rfl) id
      exact step_auth rfl (.setMark hmarking hmark)
    | some token =>
      simp only [hstored] at hstep
      cases hstep
      exact step_auth rfl (.plan (fun _ => rfl) (.inl rfl))
  | saved kind pair =>
    obtain ⟨hstored, hstatus⟩ := hcond
    cases kind with
    | hydrate =>
      cases hstep
      exact step_auth rfl (.publish hprogress hstored (.inl rfl))
    | refresh =>
      cases hstep
      have hmark : s.copies.mark = true ∨ s.copies.MarkOwed (.inl i) :=
        (hstatus.resolve_left (by decide)).imp (fun h => decide_eq_true h) id
      exact step_auth rfl (.publish hprogress hstored (.inr hmark))
  | dropped kind =>
    cases hstep
    exact step_auth rfl (.publish hprogress hcond (.inl rfl))
  | deleted =>
    cases hstep
    exact step_auth rfl (.publish hprogress hcond (.inl rfl))
  | _ => cases hstep

/-- A step of `hydrate`, `refresh` or `signOut`. -/
theorem auth_copies {l : AuthLabel ι} {a : AuthStore ι} (hcond : s.KeepsAgreement (.auth l))
    (hstep : s.auth.step l = some a) :
    ({ s with auth := a } : TokenStorage ι κ).copies = s.copies ∨
      ∃ j, Step Option.isSome s.copies j ({ s with auth := a } : TokenStorage ι κ).copies := by
  cases AuthStore.effect_of_step hstep with
  | @perform i fails _ hperform => exact .inr ⟨.inl i, perform_copies hcond rfl hperform⟩
  | @resume i _ hresume => exact .inr ⟨.inl i, resume_copies hcond rfl hresume⟩
  | @hydrate i hi => exact .inr ⟨.inl i, step_auth rfl (.plan (fun _ => rfl) (.inl rfl))⟩
  | noToken hi => exact .inl (copies_auth_of_out s.auth.user hi rfl rfl)
  | @refresh i token hi =>
    refine .inr ⟨.inl i, step_auth rfl (.plan (fun howes => ?_) (.inr rfl))⟩
    rw [copies_calls_inl hi] at howes
    exact howes.elim
  | @delete i hi => exact .inr ⟨.inl i, step_auth rfl (.plan (fun _ => rfl) (.inl rfl))⟩
  | @logout i token hi => exact .inr ⟨.inl i, step_auth rfl (.plan (fun _ => rfl) (.inl rfl))⟩
  | @answered i kind token pair hi =>
    refine .inr ⟨.inl i, step_auth rfl (.plan (fun howes => ?_) (.inr rfl))⟩
    rw [copies_calls_inl hi] at howes
    exact howes
  | @refused i kind token hi => exact .inr ⟨.inl i, step_auth rfl (.plan (fun _ => rfl) (.inl rfl))⟩
  | @loggedOut i token hi => exact .inr ⟨.inl i, step_auth rfl (.plan (fun _ => rfl) (.inl rfl))⟩
  | fetched user hi => exact .inl (copies_auth_of_out _ hi rfl rfl)

/-- Each step is one of the two copies, or touches neither. -/
theorem step_copies {l : TokenLabel ι κ} (hcond : s.KeepsAgreement l) (hstep : s.step l = some t) :
    t.copies = s.copies ∨ ∃ j, Step Option.isSome s.copies j t.copies := by
  cases l with
  | auth l =>
    obtain ⟨a, ha, rfl⟩ := Option.map_eq_some_iff.mp hstep
    exact auth_copies hcond ha
  | signIn k kind =>
    unfold step at hstep
    cases hk : s.signIns k with
    | idle =>
      simp only [hk] at hstep
      cases hstep
      exact .inr ⟨.inr k, step_goto rfl (.plan (fun _ => rfl) (.inl rfl))⟩
    | _ =>
      simp only [hk] at hstep
      cases hstep
  | respond k pair =>
    unfold step at hstep
    cases hk : s.signIns k with
    | post kind =>
      simp only [hk] at hstep
      cases pair with
      | some pair =>
        cases hstep
        exact .inr ⟨.inr k, step_goto rfl (.plan (fun _ => rfl) (.inl rfl))⟩
      | none =>
        cases hstep
        obtain ⟨hstore, hmark⟩ := hcond.resolve_left (by simp)
        exact .inr ⟨.inr k, step_goto rfl (.abandon hstore hmark)⟩
    | _ =>
      simp only [hk] at hstep
      cases hstep
  | perform k fails =>
    unfold step at hstep
    cases hk : s.signIns k with
    | save pair =>
      simp only [hk] at hstep
      simp only [KeepsAgreement, hk] at hcond
      cases fails with
      | true =>
        cases hstep
        obtain ⟨hstore, hmark⟩ := hcond
        exact .inr ⟨.inr k, step_goto rfl (.abandon hstore hmark)⟩
      | false =>
        cases hstep
        have htoken : truthy (some pair.refreshToken) = some pair.refreshToken := by
          rw [truthy, Option.filter_some, if_pos (by simpa using hcond)]
        rw [htoken]
        exact .inr ⟨.inr k, step_goto rfl (.write (some pair.refreshToken) (copies_calls_inr hk))⟩
    | _ =>
      simp only [hk] at hstep
      cases hstep
  | resume k =>
    unfold step at hstep
    cases hk : s.signIns k with
    | saved pair =>
      simp only [hk] at hstep
      simp only [KeepsAgreement, hk] at hcond
      cases hstep
      exact .inr ⟨.inr k, step_goto rfl (.publish (copies_calls_inr hk) hcond (.inl rfl))⟩
    | _ =>
      simp only [hk] at hstep
      cases hstep
  | respondUser k user =>
    unfold step at hstep
    cases hk : s.signIns k with
    | fetchUser =>
      simp only [hk] at hstep
      cases hstep
      exact .inl (copies_goto_of_out _ hk rfl rfl)
    | _ =>
      simp only [hk] at hstep
      cases hstep

/-! ## Runs -/

omit [DecidableEq κ] in
theorem boot_inv (i : ι) (stored : Option String) : (boot i stored : TokenStorage ι κ).copies.Inv Option.isSome where
  stored := by
    refine .inr ⟨.inl i, ?_⟩
    rw [copies_calls_inl (show (boot i stored : TokenStorage ι κ).auth.calls i = .load from Function.update_self ..)]
    trivial
  mark := .inl rfl

end TokenStorage

open TokenStorage

variable [DecidableEq ι] [DecidableEq κ]

/-- From the start of the app, in every interleaving whose steps meet the condition: when no call is
    in flight, the stored refresh token is that of the state, and the status is `authenticated`
    exactly when there is one. -/
theorem tokensAgree_of_run (i : ι) (stored : Option String) (s : TokenStorage ι κ)
    (hrun : Run (fun s l t => TokenStorage.step s l = some t) TokenStorage.KeepsAgreement (boot i stored) s)
    (hquiet : s.Quiet) : s.TokensAgree := by
  have hcopies : Run (fun s j t => Step Option.isSome s j t) Unconditional
      (boot i stored : TokenStorage ι κ).copies s.copies := by
    refine hrun.simulate fun s l t hcond hstep => ?_
    rcases step_copies hcond hstep with heq | ⟨j, hj⟩
    · rw [heq]
      exact .refl
    · exact .tail j .refl trivial hj
  exact tokensAgree_of_inOrder (inOrder_of_run hcopies (boot_inv i stored) (copies_out_of_quiet hquiet))

instance [Fintype ι] [Fintype κ] (s : TokenStorage ι κ) (j : ι ⊕ κ) : Decidable (s.Kept j) :=
  inferInstanceAs (Decidable (_ ∧ _))

instance [Fintype ι] [Fintype κ] (s : TokenStorage ι κ) (j : ι ⊕ κ) (token : Option String) :
    Decidable (s.IsStored j token) :=
  inferInstanceAs (Decidable (_ ∨ _))

instance [Fintype ι] [Fintype κ] (s : TokenStorage ι κ) (l : TokenLabel ι κ) : Decidable (s.KeepsAgreement l) := by
  unfold TokenStorage.KeepsAgreement
  split <;> (try split) <;> infer_instance

instance [Fintype ι] [Fintype κ] (s : TokenStorage ι κ) : Decidable s.Quiet :=
  inferInstanceAs (Decidable (_ ∧ _))

/-- `hydrate` ends, and the user signs out and in again, while a refresh fails. -/
def signInAgain : List (TokenLabel (Fin 3) (Fin 2)) :=
  [.auth (.perform 0 false), .auth (.resume 0), .auth (.respond 0 (some ⟨"a1", "r1"⟩)), .auth (.perform 0 false),
    .auth (.resume 0), .auth (.respondUser 0 none), .auth (.refresh 1), .auth (.signOut 2),
    .auth (.respond 1 none), .auth (.respondLogout 2), .auth (.perform 2 false), .auth (.perform 1 false),
    .auth (.resume 1), .auth (.resume 2), .signIn 0 .signIn, .respond 0 (some ⟨"a2", "r2"⟩), .perform 0 false,
    .resume 0, .respondUser 0 none]

theorem tokensAgree_of_run_sample :
    ∃ s, signInAgain.foldlM (fun (s : TokenStorage (Fin 3) (Fin 2)) l =>
        if s.KeepsAgreement l then s.step l else none) (boot 0 (some "r0")) = some s ∧ s.TokensAgree := by
  obtain ⟨s, hs⟩ := Option.isSome_iff_exists.mp (show ((signInAgain.foldlM
    (fun (s : TokenStorage (Fin 3) (Fin 2)) l => if s.KeepsAgreement l then s.step l else none)
      (boot 0 (some "r0"))).filter fun s => s.Quiet).isSome by decide +kernel)
  obtain ⟨hs, hquiet⟩ := Option.filter_eq_some_iff.mp hs
  exact ⟨s, hs, tokensAgree_of_run 0 _ s (Run.of_foldlM_guarded _ hs) (of_decide_eq_true hquiet)⟩

/-- A 401 signs the user out while `hydrate` has stored the new token and not published it. -/
def signOutInBetween : List (TokenLabel (Fin 2) (Fin 2)) :=
  [.auth (.perform 0 false), .auth (.resume 0), .auth (.respond 0 (some ⟨"a1", "r1"⟩)), .auth (.perform 0 false),
    .auth (.signOut 1), .auth (.perform 1 false), .auth (.resume 1), .auth (.resume 0), .auth (.respondUser 0 none)]

/-- The app is authenticated with a token that is not stored. -/
theorem signOut_during_hydrate :
    ¬ ∀ s : TokenStorage (Fin 2) (Fin 2),
      Run (fun s l t => TokenStorage.step s l = some t) Unconditional (boot 0 (some "r0")) s →
      s.Quiet → s.TokensAgree := by
  intro h
  obtain ⟨s, hs, hend⟩ := Option.map_eq_some_iff.mp (show (signOutInBetween.foldlM TokenStorage.step
    (boot 0 (some "r0"))).map (fun s => (s.auth.stored, s.auth.refreshToken, decide s.Quiet)) =
      some (none, some "r1", true) by decide +kernel)
  obtain ⟨hstored, hrest⟩ := Prod.mk.inj hend
  obtain ⟨hrefresh, hquiet⟩ := Prod.mk.inj hrest
  have hagree := (h s (Run.of_foldlM _ hs) (of_decide_eq_true hquiet)).stored
  rw [hstored, hrefresh] at hagree
  cases hagree

end Nivara.Mobile
