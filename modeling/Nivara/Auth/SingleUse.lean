import Nivara.Auth.PasswordVersion
import Nivara.Lib.OneTime

/-!
# Refresh and reset tokens, once each

`refresh` and `reset_password` take their token with `GETDEL` before they do anything else,
and no token is set a second time.

* `Tracked` adds to `AuthState` how each call has started and which reset tokens have been
  sent; no step reads either.
* `registered` is a user whose `register` has committed the row and has yet to issue its pair.
* A reset token stands for its key, the digest of the token.

Results:

* `advance_cases`: what the next step of a call does to the tokens.
* `refreshLedger_step`, `resetLedger_step`: each step is one of the ledger of its tokens.
* `Revoked.step`: a token that an older version was stored with never gets a refresh through.
* `singleUse_of_run`: a token authorises one refresh, or one reset, and none after it has been
  taken, deleted, run out or outdated.
-/

namespace Nivara.Auth

open OneTime Transition

variable {Password Hash Salt : Type}

/-! ## Histories -/

/-- The calls and tokens, with their history. -/
structure Tracked (Password Hash : Type) where
  auth : AuthState Password Hash
  /-- How the call has started. -/
  origin : ℕ → Option (Call Password)
  /-- The reset tokens that have been sent. -/
  resetIssued : ℕ → Bool

namespace Tracked

/-- One step, with its trace in the history. -/
def step (H : Hasher Password Hash Salt) (s : Tracked Password Hash) (l : Label Password Salt) :
    Option (Tracked Password Hash) :=
  (s.auth.step H l).map fun auth =>
    match l with
    | .start id call => { s with auth := auth, origin := Function.update s.origin id (some call) }
    | .putReset token => { s with auth := auth, resetIssued := Function.update s.resetIssued token true }
    | _ => { s with auth := auth }

/-- The condition on a step: a reset token that is generated is a new one. -/
def FreshTokens (s : Tracked Password Hash) : Label Password Salt → Prop
  | .putReset token => s.resetIssued token = false
  | _ => True

end Tracked

/-- The row of a user that `register` has committed; the call of `register` goes on to issue
    its pair. -/
def registered (hash : Hash) (isActive : Bool) (pwV : Option ℕ) : Tracked Password Hash where
  auth := (initial hash isActive pwV).goto 0 (.issueRead ⟨0, none⟩)
  origin := fun _ => none
  resetIssued := fun _ => false

/-! ## Who has a token -/

/-- A call of `refresh` has taken its token. -/
@[simp] def Call.HasToken : Call Password → Prop
  | .refresh _ => False
  | .failed error => error ≠ invalidRefreshToken
  | _ => True

/-- A call of `reset_password` has taken its token. -/
@[simp] def Call.HasResetToken : Call Password → Prop
  | .resetPassword _ _ => False
  | .failed error => error ≠ invalidResetToken
  | _ => True

/-- The call has returned or raised. -/
def Call.IsEnd : Call Password → Bool
  | .tokens _ => true
  | .changed _ => true
  | .failed _ => true
  | _ => false

/-- A call of `refresh` that does not return for a token stored with the old version `v`. -/
def Call.IsRefused (token v : ℕ) : Call Password → Prop
  | .refresh token' => token' = token
  | .refreshVersion v' _ => v' = v
  | .failed _ => True
  | _ => False

/-- The new password is committed. -/
def Call.HasReset : Call Password → Prop
  | .bump _ => True
  | .changed _ => True
  | _ => False

namespace Tracked

/-- The refresh tokens; a token is named by the call that issues it. -/
def refreshLedger (s : Tracked Password Hash) : Ledger ℕ ℕ where
  live token := s.auth.refreshTokens token ≠ none
  issued token := ∃ chain, s.auth.calls token = some (.tokens chain)
  taken token id := s.origin id = some (.refresh token) ∧ ∃ c, s.auth.calls id = some c ∧ c.HasToken

/-- The reset tokens. -/
def resetLedger (s : Tracked Password Hash) : Ledger ℕ ℕ where
  live token := s.auth.resetTokens token = true
  issued token := s.resetIssued token = true
  taken token id := (∃ newPassword, s.origin id = some (.resetPassword token newPassword)) ∧
    ∃ c, s.auth.calls id = some c ∧ c.HasResetToken

/-- The call has refreshed the token: it has returned a new pair. -/
def Refreshed (s : Tracked Password Hash) (token id : ℕ) : Prop :=
  s.origin id = some (.refresh token) ∧ ∃ chain, s.auth.calls id = some (.tokens chain)

/-- The call has reset the password with the token. -/
def HasReset (s : Tracked Password Hash) (token id : ℕ) : Prop :=
  (∃ newPassword, s.origin id = some (.resetPassword token newPassword)) ∧
    ∃ c, s.auth.calls id = some c ∧ c.HasReset

/-- The token is stored with a version that is no longer the user's. -/
def Outdated (s : Tracked Password Hash) (token : ℕ) : Prop :=
  ∃ data, s.auth.refreshTokens token = some data ∧ data.pwV ≠ s.auth.version

theorem Refreshed.taken {s : Tracked Password Hash} {token id : ℕ} (h : s.Refreshed token id) :
    s.refreshLedger.taken token id :=
  ⟨h.1, h.2.elim fun _ hcall => ⟨_, hcall, trivial⟩⟩

theorem HasReset.taken {s : Tracked Password Hash} {token id : ℕ} (h : s.HasReset token id) :
    s.resetLedger.taken token id := by
  obtain ⟨horigin, c, hcall, hreset⟩ := h
  refine ⟨horigin, c, hcall, ?_⟩
  cases c <;> first | exact trivial | exact hreset.elim

end Tracked

/-! ## The next step of a call -/

variable {H : Hasher Password Hash Salt} {s t : AuthState Password Hash}

/-- A step of a call that touches no token: the call has a token only if it had it before, and
    an older version does not pass. -/
structure Call.Plain (version : ℕ) (c c' : Call Password) : Prop where
  isStart : c'.IsStart = false
  goesOn : c.IsEnd = false
  token : c'.HasToken → c.HasToken
  resetToken : c'.HasResetToken → c.HasResetToken
  tokens : ∀ chain, c' ≠ .tokens chain
  issueSet : ∀ chain v, c' = .issueSet chain v → v = version
  refused : ∀ v chain, c = .refreshVersion v chain → v ≠ version → ∃ error, c' = .failed error

/-- A call that is refused its token raises. -/
theorem Call.Plain.isRefused {version token v : ℕ} {c c' : Call Password} (h : c.Plain version c')
    (hv : v < version) (hc : c.IsRefused token v) : c'.IsRefused token v := by
  suffices hfailed : ∃ error, c' = .failed error by
    obtain ⟨error, rfl⟩ := hfailed
    trivial
  cases c with
  | refresh token' =>
    have hnot : ¬ c'.HasToken := h.token
    have hstart := h.isStart
    cases c' with
    | refresh token'' => cases hstart
    | failed error => exact ⟨error, rfl⟩
    | _ => exact absurd trivial hnot
  | refreshVersion v' chain =>
    have heq : v' = v := hc
    exact h.refused v' chain rfl (by omega)
  | failed error => exact Bool.noConfusion h.goesOn
  | _ => exact hc.elim

/-- What a step of the call `id`, from `c` to `c'`, does to the tokens. -/
inductive Advances (s t : AuthState Password Hash) (id : ℕ) : Call Password → Call Password → Prop
  | plain {c c' : Call Password} (refreshTokens : t.refreshTokens = s.refreshTokens)
      (resetTokens : t.resetTokens = s.resetTokens) (h : c.Plain s.version c') : Advances s t id c c'
  /-- `GETDEL` finds a refresh token. -/
  | refresh {token : ℕ} {data : RefreshToken} {chain : Chain} (stored : s.refreshTokens token = some data)
      (refreshTokens : t.refreshTokens = Function.update s.refreshTokens token none)
      (resetTokens : t.resetTokens = s.resetTokens) :
      Advances s t id (.refresh token) (.refreshVersion data.pwV chain)
  /-- `GETDEL` finds a reset token. -/
  | reset {token : ℕ} {newPassword : Password} (stored : s.resetTokens token = true)
      (refreshTokens : t.refreshTokens = s.refreshTokens)
      (resetTokens : t.resetTokens = Function.update s.resetTokens token false) :
      Advances s t id (.resetPassword token newPassword) (.resetUser newPassword)
  /-- `SET` of a new refresh token. -/
  | issue {chain : Chain} {v : ℕ}
      (refreshTokens : t.refreshTokens = Function.update s.refreshTokens id (some ⟨v, chain.epoch⟩))
      (resetTokens : t.resetTokens = s.resetTokens) : Advances s t id (.issueSet chain v) (.tokens chain)

theorem advance_cases {id : ℕ} {salt : Salt} {c : Call Password} (h : s.advance H id salt c = some t) :
    ∃ c', t.calls = Function.update s.calls id (some c') ∧ s.version ≤ t.version ∧ Advances s t id c c' := by
  obtain ⟨s', c', hgoes, rfl⟩ := AuthState.goes_of_advance h
  refine ⟨c', ?_, ?_, ?_⟩
  · cases hgoes <;> rfl
  · cases hgoes with
    | bumps => exact Nat.le_succ _
    | _ => exact le_refl _
  cases hgoes with
  | refreshTakes stored => exact .refresh stored rfl rfl
  | resetTakes stored => exact .reset stored rfl rfl
  | sets => exact .issue rfl rfl
  | current hversion =>
    refine .plain rfl rfl ?_
    constructor <;> simp [Call.IsStart, Call.IsEnd, hversion]
  | _ => exact .plain rfl rfl (by constructor <;> simp [Call.IsStart, Call.IsEnd])

/-! ## One step of the system -/

namespace Tracked

variable {s t : Tracked Password Hash}

/-- A step, by its label. -/
inductive Moves (s t : Tracked Password Hash) : Label Password Salt → Prop
  | start {id : ℕ} {call : Call Password} (free : s.auth.calls id = none) (isStart : call.IsStart = true)
      (h : t = { s with auth := s.auth.goto id call, origin := Function.update s.origin id (some call) }) :
      Moves s t (.start id call)
  | advance {id : ℕ} {salt : Salt} {c c' : Call Password} (call : s.auth.calls id = some c)
      (calls : t.auth.calls = Function.update s.auth.calls id (some c'))
      (version : s.auth.version ≤ t.auth.version) (h : Advances s.auth t.auth id c c')
      (origin : t.origin = s.origin) (resetIssued : t.resetIssued = s.resetIssued) :
      Moves s t (.advance id salt)
  | dropRefresh {token : ℕ}
      (h : t = { s with auth := { s.auth with refreshTokens := Function.update s.auth.refreshTokens token none } }) :
      Moves s t (.dropRefresh token)
  | putReset {token : ℕ}
      (h : t = { s with
        auth := { s.auth with resetTokens := Function.update s.auth.resetTokens token true }
        resetIssued := Function.update s.resetIssued token true }) :
      Moves s t (.putReset token)
  | dropReset {token : ℕ}
      (h : t = { s with auth := { s.auth with resetTokens := Function.update s.auth.resetTokens token false } }) :
      Moves s t (.dropReset token)

theorem moves_of_step {l : Label Password Salt} (h : s.step H l = some t) : Moves s t l := by
  obtain ⟨auth, hauth, ht⟩ := Option.map_eq_some_iff.mp h
  unfold AuthState.step at hauth
  cases l with
  | start id call =>
    simp only at hauth
    split_ifs at hauth with hstart
    cases hauth
    exact .start hstart.1 hstart.2 ht.symm
  | advance id salt =>
    obtain ⟨c, hc, hadv⟩ := Option.bind_eq_some_iff.mp hauth
    obtain ⟨c', hcalls, hversion, hadvances⟩ := advance_cases hadv
    subst ht
    exact .advance hc hcalls hversion hadvances rfl rfl
  | dropRefresh token =>
    cases hauth
    exact .dropRefresh ht.symm
  | putReset token =>
    cases hauth
    exact .putReset ht.symm
  | dropReset token =>
    cases hauth
    exact .dropReset ht.symm

/-- Where a call is after one call has moved. -/
theorem of_calls_update {calls : ℕ → Option (Call Password)} {id j : ℕ} {c d : Call Password}
    (h : Function.update calls id (some c) j = some d) : (j = id ∧ d = c) ∨ (j ≠ id ∧ calls j = some d) := by
  by_cases hj : j = id
  · rw [hj, Function.update_self] at h
    exact .inl ⟨hj, (Option.some.inj h).symm⟩
  · rw [Function.update_of_ne hj] at h
    exact .inr ⟨hj, h⟩

/-- A call that has not made its first step is as it started. -/
def Started (s : Tracked Password Hash) : Prop :=
  ∀ id c, s.auth.calls id = some c → c.IsStart = true → s.origin id = some c

theorem Started.step (h : s.Started) {l : Label Password Salt} (hmoves : Moves s t l) : t.Started := by
  intro j d hd hstart
  cases hmoves with
  | @start id call free isStart ht =>
    subst ht
    show Function.update s.origin id (some call) j = some d
    rcases of_calls_update hd with ⟨rfl, rfl⟩ | ⟨hj, hd⟩
    · exact Function.update_self ..
    · rw [Function.update_of_ne hj]
      exact h j d hd hstart
  | @advance id salt c c' call calls version hadv origin resetIssued =>
    rw [calls] at hd
    rw [origin]
    rcases of_calls_update hd with ⟨rfl, rfl⟩ | ⟨hj, hd⟩
    · cases hadv with
      | plain _ _ hplain =>
        rw [hplain.isStart] at hstart
        cases hstart
      | refresh => cases hstart
      | reset => cases hstart
      | issue => cases hstart
    · exact h j d hd hstart
  | dropRefresh ht =>
    subst ht
    exact h j d hd hstart
  | putReset ht =>
    subst ht
    exact h j d hd hstart
  | dropReset ht =>
    subst ht
    exact h j d hd hstart

/-- A pair that was returned stays returned. -/
theorem issued_step {l : Label Password Salt} (hmoves : Moves s t l) {token : ℕ}
    (h : s.refreshLedger.issued token) : t.refreshLedger.issued token := by
  obtain ⟨chain, hcall⟩ := h
  cases hmoves with
  | @start id call free isStart ht =>
    subst ht
    have hne : token ≠ id := by
      rintro rfl
      rw [free] at hcall
      cases hcall
    exact ⟨chain, (Function.update_of_ne hne ..).trans hcall⟩
  | @advance id salt c c' call calls version hadv origin resetIssued =>
    have hne : token ≠ id := by
      rintro rfl
      rw [hcall] at call
      cases call
      cases hadv with
      | plain _ _ hplain => exact Bool.noConfusion hplain.goesOn
    exact ⟨chain, by rw [calls, Function.update_of_ne hne, hcall]⟩
  | dropRefresh ht => subst ht; exact ⟨chain, hcall⟩
  | putReset ht => subst ht; exact ⟨chain, hcall⟩
  | dropReset ht => subst ht; exact ⟨chain, hcall⟩

/-- A refresh token that is left after a deletion was there before. -/
theorem live_of_drop {a : AuthState Password Hash} {token token' : ℕ}
    (h : Function.update a.refreshTokens token none token' ≠ none) : a.refreshTokens token' ≠ none := by
  obtain ⟨data, hdata⟩ := Option.ne_none_iff_exists'.mp h
  rw [refreshTokens_of_drop hdata]
  exact Option.some_ne_none data

/-- What a call has after another one, or one that had it before, has moved. -/
theorem has_of_advance {has : Call Password → Prop} {id j : ℕ} {c c' : Call Password}
    {calls calls' : ℕ → Option (Call Password)} (hcall : calls id = some c)
    (hcalls : calls' = Function.update calls id (some c')) (hc : j = id → has c' → has c)
    (h : ∃ d, calls' j = some d ∧ has d) : ∃ d, calls j = some d ∧ has d := by
  obtain ⟨d, hd, hhas⟩ := h
  rw [hcalls] at hd
  rcases of_calls_update hd with ⟨rfl, rfl⟩ | ⟨-, hd⟩
  · exact ⟨c, hcall, hc rfl hhas⟩
  · exact ⟨d, hd, hhas⟩

/-- A call that has a token when another one has just started. -/
theorem has_of_start (start : Call Password → Prop) {has : Call Password → Prop} {id j : ℕ} {call : Call Password}
    {origin calls : ℕ → Option (Call Password)} (hstart : start call → ¬ has call)
    (horigin : ∃ c, Function.update origin id (some call) j = some c ∧ start c)
    (h : ∃ d, Function.update calls id (some call) j = some d ∧ has d) :
    (∃ c, origin j = some c ∧ start c) ∧ ∃ d, calls j = some d ∧ has d := by
  obtain ⟨c, hc, hc'⟩ := horigin
  obtain ⟨d, hd, hhas⟩ := h
  rcases of_calls_update hd with ⟨rfl, rfl⟩ | ⟨hne, hd⟩
  · -- it has yet to ask for the token
    rw [Function.update_self] at hc
    cases hc
    exact absurd hhas (hstart hc')
  · rw [Function.update_of_ne hne] at hc
    exact ⟨⟨c, hc, hc'⟩, d, hd, hhas⟩

/-- Each step is one of the ledger of the refresh tokens. -/
theorem refreshLedger_step (h : s.Started) {l : Label Password Salt} (hmoves : Moves s t l) :
    s.refreshLedger.Step t.refreshLedger := by
  have hissued : ∀ token, s.refreshLedger.issued token → t.refreshLedger.issued token :=
    fun token => issued_step hmoves
  cases hmoves with
  | @start id call free isStart ht =>
    subst ht
    refine .keep (fun _ hlive => hlive) hissued fun token j hj => ?_
    obtain ⟨⟨c, hc, rfl⟩, hhas⟩ := has_of_start (fun c => c = .refresh token)
      (by rintro rfl; exact not_false) ⟨_, hj.1, rfl⟩ hj.2
    exact ⟨hc, hhas⟩
  | @advance id salt c c' call calls version hadv origin resetIssued =>
    have hlive : ∀ token, t.auth.refreshTokens = s.auth.refreshTokens →
        t.refreshLedger.live token → s.refreshLedger.live token := by
      intro token heq hlive
      have hlive' : t.auth.refreshTokens token ≠ none := hlive
      rwa [heq] at hlive'
    have htaken : ∀ token j, (j = id → c'.HasToken → c.HasToken) →
        t.refreshLedger.taken token j → s.refreshLedger.taken token j := by
      intro token j hc hj
      exact ⟨origin ▸ hj.1, has_of_advance call calls hc hj.2⟩
    cases hadv with
    | plain hrefresh _ hplain =>
      exact .keep (hlive · hrefresh) hissued fun token j => htaken token j fun _ => hplain.token
    | @refresh token data chain stored hrefresh _ =>
      refine .take token id ?_ ?_ (fun token' hlive => ?_) hissued fun token' j hj => ?_
      · show s.auth.refreshTokens token ≠ none
        rw [stored]
        exact Option.some_ne_none data
      · show ¬ t.auth.refreshTokens token ≠ none
        rw [hrefresh, Function.update_self]
        exact not_not.mpr rfl
      · have hlive' : t.auth.refreshTokens token' ≠ none := hlive
        rw [hrefresh] at hlive'
        exact live_of_drop hlive'
      · by_cases hne : j = id
        · subst hne
          have heq := (h j _ call rfl).symm.trans (origin ▸ hj.1)
          cases heq
          exact .inr ⟨rfl, rfl⟩
        · exact .inl (htaken token' j (fun heq => absurd heq hne) hj)
    | reset stored hrefresh _ =>
      exact .keep (hlive · hrefresh) hissued fun token j => htaken token j fun _ _ => trivial
    | @issue chain v hrefresh _ =>
      refine .issue id ?_ ⟨chain, ?_⟩ (fun token hlive => ?_) hissued
        fun token j => htaken token j fun _ _ => trivial
      · rintro ⟨chain', hcall⟩
        rw [hcall] at call
        cases call
      · rw [calls, Function.update_self]
      · by_cases hne : token = id
        · exact .inr hne
        · have hlive' : t.auth.refreshTokens token ≠ none := hlive
          rw [hrefresh, Function.update_of_ne hne] at hlive'
          exact .inl hlive'
  | dropRefresh ht =>
    subst ht
    exact .keep (fun token hlive => live_of_drop hlive) hissued fun _ _ htaken => htaken
  | putReset ht =>
    subst ht
    exact .keep (fun _ hlive => hlive) hissued fun _ _ htaken => htaken
  | dropReset ht =>
    subst ht
    exact .keep (fun _ hlive => hlive) hissued fun _ _ htaken => htaken

/-- A reset token that is left after a deletion was there before. -/
theorem resetLive_of_drop {token token' : ℕ} {tokens : ℕ → Bool}
    (h : Function.update tokens token false token' = true) : tokens token' = true := by
  by_cases ht : token' = token
  · rw [ht, Function.update_self] at h
    cases h
  · rw [Function.update_of_ne ht] at h
    exact h

/-- Each step is one of the ledger of the reset tokens. -/
theorem resetLedger_step (h : s.Started) {l : Label Password Salt} (hfresh : s.FreshTokens l)
    (hmoves : Moves s t l) : s.resetLedger.Step t.resetLedger := by
  cases hmoves with
  | @start id call free isStart ht =>
    subst ht
    refine .keep (fun _ hlive => hlive) (fun _ hissued => hissued) fun token j hj => ?_
    obtain ⟨⟨c, hc, newPassword, rfl⟩, hhas⟩ :=
      has_of_start (fun c => ∃ newPassword, c = .resetPassword token newPassword)
        (by rintro ⟨newPassword, rfl⟩; exact not_false) (hj.1.elim fun p hp => ⟨_, hp, p, rfl⟩) hj.2
    exact ⟨⟨newPassword, hc⟩, hhas⟩
  | @advance id salt c c' call calls version hadv origin resetIssued =>
    have hissued : ∀ token, s.resetLedger.issued token → t.resetLedger.issued token := by
      intro token hissued
      show t.resetIssued token = true
      rwa [resetIssued]
    have hlive : ∀ token, t.auth.resetTokens = s.auth.resetTokens →
        t.resetLedger.live token → s.resetLedger.live token := by
      intro token heq hlive
      have hlive' : t.auth.resetTokens token = true := hlive
      rwa [heq] at hlive'
    have htaken : ∀ token j, (j = id → c'.HasResetToken → c.HasResetToken) →
        t.resetLedger.taken token j → s.resetLedger.taken token j := by
      intro token j hc hj
      exact ⟨origin ▸ hj.1, has_of_advance call calls hc hj.2⟩
    cases hadv with
    | plain _ hreset hplain =>
      exact .keep (hlive · hreset) hissued fun token j => htaken token j fun _ => hplain.resetToken
    | refresh stored _ hreset =>
      exact .keep (hlive · hreset) hissued fun token j => htaken token j fun _ _ => trivial
    | @reset token newPassword stored _ hreset =>
      refine .take token id stored ?_ (fun token' hlive => ?_) hissued fun token' j hj => ?_
      · show ¬ t.auth.resetTokens token = true
        rw [hreset, Function.update_self]
        exact Bool.false_ne_true
      · have hlive' : t.auth.resetTokens token' = true := hlive
        rw [hreset] at hlive'
        exact resetLive_of_drop hlive'
      · by_cases hne : j = id
        · subst hne
          obtain ⟨newPassword', horigin⟩ := hj.1
          have heq := (h j _ call rfl).symm.trans (origin ▸ horigin)
          cases heq
          exact .inr ⟨rfl, rfl⟩
        · exact .inl (htaken token' j (fun heq => absurd heq hne) hj)
    | issue _ hreset =>
      exact .keep (hlive · hreset) hissued fun token j => htaken token j fun _ _ => trivial
  | dropRefresh ht =>
    subst ht
    exact .keep (fun _ hlive => hlive) (fun _ hissued => hissued) fun _ _ htaken => htaken
  | @putReset token ht =>
    subst ht
    refine .issue token ?_ ?_ (fun token' hlive => ?_) (fun token' hissued => ?_) fun _ _ htaken => htaken
    · exact Bool.eq_false_iff.mp hfresh
    · show Function.update s.resetIssued token true token = true
      exact Function.update_self ..
    · by_cases ht : token' = token
      · exact .inr ht
      · have hlive' : Function.update s.auth.resetTokens token true token' = true := hlive
        rw [Function.update_of_ne ht] at hlive'
        exact .inl hlive'
    · show Function.update s.resetIssued token true token' = true
      by_cases ht : token' = token
      · rw [ht, Function.update_self]
      · rw [Function.update_of_ne ht]
        exact hissued
  | dropReset ht =>
    subst ht
    exact .keep (fun token hlive => resetLive_of_drop hlive) (fun _ hissued => hissued)
      fun _ _ htaken => htaken

/-! ## Outdated tokens -/

/-- A version that is stored or about to be stored is not ahead of the user's. -/
structure Versions (s : Tracked Password Hash) : Prop where
  stored : ∀ token data, s.auth.refreshTokens token = some data → data.pwV ≤ s.auth.version
  read : ∀ id chain v, s.auth.calls id = some (.issueSet chain v) → v ≤ s.auth.version

theorem Versions.step (h : s.Versions) {l : Label Password Salt} (hmoves : Moves s t l) : t.Versions := by
  cases hmoves with
  | @start id call free isStart ht =>
    subst ht
    refine ⟨h.stored, fun j chain v hj => ?_⟩
    rcases of_calls_update hj with ⟨rfl, rfl⟩ | ⟨-, hj⟩
    · cases isStart
    · exact h.read j chain v hj
  | @advance id salt c c' call calls version hadv origin resetIssued =>
    have hread : (∀ chain v, c' = .issueSet chain v → v ≤ s.auth.version) →
        ∀ j chain v, t.auth.calls j = some (.issueSet chain v) → v ≤ t.auth.version := by
      intro hc j chain v hj
      rw [calls] at hj
      rcases of_calls_update hj with ⟨rfl, rfl⟩ | ⟨-, hj⟩
      · exact (hc chain v rfl).trans version
      · exact (h.read j chain v hj).trans version
    cases hadv with
    | plain hrefresh _ hplain =>
      refine ⟨fun token data hdata => ?_, hread fun chain v heq => (hplain.issueSet chain v heq).le⟩
      rw [hrefresh] at hdata
      exact (h.stored token data hdata).trans version
    | @refresh token data chain stored hrefresh _ =>
      refine ⟨fun token' data' hdata => ?_, hread fun _ _ heq => by cases heq⟩
      rw [hrefresh] at hdata
      exact (h.stored token' data' (refreshTokens_of_drop hdata)).trans version
    | reset _ hrefresh _ =>
      refine ⟨fun token data hdata => ?_, hread fun _ _ heq => by cases heq⟩
      rw [hrefresh] at hdata
      exact (h.stored token data hdata).trans version
    | @issue chain v hrefresh _ =>
      refine ⟨fun token data hdata => ?_, hread fun _ _ heq => by cases heq⟩
      rw [hrefresh] at hdata
      by_cases hne : token = id
      · rw [hne, Function.update_self] at hdata
        cases hdata
        exact (h.read id chain v call).trans version
      · rw [Function.update_of_ne hne] at hdata
        exact (h.stored token data hdata).trans version
  | dropRefresh ht =>
    subst ht
    exact ⟨fun token data hdata => h.stored token data (refreshTokens_of_drop hdata), h.read⟩
  | putReset ht =>
    subst ht
    exact ⟨h.stored, h.read⟩
  | dropReset ht =>
    subst ht
    exact ⟨h.stored, h.read⟩

/-- The token was stored with the version `v`, which the user has no more. -/
structure Revoked (token v : ℕ) (s : Tracked Password Hash) : Prop where
  issued : s.refreshLedger.issued token
  older : v < s.auth.version
  stored : ∀ data, s.auth.refreshTokens token = some data → data.pwV = v
  refused : ∀ id c, s.origin id = some (.refresh token) → s.auth.calls id = some c → c.IsRefused token v

theorem Revoked.step {token v : ℕ} (h : Revoked token v s) {l : Label Password Salt}
    (hmoves : Moves s t l) : Revoked token v t := by
  have hissued := issued_step hmoves h.issued
  cases hmoves with
  | @start id call free isStart ht =>
    subst ht
    refine ⟨hissued, h.older, h.stored, fun j c horigin hc => ?_⟩
    have horigin' : Function.update s.origin id (some call) j = some (.refresh token) := horigin
    rcases of_calls_update hc with ⟨rfl, rfl⟩ | ⟨hne, hc⟩
    · rw [Function.update_self] at horigin'
      cases horigin'
      exact rfl
    · rw [Function.update_of_ne hne] at horigin'
      exact h.refused j c horigin' hc
  | @advance id salt c c' call calls version hadv origin resetIssued =>
    have hrefused : (s.origin id = some (.refresh token) → c.IsRefused token v → c'.IsRefused token v) →
        ∀ j d, t.origin j = some (.refresh token) → t.auth.calls j = some d → d.IsRefused token v := by
      intro hc j d horigin hd
      rw [calls] at hd
      rw [origin] at horigin
      rcases of_calls_update hd with ⟨rfl, rfl⟩ | ⟨-, hd⟩
      · exact hc horigin (h.refused j c horigin call)
      · exact h.refused j d horigin hd
    have holder := h.older.trans_le version
    cases hadv with
    | plain hrefresh _ hplain =>
      refine ⟨hissued, holder, fun data hdata => h.stored data (hrefresh ▸ hdata), hrefused fun _ => ?_⟩
      exact hplain.isRefused h.older
    | @refresh token' data chain stored hrefresh _ =>
      refine ⟨hissued, holder, fun data' hdata => ?_, hrefused fun _ hc => ?_⟩
      · rw [hrefresh] at hdata
        exact h.stored data' (refreshTokens_of_drop hdata)
      · have heq : token' = token := hc
        subst heq
        exact h.stored data stored
    | reset _ hrefresh _ =>
      exact ⟨hissued, holder, fun data hdata => h.stored data (hrefresh ▸ hdata), hrefused fun _ hc => hc.elim⟩
    | @issue chain v' hrefresh _ =>
      refine ⟨hissued, holder, fun data hdata => ?_, hrefused fun _ hc => hc.elim⟩
      have hne : token ≠ id := by
        rintro rfl
        obtain ⟨chain', hcall⟩ := h.issued
        rw [call] at hcall
        cases hcall
      rw [hrefresh, Function.update_of_ne hne] at hdata
      exact h.stored data hdata
  | dropRefresh ht =>
    subst ht
    exact ⟨hissued, h.older, fun data hdata => h.stored data (refreshTokens_of_drop hdata), h.refused⟩
  | putReset ht =>
    subst ht
    exact ⟨hissued, h.older, h.stored, h.refused⟩
  | dropReset ht =>
    subst ht
    exact ⟨hissued, h.older, h.stored, h.refused⟩

/-- A token that is outdated when nobody has taken it is revoked. -/
theorem Outdated.revoked {token : ℕ} (h : s.Outdated token) (hstarted : s.Started) (hversions : s.Versions)
    (hledger : s.refreshLedger.Inv) : ∃ v, Revoked token v s := by
  obtain ⟨data, hdata, hpwV⟩ := h
  have hlive : s.refreshLedger.live token := by
    show s.auth.refreshTokens token ≠ none
    rw [hdata]
    exact Option.some_ne_none data
  refine ⟨data.pwV, hledger.issued_of_live token hlive, ?_, fun data' hdata' => ?_, fun id c horigin hc => ?_⟩
  · have hle := hversions.stored token data hdata
    omega
  · rw [hdata] at hdata'
    rw [Option.some.inj hdata']
  · have hnot : ¬ c.HasToken := fun hhas => hledger.not_taken_of_live token id hlive ⟨horigin, c, hc, hhas⟩
    cases c with
    | refresh token' =>
      have heq := (hstarted id _ hc rfl).symm.trans horigin
      cases heq
      exact rfl
    | failed error => trivial
    | _ => exact absurd trivial hnot

/-- A password change that bumps the version outdates every token that is stored. -/
theorem outdated_of_bump (h : s.Versions) {id epoch : ℕ} {salt : Salt} (hcall : s.auth.calls id = some (.bump epoch))
    (hstep : s.step H (.advance id salt) = some t) {token : ℕ} (hlive : s.refreshLedger.live token) :
    t.Outdated token := by
  obtain ⟨data, hdata⟩ := Option.ne_none_iff_exists'.mp hlive
  obtain ⟨auth, hauth, rfl⟩ := Option.map_eq_some_iff.mp hstep
  unfold AuthState.step at hauth
  simp only [hcall, Option.bind_some] at hauth
  cases hauth
  refine ⟨data, hdata, ?_⟩
  have hle := h.stored token data hdata
  show data.pwV ≠ s.auth.version + 1
  omega

/-! ## Runs -/

/-- What is known of every state. -/
structure Known (s : Tracked Password Hash) : Prop where
  started : s.Started
  versions : s.Versions

theorem registered_calls {hash : Hash} {isActive : Bool} {pwV : Option ℕ} {id : ℕ} {c : Call Password}
    (h : (registered hash isActive pwV : Tracked Password Hash).auth.calls id = some c) :
    c = .issueRead ⟨0, none⟩ := by
  rcases of_calls_update h with ⟨-, hc⟩ | ⟨-, hc⟩
  · exact hc
  · cases hc

theorem registered_known (hash : Hash) (isActive : Bool) (pwV : Option ℕ) :
    (registered hash isActive pwV : Tracked Password Hash).Known where
  started := by
    intro id c hc hstart
    rw [registered_calls hc] at hstart
    cases hstart
  versions := by
    constructor
    · intro token data hdata
      cases hdata
    · intro id chain v hc
      cases registered_calls hc

/-- No token has been issued. -/
theorem registered_refreshLedger (hash : Hash) (isActive : Bool) (pwV : Option ℕ) :
    (registered hash isActive pwV : Tracked Password Hash).refreshLedger.Inv where
  issued_of_live := fun _ hlive => absurd rfl hlive
  issued_of_taken := by
    rintro token id ⟨horigin, -⟩
    cases horigin
  not_taken_of_live := fun _ _ hlive => absurd rfl hlive
  unique := by
    rintro token i j ⟨horigin, -⟩
    cases horigin

theorem registered_resetLedger (hash : Hash) (isActive : Bool) (pwV : Option ℕ) :
    (registered hash isActive pwV : Tracked Password Hash).resetLedger.Inv where
  issued_of_live := fun _ hlive => absurd hlive Bool.false_ne_true
  issued_of_taken := by
    rintro token id ⟨⟨newPassword, horigin⟩, -⟩
    cases horigin
  not_taken_of_live := fun _ _ hlive => absurd hlive Bool.false_ne_true
  unique := by
    rintro token i j ⟨⟨newPassword, horigin⟩, -⟩
    cases horigin

/-- Along a run no reset token is taken twice, and one that is gone is not taken again. -/
theorem resetLedger_of_run
    (hrun : Run (fun s (l : Label Password Salt) t => s.step H l = some t) FreshTokens s t)
    (hknown : s.Known) (hledger : s.resetLedger.Inv) :
    t.Known ∧ t.resetLedger.Inv ∧ ∀ token, s.resetLedger.Spent token →
      t.resetLedger.Spent token ∧ ∀ id, t.resetLedger.taken token id → s.resetLedger.taken token id := by
  refine ledger_of_run hrun hknown hledger fun s l t hknown hfresh hstep => ?_
  have hmoves := moves_of_step hstep
  exact ⟨⟨hknown.started.step hmoves, hknown.versions.step hmoves⟩,
    resetLedger_step hknown.started hfresh hmoves⟩

/-- What holds of a state `s` that is reached and of a state `t` that is reached from it. -/
structure SingleUse (s t : Tracked Password Hash) : Prop where
  refresh : ∀ token i j, t.Refreshed token i → t.Refreshed token j → i = j
  reset : ∀ token i j, t.HasReset token i → t.HasReset token j → i = j
  /-- A refresh token that is gone in `s` refreshes only for the call that took it. -/
  refreshSpent : ∀ token i, s.refreshLedger.Spent token → t.Refreshed token i → s.refreshLedger.taken token i
  /-- A token with an old version refreshes for nobody. -/
  refreshOutdated : ∀ token i, s.Outdated token → ¬ t.Refreshed token i
  /-- A reset token that is gone in `s` resets only for the call that took it. -/
  resetSpent : ∀ token i, s.resetLedger.Spent token → t.HasReset token i → s.resetLedger.taken token i

/-- In every interleaving of logins, refreshes, logouts, password changes, resets and expiries
    in which the reset tokens that are generated are distinct. -/
theorem singleUse_of_run (H : Hasher Password Hash Salt) (hash : Hash) (isActive : Bool) (pwV : Option ℕ)
    (hrun : Run (fun s (l : Label Password Salt) t => s.step H l = some t) FreshTokens
      (registered hash isActive pwV) s)
    (hrun' : Run (fun s (l : Label Password Salt) t => s.step H l = some t) FreshTokens s t) :
    s.SingleUse t := by
  have hrefreshStep : ∀ (s : Tracked Password Hash) (l : Label Password Salt) t, s.Known → s.FreshTokens l →
      s.step H l = some t → t.Known ∧ s.refreshLedger.Step t.refreshLedger := fun s l t hknown _ hstep =>
    have hmoves := moves_of_step hstep
    ⟨⟨hknown.started.step hmoves, hknown.versions.step hmoves⟩, refreshLedger_step hknown.started hmoves⟩
  obtain ⟨hknown, hrefresh, -⟩ := ledger_of_run hrun (registered_known hash isActive pwV)
    (registered_refreshLedger hash isActive pwV) hrefreshStep
  obtain ⟨-, hreset, -⟩ := resetLedger_of_run hrun (registered_known hash isActive pwV)
    (registered_resetLedger hash isActive pwV)
  obtain ⟨-, hrefresh', hspent⟩ := ledger_of_run hrun' hknown hrefresh hrefreshStep
  obtain ⟨-, hreset', hresetSpent⟩ := resetLedger_of_run hrun' hknown hreset
  refine ⟨fun token i j hi hj => hrefresh'.unique token i j hi.taken hj.taken,
    fun token i j hi hj => hreset'.unique token i j hi.taken hj.taken,
    fun token i hgone hi => (hspent token hgone).2 i hi.taken, ?_,
    fun token i hgone hi => (hresetSpent token hgone).2 i hi.taken⟩
  rintro token i houtdated ⟨horigin, chain, hcall⟩
  obtain ⟨v, hrevoked⟩ := houtdated.revoked hknown.started hknown.versions hrefresh
  have hrevoked' : Revoked token v t := hrun'.invariant hrevoked
    fun _ _ _ h _ hstep => h.step (moves_of_step hstep)
  exact hrevoked'.refused i _ horigin hcall

end Tracked

end Nivara.Auth
