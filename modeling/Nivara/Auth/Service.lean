import Mathlib

/-!
# `AuthService`, one user

The calls of `services/auth.py` that read or write a user's password and refresh
tokens, as a transition system: each Redis command and each database read or
commit is one step, and a call keeps what it has read in its `Call`.

* The password hasher (`argon2`) is a parameter. A hash is salted, so a step that
  hashes takes the salt.
* A call issues at most one refresh token. `generate_refresh_token` gives a new one,
  so the token is named by the call.
* A key with a TTL may vanish at any time.
* `UserRow.epoch`, `RefreshToken.epoch`, `Chain` and the two counters at the end of
  `AuthState` are history: no step of the code reads them. An epoch numbers the
  password changes in the order of their commits; a `Chain` says which password the
  login at the start of a token's history was verified against.
-/

namespace Nivara.Auth

/-- `argon2.PasswordHasher`: `hash(password)` draws a salt. -/
structure Hasher (Password Hash Salt : Type) where
  verify : Hash → Password → Bool
  hash : Password → Salt → Hash
  checkNeedsRehash : Hash → Bool

/-- The user's row in the database. -/
structure UserRow (Hash : Type) where
  passwordHash : Hash
  isActive : Bool
  /-- Which password change wrote the password. -/
  epoch : ℕ

/-- The value of `auth:rt:{token}`. -/
structure RefreshToken where
  pwV : ℕ
  /-- The password of the login the token goes back to. -/
  epoch : ℕ
  deriving DecidableEq

/-- Where a pair of tokens comes from. -/
structure Chain where
  /-- The password the login at the start was verified against. -/
  epoch : ℕ
  /-- For a refresh: the newest password change that was complete when it started. -/
  since : Option ℕ
  deriving DecidableEq

/-- An `HTTPException`. -/
structure HttpError where
  status : ℕ
  detail : String
  deriving DecidableEq, Repr

def invalidCredentials : HttpError := ⟨401, "Invalid credentials"⟩
def invalidRefreshToken : HttpError := ⟨401, "Invalid or expired refresh token"⟩
def refreshTokenInvalidated : HttpError := ⟨401, "Refresh token invalidated (password changed)"⟩
def userNoLongerActive : HttpError := ⟨401, "User no longer active"⟩
def currentPasswordIncorrect : HttpError := ⟨401, "Current password incorrect"⟩
def invalidResetToken : HttpError := ⟨400, "Invalid or expired reset token"⟩
def notAuthenticated : HttpError := ⟨401, "Not authenticated"⟩

/-- A call, by the step it takes next. -/
inductive Call (Password : Type)
  /-- `login`: `SELECT` the user. -/
  | login (password : Password)
  /-- `login`: commit the rehashed password. -/
  | loginRehash (password : Password) (epoch : ℕ)
  /-- `login`: `session.refresh(user)`. -/
  | loginReload (epoch : ℕ)
  /-- `refresh`: `GETDEL auth:rt:{token}`. -/
  | refresh (token : ℕ)
  /-- `refresh`: `GET auth:pwv` and the comparison. -/
  | refreshVersion (pwV : ℕ) (chain : Chain)
  /-- `refresh`: `session.get(User)`. -/
  | refreshUser (chain : Chain)
  /-- `change_password`: the row `get_current_user` reads, and the verification. -/
  | changePassword (currentPassword newPassword : Password)
  /-- `change_password`: commit the new hash. -/
  | changeCommit (newPassword : Password)
  /-- `reset_password`: `GETDEL auth:pwreset:{sha256(token)}`. -/
  | resetPassword (token : ℕ) (newPassword : Password)
  /-- `reset_password`: `session.get(User)`. -/
  | resetUser (newPassword : Password)
  /-- `reset_password`: commit the new hash. -/
  | resetCommit (newPassword : Password)
  /-- `_bump_pw_version`: `INCR auth:pwv`. -/
  | bump (epoch : ℕ)
  /-- `_issue_tokens`: `GET auth:pwv`. -/
  | issueRead (chain : Chain)
  /-- `_issue_tokens`: `SET auth:rt:{token}`. -/
  | issueSet (chain : Chain) (pwV : ℕ)
  /-- The call has returned a token pair. -/
  | tokens (chain : Chain)
  /-- The password change is complete. -/
  | changed (epoch : ℕ)
  /-- The call has raised. -/
  | failed (error : HttpError)
  deriving DecidableEq

/-- The calls of the interface, before their first step. -/
def Call.IsStart {Password : Type} : Call Password → Bool
  | login _ => true
  | refresh _ => true
  | changePassword _ _ => true
  | resetPassword _ _ => true
  | _ => false

/-- The user's row, the user's keys in Redis and the calls in progress. -/
structure AuthState (Password Hash : Type) where
  user : UserRow Hash
  /-- `auth:pwv:{user_id}`. -/
  pwV : Option ℕ
  /-- `auth:rt:{token}`. -/
  refreshTokens : ℕ → Option RefreshToken
  /-- The reset tokens whose key `auth:pwreset:{sha256(token)}` exists. -/
  resetTokens : ℕ → Bool
  calls : ℕ → Option (Call Password)
  /-- How many password changes have been committed. -/
  commits : ℕ
  /-- The newest password change whose call is complete. -/
  completed : ℕ

/-- What happens next. -/
inductive Label (Password Salt : Type)
  /-- A request arrives. -/
  | start (id : ℕ) (call : Call Password)
  /-- The call takes its next step. -/
  | advance (id : ℕ) (salt : Salt)
  /-- The key of a refresh token expires, or `logout` deletes it. -/
  | dropRefresh (token : ℕ)
  /-- `request_password_reset` sets the key of a reset token. -/
  | putReset (token : ℕ)
  /-- The key of a reset token expires. -/
  | dropReset (token : ℕ)

variable {Password Hash Salt : Type}

namespace AuthState

/-- `_get_pw_version`. -/
def version (s : AuthState Password Hash) : ℕ := s.pwV.getD 0

/-- The call goes on with `c`. -/
def goto (s : AuthState Password Hash) (id : ℕ) (c : Call Password) : AuthState Password Hash :=
  { s with calls := Function.update s.calls id (some c) }

/-- The commit of a changed password. -/
def commitPassword (s : AuthState Password Hash) (hash : Hash) : AuthState Password Hash :=
  { s with
    user := { s.user with passwordHash := hash, epoch := s.commits + 1 }
    commits := s.commits + 1 }

variable (H : Hasher Password Hash Salt)

/-- The next step of a call. -/
def advance (s : AuthState Password Hash) (id : ℕ) (salt : Salt) :
    Call Password → Option (AuthState Password Hash)
  | .login password =>
    if s.user.isActive = false then some (s.goto id (.failed invalidCredentials))
    else if H.verify s.user.passwordHash password = false then
      some (s.goto id (.failed invalidCredentials))
    else if H.checkNeedsRehash s.user.passwordHash then
      some (s.goto id (.loginRehash password s.user.epoch))
    else some (s.goto id (.issueRead ⟨s.user.epoch, none⟩))
  | .loginRehash password epoch =>
    some ({ s with user := { s.user with passwordHash := H.hash password salt, epoch := epoch } }.goto id
      (.loginReload epoch))
  | .loginReload epoch => some (s.goto id (.issueRead ⟨epoch, none⟩))
  | .refresh token =>
    match s.refreshTokens token with
    | none => some (s.goto id (.failed invalidRefreshToken))
    | some data =>
      some ({ s with refreshTokens := Function.update s.refreshTokens token none }.goto id
        (.refreshVersion data.pwV ⟨data.epoch, some s.completed⟩))
  | .refreshVersion pwV chain =>
    if pwV ≠ s.version then some (s.goto id (.failed refreshTokenInvalidated))
    else some (s.goto id (.refreshUser chain))
  | .refreshUser chain =>
    if s.user.isActive = false then some (s.goto id (.failed userNoLongerActive))
    else some (s.goto id (.issueRead chain))
  | .changePassword currentPassword newPassword =>
    if s.user.isActive = false then some (s.goto id (.failed notAuthenticated))
    else if H.verify s.user.passwordHash currentPassword = false then
      some (s.goto id (.failed currentPasswordIncorrect))
    else some (s.goto id (.changeCommit newPassword))
  | .changeCommit newPassword =>
    some ((s.commitPassword (H.hash newPassword salt)).goto id (.bump (s.commits + 1)))
  | .resetPassword token newPassword =>
    if s.resetTokens token then
      some ({ s with resetTokens := Function.update s.resetTokens token false }.goto id
        (.resetUser newPassword))
    else some (s.goto id (.failed invalidResetToken))
  | .resetUser newPassword =>
    if s.user.isActive = false then some (s.goto id (.failed invalidResetToken))
    else some (s.goto id (.resetCommit newPassword))
  | .resetCommit newPassword =>
    some ((s.commitPassword (H.hash newPassword salt)).goto id (.bump (s.commits + 1)))
  | .bump epoch =>
    some ({ s with pwV := some (s.version + 1), completed := max s.completed epoch }.goto id
      (.changed epoch))
  | .issueRead chain => some (s.goto id (.issueSet chain s.version))
  | .issueSet chain pwV =>
    some ({ s with
      refreshTokens := Function.update s.refreshTokens id (some ⟨pwV, chain.epoch⟩) }.goto id
        (.tokens chain))
  | .tokens _ => none
  | .changed _ => none
  | .failed _ => none

/-- One step of the system. -/
def step (s : AuthState Password Hash) : Label Password Salt → Option (AuthState Password Hash)
  | .start id call =>
    if s.calls id = none ∧ call.IsStart then some (s.goto id call) else none
  | .advance id salt => (s.calls id).bind (s.advance H id salt)
  | .dropRefresh token =>
    some { s with refreshTokens := Function.update s.refreshTokens token none }
  | .putReset token => some { s with resetTokens := Function.update s.resetTokens token true }
  | .dropReset token => some { s with resetTokens := Function.update s.resetTokens token false }

end AuthState

/-- A user, before any call: no token, no call, the password of epoch 0. -/
def initial (hash : Hash) (isActive : Bool) (pwV : Option ℕ) : AuthState Password Hash where
  user := ⟨hash, isActive, 0⟩
  pwV := pwV
  refreshTokens := fun _ => none
  resetTokens := fun _ => false
  calls := fun _ => none
  commits := 0
  completed := 0

/-! ## What a step of a call does -/

section

variable (H : Hasher Password Hash Salt) (s : AuthState Password Hash) (id : ℕ) (salt : Salt)

/-- A step of the call `id`: from where, what becomes of the state, and what the call goes on with. -/
inductive AuthState.Goes : Call Password → AuthState Password Hash → Call Password → Prop
  | loginFails {password : Password} : Goes (.login password) s (.failed invalidCredentials)
  | loginRehashes {password : Password} :
    Goes (.login password) s (.loginRehash password s.user.epoch)
  | loginIssues {password : Password} : Goes (.login password) s (.issueRead ⟨s.user.epoch, none⟩)
  | rehashes {password : Password} {epoch : ℕ} :
    Goes (.loginRehash password epoch)
      { s with user := { s.user with passwordHash := H.hash password salt, epoch := epoch } }
      (.loginReload epoch)
  | reloads {epoch : ℕ} : Goes (.loginReload epoch) s (.issueRead ⟨epoch, none⟩)
  | refreshFails {token : ℕ} : Goes (.refresh token) s (.failed invalidRefreshToken)
  | refreshTakes {token : ℕ} {data : RefreshToken} (stored : s.refreshTokens token = some data) :
    Goes (.refresh token) { s with refreshTokens := Function.update s.refreshTokens token none }
      (.refreshVersion data.pwV ⟨data.epoch, some s.completed⟩)
  | outdated {pwV : ℕ} {chain : Chain} :
    Goes (.refreshVersion pwV chain) s (.failed refreshTokenInvalidated)
  | current {pwV : ℕ} {chain : Chain} (hversion : pwV = s.version) :
    Goes (.refreshVersion pwV chain) s (.refreshUser chain)
  | refreshInactive {chain : Chain} : Goes (.refreshUser chain) s (.failed userNoLongerActive)
  | refreshIssues {chain : Chain} : Goes (.refreshUser chain) s (.issueRead chain)
  | changeFails {currentPassword newPassword : Password} {error : HttpError} :
    Goes (.changePassword currentPassword newPassword) s (.failed error)
  | changeVerifies {currentPassword newPassword : Password} :
    Goes (.changePassword currentPassword newPassword) s (.changeCommit newPassword)
  | changeCommits {newPassword : Password} :
    Goes (.changeCommit newPassword) (s.commitPassword (H.hash newPassword salt))
      (.bump (s.commits + 1))
  | resetTakes {token : ℕ} {newPassword : Password} (stored : s.resetTokens token = true) :
    Goes (.resetPassword token newPassword)
      { s with resetTokens := Function.update s.resetTokens token false } (.resetUser newPassword)
  | resetFails {token : ℕ} {newPassword : Password} :
    Goes (.resetPassword token newPassword) s (.failed invalidResetToken)
  | resetInactive {newPassword : Password} :
    Goes (.resetUser newPassword) s (.failed invalidResetToken)
  | resetVerifies {newPassword : Password} :
    Goes (.resetUser newPassword) s (.resetCommit newPassword)
  | resetCommits {newPassword : Password} :
    Goes (.resetCommit newPassword) (s.commitPassword (H.hash newPassword salt))
      (.bump (s.commits + 1))
  | bumps {epoch : ℕ} :
    Goes (.bump epoch)
      { s with pwV := some (s.version + 1), completed := max s.completed epoch } (.changed epoch)
  | reads {chain : Chain} : Goes (.issueRead chain) s (.issueSet chain s.version)
  | sets {chain : Chain} {pwV : ℕ} :
    Goes (.issueSet chain pwV)
      { s with refreshTokens := Function.update s.refreshTokens id (some ⟨pwV, chain.epoch⟩) }
      (.tokens chain)

variable {H s id salt}

/-- A step does one of these, and the call goes on. -/
theorem AuthState.goes_of_advance {t : AuthState Password Hash} {c : Call Password}
    (h : s.advance H id salt c = some t) : ∃ s' c', s.Goes H id salt c s' c' ∧ t = s'.goto id c' := by
  unfold AuthState.advance at h
  cases c with
  | login password =>
    simp only at h
    split_ifs at h <;> cases h
    · exact ⟨_, _, .loginFails, rfl⟩
    · exact ⟨_, _, .loginFails, rfl⟩
    · exact ⟨_, _, .loginRehashes, rfl⟩
    · exact ⟨_, _, .loginIssues, rfl⟩
  | loginRehash password epoch =>
    cases h
    exact ⟨_, _, .rehashes, rfl⟩
  | loginReload epoch =>
    cases h
    exact ⟨_, _, .reloads, rfl⟩
  | refresh token =>
    cases hstored : s.refreshTokens token with
    | none =>
      simp only [hstored] at h
      cases h
      exact ⟨_, _, .refreshFails, rfl⟩
    | some data =>
      simp only [hstored] at h
      cases h
      exact ⟨_, _, .refreshTakes hstored, rfl⟩
  | refreshVersion pwV chain =>
    simp only at h
    split_ifs at h with hversion <;> cases h
    · exact ⟨_, _, .outdated, rfl⟩
    · exact ⟨_, _, .current (not_not.mp hversion), rfl⟩
  | refreshUser chain =>
    simp only at h
    split_ifs at h <;> cases h
    · exact ⟨_, _, .refreshInactive, rfl⟩
    · exact ⟨_, _, .refreshIssues, rfl⟩
  | changePassword currentPassword newPassword =>
    simp only at h
    split_ifs at h <;> cases h
    · exact ⟨_, _, .changeFails, rfl⟩
    · exact ⟨_, _, .changeFails, rfl⟩
    · exact ⟨_, _, .changeVerifies, rfl⟩
  | changeCommit newPassword =>
    cases h
    exact ⟨_, _, .changeCommits, rfl⟩
  | resetPassword token newPassword =>
    simp only at h
    split_ifs at h with hstored <;> cases h
    · exact ⟨_, _, .resetTakes hstored, rfl⟩
    · exact ⟨_, _, .resetFails, rfl⟩
  | resetUser newPassword =>
    simp only at h
    split_ifs at h <;> cases h
    · exact ⟨_, _, .resetInactive, rfl⟩
    · exact ⟨_, _, .resetVerifies, rfl⟩
  | resetCommit newPassword =>
    cases h
    exact ⟨_, _, .resetCommits, rfl⟩
  | bump epoch =>
    cases h
    exact ⟨_, _, .bumps, rfl⟩
  | issueRead chain =>
    cases h
    exact ⟨_, _, .reads, rfl⟩
  | issueSet chain pwV =>
    cases h
    exact ⟨_, _, .sets, rfl⟩
  | tokens chain => cases h
  | changed epoch => cases h
  | failed error => cases h

end

end Nivara.Auth
