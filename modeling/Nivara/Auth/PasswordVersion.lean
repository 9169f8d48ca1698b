import Nivara.Auth.Service
import Nivara.Lib.Transition

/-!
# Refresh tokens after a password change

`refresh` compares the version in the token with `auth:pwv`, but `_issue_tokens`
reads `auth:pwv` again for the pair it issues, and so does `login` after it has
verified the password. A password change that completes in between gives its own
version to a pair that goes back to an earlier password.

Results:

* `AuthState.Inv`: a stored version is at most the current one, and is below it when
  a newer password change than the token's login is complete.
* `refresh_of_run`: in every interleaving in which no pair is issued after such a
  change, a refresh that starts after a password change never returns for a token
  that goes back to an earlier password.
-/

namespace Nivara.Auth

open Transition

variable {Password Hash Salt : Type} {H : Hasher Password Hash Salt}
  {s t : AuthState Password Hash}

/-! ## What is to hold -/

/-- A refresh that has returned a pair for a token that goes back to a password older
    than the newest change complete at its start. -/
def Chain.Stale (chain : Chain) : Prop := ∃ w ∈ chain.since, chain.epoch < w

/-- No refresh has returned a pair for such a token. -/
def AuthState.NoStaleRefresh (s : AuthState Password Hash) : Prop :=
  ∀ id chain, s.calls id = some (.tokens chain) → ¬ chain.Stale

/-- The condition on a step: where `_issue_tokens` reads the version, no password
    change newer than the login of the chain is complete. -/
def AuthState.IssuesInTime (s : AuthState Password Hash) : Label Password Salt → Prop
  | .advance id _ =>
    match s.calls id with
    | some (.issueRead chain) => s.completed ≤ chain.epoch
    | _ => True
  | _ => True

instance (s : AuthState Password Hash) (l : Label Password Salt) : Decidable (s.IssuesInTime l) := by
  unfold AuthState.IssuesInTime
  split
  · split <;> infer_instance
  · infer_instance

/-! ## The invariant -/

/-- A version that was read for a login with the password of an epoch: not ahead of the
    counter, and behind it when a newer password change is complete. -/
def AuthState.VersionOk (s : AuthState Password Hash) (epoch v : ℕ) : Prop :=
  v ≤ s.version ∧ (epoch < s.completed → v < s.version)

/-- What a call in progress knows. -/
def AuthState.CallOk (s : AuthState Password Hash) : Call Password → Prop
  | .refreshVersion v chain => v ≤ s.version ∧ (chain.Stale → v < s.version)
  | .refreshUser chain => ¬ chain.Stale
  | .issueRead chain => ¬ chain.Stale
  | .issueSet chain v => ¬ chain.Stale ∧ s.VersionOk chain.epoch v
  | .tokens chain => ¬ chain.Stale
  | _ => True

/-- The invariant of the interleaving. -/
structure AuthState.Inv (s : AuthState Password Hash) : Prop where
  tokens : ∀ token data, s.refreshTokens token = some data → s.VersionOk data.epoch data.pwV
  calls : ∀ id c, s.calls id = some c → s.CallOk c

/-- The counter never goes back, and it grows with every completed change. -/
def AuthState.Grows (s t : AuthState Password Hash) : Prop :=
  s.version ≤ t.version ∧ (t.completed = s.completed ∨ s.version < t.version)

theorem AuthState.Grows.of_eq (hv : t.pwV = s.pwV) (hc : t.completed = s.completed) : s.Grows t := by
  unfold AuthState.Grows AuthState.version
  rw [hv]
  exact ⟨le_refl _, .inl hc⟩

theorem AuthState.VersionOk.mono {epoch v : ℕ} (h : s.VersionOk epoch v) (hg : s.Grows t) :
    t.VersionOk epoch v := by
  obtain ⟨hle, hlt⟩ := h
  obtain ⟨hv, hc⟩ := hg
  refine ⟨by omega, fun he => ?_⟩
  rcases hc with hc | hc
  · have := hlt (hc ▸ he)
    omega
  · omega

theorem AuthState.CallOk.mono {c : Call Password} (h : s.CallOk c) (hg : s.Grows t) : t.CallOk c := by
  cases c with
  | refreshVersion v chain =>
    obtain ⟨hle, hlt⟩ := h
    have hv := hg.1
    exact ⟨by omega, fun hs => by have := hlt hs; omega⟩
  | issueSet chain v => exact ⟨h.1, h.2.mono hg⟩
  | _ => exact h

/-- A step of a call keeps the invariant when the counter grows, the stored tokens are
    old ones or in order, and what the call goes on with is in order. -/
theorem AuthState.Inv.goto (h : s.Inv) (hg : s.Grows t) (hcalls : t.calls = s.calls)
    (htokens : ∀ token data, t.refreshTokens token = some data →
      s.refreshTokens token = some data ∨ t.VersionOk data.epoch data.pwV)
    {id : ℕ} {c : Call Password} (hc : t.CallOk c) : (t.goto id c).Inv := by
  have hgoto : t.Grows (t.goto id c) := .of_eq rfl rfl
  constructor
  · intro token data hd
    rcases htokens token data hd with hold | hnew
    · exact ((h.tokens token data hold).mono hg).mono hgoto
    · exact hnew.mono hgoto
  · intro j d hd
    by_cases hj : j = id
    · have hcd : c = d := by
        have hup : (t.goto id c).calls id = some c := Function.update_self ..
        rw [hj, hup] at hd
        exact Option.some.inj hd
      exact hcd ▸ hc.mono hgoto
    · have hold : s.calls j = some d := by
        have hup : (t.goto id c).calls j = t.calls j := Function.update_of_ne hj ..
        rw [hup, hcalls] at hd
        exact hd
      exact ((h.calls j d hold).mono hg).mono hgoto

/-- The same for a step that touches nothing but the calls. -/
theorem AuthState.Inv.goto_self (h : s.Inv) {id : ℕ} {c : Call Password} (hc : s.CallOk c) :
    (s.goto id c).Inv :=
  h.goto (.of_eq rfl rfl) rfl (fun _ _ hd => .inl hd) hc

/-- Neither the user's row nor a reset token matters to the invariant. -/
theorem AuthState.Inv.setUser (h : s.Inv) (user : UserRow Hash) (resetTokens : ℕ → Bool)
    (commits : ℕ) :
    AuthState.Inv { s with user := user, resetTokens := resetTokens, commits := commits } :=
  ⟨h.tokens, h.calls⟩

/-- A key that is dropped leaves no new token. -/
theorem refreshTokens_of_drop {token token' : ℕ} {data : RefreshToken}
    (h : Function.update s.refreshTokens token none token' = some data) :
    s.refreshTokens token' = some data := by
  by_cases ht : token' = token
  · rw [ht, Function.update_self] at h; cases h
  · rwa [Function.update_of_ne ht] at h

/-- The token a call has set is in order when its version is. -/
theorem issueSet_tokens {id token : ℕ} {chain : Chain} {v : ℕ} {data : RefreshToken}
    (h : Function.update s.refreshTokens id (some ⟨v, chain.epoch⟩) token = some data)
    (hv : s.VersionOk chain.epoch v) :
    s.refreshTokens token = some data ∨ s.VersionOk data.epoch data.pwV := by
  by_cases ht : token = id
  · rw [ht, Function.update_self] at h
    rw [← Option.some.inj h]
    exact .inr hv
  · rw [Function.update_of_ne ht] at h
    exact .inl h

/-! ## One step -/

/-- The next step of a call keeps the invariant. -/
theorem AuthState.Inv.advance (h : s.Inv) {id : ℕ} {salt : Salt} {c : Call Password}
    (hcall : s.calls id = some c)
    (hcond : s.IssuesInTime (.advance id salt)) (hstep : s.advance H id salt c = some t) : t.Inv := by
  have hok := h.calls id c hcall
  have hfresh : ∀ epoch, ¬ (Chain.Stale ⟨epoch, none⟩) := by
    rintro epoch ⟨w, hw, -⟩
    cases hw
  obtain ⟨s', c', hgoes, rfl⟩ := goes_of_advance hstep
  cases hgoes with
  | loginFails | loginRehashes | refreshFails | outdated | refreshInactive | changeFails | changeVerifies
  | resetFails | resetInactive | resetVerifies => exact h.goto_self trivial
  | loginIssues | reloads => exact h.goto_self (hfresh _)
  | rehashes | changeCommits | resetTakes | resetCommits => exact (h.setUser _ _ _).goto_self trivial
  | refreshTakes stored =>
    obtain ⟨hle, hlt⟩ := h.tokens _ _ stored
    refine h.goto ?_ ?_ (fun _ _ hd' => .inl (refreshTokens_of_drop hd')) ?_
    · exact .of_eq rfl rfl
    · rfl
    · refine ⟨hle, ?_⟩
      rintro ⟨w, hw, hlow⟩
      cases hw
      exact hlt hlow
  | current hversion =>
    -- the versions are equal, so no newer change was complete when the refresh started
    refine h.goto_self fun hs => ?_
    have hlow := hok.2 hs
    omega
  | refreshIssues => exact h.goto_self hok
  | @bumps epoch =>
    have hg : s.Grows
        { s with pwV := some (s.version + 1), completed := max s.completed epoch } :=
      ⟨Nat.le_succ _, .inr (Nat.lt_succ_self _)⟩
    exact h.goto hg rfl (fun _ _ hd => .inl hd) trivial
  | @reads chain =>
    have hle : s.completed ≤ chain.epoch := by simpa [AuthState.IssuesInTime, hcall] using hcond
    exact h.goto_self ⟨hok, le_refl _, fun hlow => by omega⟩
  | sets =>
    obtain ⟨hnot, hv⟩ := hok
    refine h.goto ?_ ?_ (fun token data hd => ?_) ?_
    · exact .of_eq rfl rfl
    · rfl
    · exact issueSet_tokens hd hv
    · exact hnot

/-- One step of the system keeps the invariant. -/
theorem AuthState.Inv.step (h : s.Inv) {l : Label Password Salt} (hcond : s.IssuesInTime l)
    (hstep : s.step H l = some t) : t.Inv := by
  unfold AuthState.step at hstep
  cases l with
  | start id call =>
    simp only at hstep
    split_ifs at hstep with hstart
    cases hstep
    have hok : s.CallOk call := by
      obtain ⟨-, hs⟩ := hstart
      cases call <;> first | exact trivial | exact absurd hs Bool.false_ne_true
    exact h.goto_self hok
  | advance id salt =>
    obtain ⟨c, hc, hadv⟩ := Option.bind_eq_some_iff.mp hstep
    exact h.advance hc hcond hadv
  | dropRefresh token =>
    cases hstep
    exact ⟨fun _ _ hd => h.tokens _ _ (refreshTokens_of_drop hd), h.calls⟩
  | putReset token =>
    cases hstep
    exact h.setUser _ _ _
  | dropReset token =>
    cases hstep
    exact h.setUser _ _ _

/-! ## Runs -/

theorem initial_inv (hash : Hash) (isActive : Bool) (pwV : Option ℕ) :
    (initial hash isActive pwV : AuthState Password Hash).Inv := by
  constructor
  · intro token data h; cases h
  · intro id c h; cases h

/-- In every interleaving of login, refresh, change_password and reset_password calls
    in which `_issue_tokens` never reads the version after a password change newer than
    the login of its chain is complete: no refresh that starts after a password change
    is complete returns for a token that goes back to an earlier password. -/
theorem refresh_of_run (H : Hasher Password Hash Salt) (hash : Hash) (isActive : Bool)
    (pwV : Option ℕ) (s : AuthState Password Hash)
    (hrun : Run (fun s (l : Label Password Salt) t => s.step H l = some t)
      (fun s l => s.IssuesInTime l) (initial hash isActive pwV) s) :
    s.NoStaleRefresh := by
  have hinv : s.Inv := hrun.invariant (initial_inv hash isActive pwV)
    fun _ _ _ h hcond hstep => h.step hcond hstep
  intro id chain hc
  exact hinv.calls id _ hc

/-- A hash is the password with its salt. -/
def sampleHasher : Hasher String (String × ℕ) ℕ where
  verify hash password := hash.1 = password
  hash password salt := (password, salt)
  checkNeedsRehash _ := false

/-- A user whose password is "old". -/
def sampleUser : AuthState String (String × ℕ) := initial ("old", 0) true none

/-- A login, a password change that completes after it, and a refresh with the login's
    token. -/
theorem refresh_of_run_sample :
    ∃ s, ([.start 0 (.login "old"), .advance 0 0, .advance 0 0, .advance 0 0,
        .start 1 (.changePassword "old" "new"), .advance 1 0, .advance 1 1, .advance 1 0,
        .start 2 (.refresh 0), .advance 2 0, .advance 2 0] : List (Label String ℕ)).foldlM
          (fun (s : AuthState String (String × ℕ)) l =>
            if s.IssuesInTime l then s.step sampleHasher l else none) sampleUser = some s ∧
      s.NoStaleRefresh := by
  obtain ⟨s, hs⟩ := Option.isSome_iff_exists.mp (show (([.start 0 (.login "old"), .advance 0 0,
    .advance 0 0, .advance 0 0, .start 1 (.changePassword "old" "new"), .advance 1 0, .advance 1 1,
    .advance 1 0, .start 2 (.refresh 0), .advance 2 0, .advance 2 0] : List (Label String ℕ)).foldlM
      (fun (s : AuthState String (String × ℕ)) l =>
            if s.IssuesInTime l then s.step sampleHasher l else none) sampleUser).isSome by
        decide +kernel)
  exact ⟨s, hs, refresh_of_run sampleHasher ("old", 0) true none s (Run.of_foldlM_guarded _ hs)⟩

/-- A login verifies the old password, the password change completes, the login issues
    its pair, and a refresh that starts afterwards returns for it. -/
theorem login_across_password_change :
    ¬ ∀ s, Run (fun s (l : Label String ℕ) t => s.step sampleHasher l = some t) Unconditional
        sampleUser s → s.NoStaleRefresh := by
  intro h
  have hrun : (([.start 0 (.login "old"), .advance 0 0,
      .start 1 (.changePassword "old" "new"), .advance 1 0, .advance 1 1, .advance 1 0,
      .advance 0 0, .advance 0 0,
      .start 2 (.refresh 0), .advance 2 0, .advance 2 0, .advance 2 0, .advance 2 0, .advance 2 0] :
        List (Label String ℕ)).foldlM (AuthState.step sampleHasher) sampleUser).map (fun s => s.calls 2) =
      some (some (.tokens ⟨0, some 1⟩)) := by decide +kernel
  obtain ⟨s, hs, hcall⟩ := Option.map_eq_some_iff.mp hrun
  exact h s (Run.of_foldlM _ hs) 2 ⟨0, some 1⟩ hcall ⟨1, rfl, by decide⟩

end Nivara.Auth
