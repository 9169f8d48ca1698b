import Nivara.Auth.Tickets

/-!
# Reset tokens after a password change

A reset token is stored under its own digest, with the id of the user in it and no version
(`services/auth.py`, lines 302–306). `reset_password` consumes the one token it is given, and
neither it nor `change_password` knows of the others.

* `Outstanding`: the token is stored, or a `reset_password` has taken it and has yet to commit.
* `StillSets`: some continuation of the run sets a password with it.

Results:

* `outstanding_of_stillSets`, `stillSets_of_outstanding`: the two are one, for an active user.
* `stillSets_of_run`: the reset tokens that survive a completed change are those that were
  outstanding, and the one that a reset has consumed is not among them.
-/

namespace Nivara.Auth

open OneTime Transition

variable {Password Hash Salt : Type}

/-! ## What a token can still do -/

/-- A `reset_password` that has its token and has yet to commit. -/
def Call.IsResetting : Call Password → Prop
  | .resetUser _ => True
  | .resetCommit _ => True
  | _ => False

namespace Tracked

def Outstanding (s : Tracked Password Hash) (token : ℕ) : Prop :=
  s.auth.resetTokens token = true ∨
    ∃ id newPassword c, s.origin id = some (.resetPassword token newPassword) ∧
      s.auth.calls id = some c ∧ c.IsResetting

def StillSets (H : Hasher Password Hash Salt) (s : Tracked Password Hash) (token : ℕ) : Prop :=
  ∃ t, Run (fun s (l : Label Password Salt) t => s.step H l = some t) FreshTokens s t ∧
    ∃ id, t.HasReset token id ∧ ¬ s.HasReset token id

end Tracked

/-! ## The calls of `reset_password` -/

/-- Where a call of `reset_password` can be. -/
def Call.OfReset : Call Password → Prop
  | .resetPassword _ _ => True
  | .resetUser _ => True
  | .resetCommit _ => True
  | .bump _ => True
  | .changed _ => True
  | .failed error => error = invalidResetToken
  | _ => False

theorem advance_ofReset {H : Hasher Password Hash Salt} {s t : AuthState Password Hash} {id : ℕ}
    {salt : Salt} {c : Call Password} (h : s.advance H id salt c = some t) (hc : c.OfReset) :
    ∃ c', t.calls = Function.update s.calls id (some c') ∧ c'.OfReset := by
  obtain ⟨s', c', hgoes, rfl⟩ := AuthState.goes_of_advance h
  cases hgoes with
  | resetTakes | resetVerifies | resetCommits | bumps => exact ⟨_, rfl, trivial⟩
  | resetFails | resetInactive => exact ⟨_, rfl, rfl⟩
  | _ => exact hc.elim

namespace Tracked

variable {H : Hasher Password Hash Salt} {s t : Tracked Password Hash}

/-- Every call that has started as a `reset_password` is one. -/
def Resets (s : Tracked Password Hash) : Prop :=
  ∀ id token newPassword c, s.origin id = some (.resetPassword token newPassword) →
    s.auth.calls id = some c → c.OfReset

/-- The calls are finitely many. -/
def Bounded (s : Tracked Password Hash) : Prop := ∃ n, ∀ id, n ≤ id → s.auth.calls id = none

theorem Resets.step (h : s.Resets) {l : Label Password Salt} (hstep : s.step H l = some t) : t.Resets := by
  obtain ⟨auth, hauth, ht⟩ := Option.map_eq_some_iff.mp hstep
  unfold AuthState.step at hauth
  cases l with
  | start id call =>
    simp only at hauth
    split_ifs at hauth
    cases hauth
    subst ht
    intro j token newPassword c horigin hc
    have horigin' : Function.update s.origin id (some call) j = some (.resetPassword token newPassword) :=
      horigin
    rcases of_calls_update hc with ⟨rfl, rfl⟩ | ⟨hj, hc⟩
    · rw [Function.update_self] at horigin'
      cases horigin'
      trivial
    · rw [Function.update_of_ne hj] at horigin'
      exact h j token newPassword c horigin' hc
  | advance id salt =>
    obtain ⟨c, hcall, hadv⟩ := Option.bind_eq_some_iff.mp hauth
    subst ht
    intro j token newPassword d horigin hd
    by_cases hj : j = id
    · subst hj
      obtain ⟨c', hcalls, hc'⟩ := advance_ofReset hadv (h j token newPassword c horigin hcall)
      have hd' : auth.calls j = some d := hd
      rw [hcalls, Function.update_self] at hd'
      exact Option.some.inj hd' ▸ hc'
    · obtain ⟨c', hcalls, -⟩ := advance_cases hadv
      have hd' : auth.calls j = some d := hd
      rw [hcalls, Function.update_of_ne hj] at hd'
      exact h j token newPassword d horigin hd'
  | dropRefresh token => cases hauth; subst ht; exact h
  | putReset token => cases hauth; subst ht; exact h
  | dropReset token => cases hauth; subst ht; exact h

theorem Bounded.step (h : s.Bounded) {l : Label Password Salt} (hmoves : Moves s t l) : t.Bounded := by
  obtain ⟨n, hn⟩ := h
  cases hmoves with
  | @start id call _ _ ht =>
    subst ht
    refine ⟨max n (id + 1), fun j hj => ?_⟩
    have hne : j ≠ id := by omega
    exact (Function.update_of_ne hne ..).trans (hn j (by omega))
  | @advance id salt c c' call calls _ _ _ _ =>
    refine ⟨max n (id + 1), fun j hj => ?_⟩
    have hne : j ≠ id := by omega
    rw [calls, Function.update_of_ne hne]
    exact hn j (by omega)
  | dropRefresh ht => subst ht; exact ⟨n, hn⟩
  | putReset ht => subst ht; exact ⟨n, hn⟩
  | dropReset ht => subst ht; exact ⟨n, hn⟩

/-- What is known of a state that is reached. -/
structure ResetKnown (s : Tracked Password Hash) : Prop extends Known s where
  ledger : s.resetLedger.Inv
  resets : s.Resets
  bounded : s.Bounded

theorem resetKnown_of_run {hash : Hash} {isActive : Bool} {pwV : Option ℕ}
    (hrun : Run (fun s (l : Label Password Salt) t => s.step H l = some t) FreshTokens
      (registered hash isActive pwV) s) : s.ResetKnown := by
  obtain ⟨hknown, hledger, -⟩ := resetLedger_of_run hrun (registered_known hash isActive pwV)
    (registered_resetLedger hash isActive pwV)
  refine ⟨hknown, hledger, ?_, ?_⟩
  · refine hrun.invariant (fun id token newPassword c horigin _ => ?_) fun _ _ _ h _ hstep => h.step hstep
    cases horigin
  · refine hrun.invariant ⟨1, fun id hid => ?_⟩ fun _ _ _ h _ hstep => h.step (moves_of_step hstep)
    have hne : id ≠ 0 := by omega
    exact Function.update_of_ne hne ..

/-! ## Tokens that set a password -/

/-- A token that still sets a password is outstanding. -/
theorem outstanding_of_stillSets (h : s.ResetKnown) {token : ℕ} (hissued : s.resetIssued token = true)
    (hsets : s.StillSets H token) : s.Outstanding token := by
  obtain ⟨t, hrun, id, hreset, hbefore⟩ := hsets
  by_contra hnot
  obtain ⟨hlive, hresetting⟩ := not_or.mp hnot
  -- the token is gone, so the call that sets the password has it already
  obtain ⟨-, -, hspent⟩ := resetLedger_of_run hrun h.toKnown h.ledger
  obtain ⟨⟨newPassword, horigin⟩, c, hcall, hhas⟩ := (hspent token ⟨hissued, hlive⟩).2 id hreset.taken
  have hc := h.resets id token newPassword c horigin hcall
  cases c with
  | resetPassword token' newPassword' => exact hhas
  | resetUser newPassword' => exact hresetting ⟨id, newPassword, _, horigin, hcall, trivial⟩
  | resetCommit newPassword' => exact hresetting ⟨id, newPassword, _, horigin, hcall, trivial⟩
  | bump epoch => exact hbefore ⟨⟨newPassword, horigin⟩, _, hcall, trivial⟩
  | changed epoch => exact hbefore ⟨⟨newPassword, horigin⟩, _, hcall, trivial⟩
  | failed error => exact hhas hc
  | _ => exact hc

/-- The commit of a reset. -/
theorem hasReset_of_resetCommit (salt : Salt) {token id : ℕ} {newPassword newPassword' : Password}
    (horigin : s.origin id = some (.resetPassword token newPassword))
    (hcall : s.auth.calls id = some (.resetCommit newPassword')) :
    ∃ t, Run (fun s (l : Label Password Salt) t => s.step H l = some t) FreshTokens s t ∧
      t.HasReset token id := by
  have hstep : s.step H (.advance id salt) = some { s with
      auth := (s.auth.commitPassword (H.hash newPassword' salt)).goto id
        (.bump (s.auth.commits + 1)) } := by
    simp [step, AuthState.step, hcall, AuthState.advance]
  exact ⟨_, .tail (.advance id salt) .refl trivial hstep, ⟨newPassword, horigin⟩, _,
    Function.update_self .., trivial⟩

/-- The check of the user, and the commit. -/
theorem hasReset_of_resetUser (salt : Salt) (hactive : s.auth.user.isActive = true) {token id : ℕ}
    {newPassword newPassword' : Password} (horigin : s.origin id = some (.resetPassword token newPassword))
    (hcall : s.auth.calls id = some (.resetUser newPassword')) :
    ∃ t, Run (fun s (l : Label Password Salt) t => s.step H l = some t) FreshTokens s t ∧
      t.HasReset token id := by
  have hstep : s.step H (.advance id salt) =
      some { s with auth := s.auth.goto id (.resetCommit newPassword') } := by
    simp [step, AuthState.step, hcall, AuthState.advance, hactive]
  obtain ⟨t, hrun, hreset⟩ := hasReset_of_resetCommit (H := H) salt
    (s := { s with auth := s.auth.goto id (.resetCommit newPassword') }) horigin (Function.update_self ..)
  exact ⟨t, Run.trans (.tail (.advance id salt) .refl trivial hstep) hrun, hreset⟩

/-- An outstanding token of an active user sets any password. -/
theorem stillSets_of_outstanding (h : s.ResetKnown) (newPassword : Password) (salt : Salt)
    (hactive : s.auth.user.isActive = true) {token : ℕ} (houtstanding : s.Outstanding token) :
    s.StillSets H token := by
  rcases houtstanding with hlive | ⟨id, password, c, horigin, hcall, hresetting⟩
  · obtain ⟨id, hid⟩ := h.bounded
    have hfree := hid id le_rfl
    -- a new call starts, and `GETDEL` finds the token
    let started : Tracked Password Hash :=
      { s with
        auth := s.auth.goto id (.resetPassword token newPassword)
        origin := Function.update s.origin id (some (.resetPassword token newPassword)) }
    let taken : Tracked Password Hash :=
      { started with
        auth := AuthState.goto { started.auth with
          resetTokens := Function.update s.auth.resetTokens token false } id (.resetUser newPassword) }
    have hstart : s.step H (.start id (.resetPassword token newPassword)) = some started := by
      simp [step, AuthState.step, hfree, Call.IsStart, started]
    have htake : started.step H (.advance id salt) = some taken := by
      simp [step, AuthState.step, AuthState.advance, AuthState.goto, started, taken, hlive]
    have horigin : taken.origin id = some (.resetPassword token newPassword) := Function.update_self ..
    have hcall : taken.auth.calls id = some (.resetUser newPassword) := Function.update_self ..
    have hactive' : taken.auth.user.isActive = true := hactive
    obtain ⟨t, hrun, hreset⟩ := hasReset_of_resetUser (H := H) salt hactive' horigin hcall
    have htaken : Run (fun s (l : Label Password Salt) t => s.step H l = some t) FreshTokens s taken :=
      .tail (.advance id salt) (.tail (.start id (.resetPassword token newPassword)) .refl trivial hstart)
        trivial htake
    refine ⟨t, htaken.trans hrun, id, hreset, ?_⟩
    rintro ⟨-, c, hcall, -⟩
    rw [hfree] at hcall
    cases hcall
  · have hbefore : ¬ s.HasReset token id := by
      rintro ⟨-, d, hd, hreset⟩
      rw [hcall] at hd
      cases hd
      cases c <;> first | exact hresetting | exact hreset
    cases c with
    | resetUser newPassword' =>
      obtain ⟨t, hrun, hreset⟩ := hasReset_of_resetUser (H := H) salt hactive horigin hcall
      exact ⟨t, hrun, id, hreset, hbefore⟩
    | resetCommit newPassword' =>
      obtain ⟨t, hrun, hreset⟩ := hasReset_of_resetCommit (H := H) salt horigin hcall
      exact ⟨t, hrun, id, hreset, hbefore⟩
    | _ => exact hresetting.elim

/-- A token that has set a password is not outstanding. -/
theorem not_outstanding_of_hasReset (h : s.ResetKnown) {token id : ℕ} (hreset : s.HasReset token id) :
    ¬ s.Outstanding token := by
  rintro (hlive | ⟨id', newPassword, c, horigin, hcall, hresetting⟩)
  · exact h.ledger.not_taken_of_live token id hlive hreset.taken
  · have htaken : s.resetLedger.taken token id' := by
      refine ⟨⟨newPassword, horigin⟩, c, hcall, ?_⟩
      cases c <;> first | exact trivial | exact hresetting.elim
    obtain rfl := h.ledger.unique token id id' hreset.taken htaken
    obtain ⟨-, d, hd, hset⟩ := hreset
    rw [hcall] at hd
    cases hd
    cases c <;> first | exact hresetting | exact hset

/-- In every interleaving of the calls, with distinct tokens generated, at the end of a `reset_password` or
    `change_password`: of the reset tokens issued before, those can still set a password that are
    outstanding, and no others. The token which a reset has consumed cannot. -/
theorem stillSets_of_run (H : Hasher Password Hash Salt) (hash : Hash) (isActive : Bool) (pwV : Option ℕ)
    (newPassword : Password) (salt : Salt) (s t : Tracked Password Hash)
    (hrun : Run (fun s (l : Label Password Salt) t => s.step H l = some t) FreshTokens
      (registered hash isActive pwV) s)
    (id epoch : ℕ) (hcall : s.auth.calls id = some (.bump epoch))
    (hstep : s.step H (.advance id salt) = some t)
    (token : ℕ) (hissued : s.resetIssued token = true) :
    (t.StillSets H token → t.Outstanding token) ∧
      (t.auth.user.isActive = true → t.Outstanding token → t.StillSets H token) ∧
      ∀ newPassword, t.origin id = some (.resetPassword token newPassword) → ¬ t.StillSets H token := by
  have hknown : t.ResetKnown := resetKnown_of_run (hrun.tail (.advance id salt) trivial hstep)
  have hafter : t.resetIssued = s.resetIssued ∧ t.auth.calls id = some (.changed epoch) := by
    obtain ⟨auth, hauth, rfl⟩ := Option.map_eq_some_iff.mp hstep
    unfold AuthState.step at hauth
    simp only [hcall, Option.bind_some] at hauth
    cases hauth
    exact ⟨rfl, Function.update_self ..⟩
  obtain ⟨hissuedEq, hchanged⟩ := hafter
  have houtstanding := outstanding_of_stillSets (H := H) hknown (hissuedEq ▸ hissued)
  refine ⟨houtstanding, fun hactive => stillSets_of_outstanding hknown newPassword salt hactive, ?_⟩
  intro newPassword horigin hsets
  have hreset : t.HasReset token id := ⟨⟨newPassword, horigin⟩, _, hchanged, trivial⟩
  exact not_outstanding_of_hasReset hknown hreset (houtstanding hsets)

/-- Two tokens are sent, and a reset with the first one commits. -/
def sampleResets : List (Label String ℕ) :=
  [.putReset 5, .putReset 6, .start 1 (.resetPassword 5 "new"), .advance 1 0, .advance 1 0, .advance 1 0]

/-- A reset with the second one. -/
def sampleSecondReset : List (Label String ℕ) :=
  [.start 2 (.resetPassword 6 "other"), .advance 2 0, .advance 2 0, .advance 2 0]

/-- A step with the tokens that are generated distinct. -/
def sampleStep (s : Tracked String (String × ℕ)) (l : Label String ℕ) :
    Option (Tracked String (String × ℕ)) :=
  if s.FreshTokens l then s.step sampleHasher l else none

/-- The first reset has committed, and its next step completes it. -/
theorem sampleResets_commits :
    ∃ s t, sampleResets.foldlM sampleStep (registered ("old", 0) true none) = some s ∧
      s.step sampleHasher (.advance 1 0) = some t ∧ s.auth.calls 1 = some (.bump 1) ∧
      s.resetIssued 6 = true := by
  have hrun : (sampleResets.foldlM sampleStep (registered ("old", 0) true none)).map
        (fun s => (s.auth.calls 1, s.resetIssued 6, (s.step sampleHasher (.advance 1 0)).isSome)) =
      some (some (.bump 1), true, true) := by decide +kernel
  obtain ⟨s, hs, hstate⟩ := Option.map_eq_some_iff.mp hrun
  obtain ⟨hcall, hstate⟩ := Prod.mk.inj hstate
  obtain ⟨hissued, hstep⟩ := Prod.mk.inj hstate
  obtain ⟨t, ht⟩ := Option.isSome_iff_exists.mp hstep
  exact ⟨s, t, hs, ht, hcall, hissued⟩

theorem stillSets_of_run_sample :
    ∃ s t, sampleResets.foldlM sampleStep (registered ("old", 0) true none) = some s ∧
      s.step sampleHasher (.advance 1 0) = some t ∧
      (t.StillSets sampleHasher 6 → t.Outstanding 6) ∧
      (t.auth.user.isActive = true → t.Outstanding 6 → t.StillSets sampleHasher 6) ∧
      ∀ newPassword, t.origin 1 = some (.resetPassword 6 newPassword) → ¬ t.StillSets sampleHasher 6 := by
  obtain ⟨s, t, hs, ht, hcall, hissued⟩ := sampleResets_commits
  exact ⟨s, t, hs, ht, stillSets_of_run sampleHasher ("old", 0) true none "other" 0 s t
    (Run.of_foldlM_guarded _ hs) 1 1 hcall ht 6 hissued⟩

/-- The second of the two tokens sets another password after the reset with the first one is complete. -/
theorem second_token_still_sets :
    ¬ ∀ s t : Tracked String (String × ℕ),
      Run (fun s (l : Label String ℕ) t => s.step sampleHasher l = some t) FreshTokens
        (registered ("old", 0) true none) s →
      ∀ id epoch salt, s.auth.calls id = some (.bump epoch) →
        s.step sampleHasher (.advance id salt) = some t →
        ∀ token, s.resetIssued token = true → ¬ t.StillSets sampleHasher token := by
  intro h
  obtain ⟨s, t, hs, ht, hcall, hissued⟩ := sampleResets_commits
  have hnone : ((sampleResets.foldlM sampleStep (registered ("old", 0) true none)).bind
      (·.step sampleHasher (.advance 1 0))).map (fun t => t.origin 2) = some none := by decide +kernel
  have hsecond : (((sampleResets.foldlM sampleStep (registered ("old", 0) true none)).bind
      (·.step sampleHasher (.advance 1 0))).bind (sampleSecondReset.foldlM sampleStep)).map
        (fun u => (u.origin 2, u.auth.calls 2)) =
      some (some (.resetPassword 6 "other"), some (.bump 2)) := by decide +kernel
  rw [hs, Option.bind_some, ht, Option.map_some] at hnone
  rw [hs, Option.bind_some, ht, Option.bind_some] at hsecond
  obtain ⟨u, hu, hstate⟩ := Option.map_eq_some_iff.mp hsecond
  obtain ⟨horigin, hreset⟩ := Prod.mk.inj hstate
  refine h s t (Run.of_foldlM_guarded _ hs) 1 1 0 hcall ht 6 hissued ⟨u, Run.of_foldlM_guarded _ hu, 2,
    ⟨⟨_, horigin⟩, _, hreset, trivial⟩, ?_⟩
  rintro ⟨⟨newPassword, hbefore⟩, -⟩
  rw [Option.some.inj hnone] at hbefore
  cases hbefore

end Tracked

end Nivara.Auth
