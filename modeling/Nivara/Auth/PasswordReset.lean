import Nivara.Auth.RateLimit
import Nivara.Common.Text

/-!
# What `request_password_reset` tells about accounts

`AuthService.request_password_reset` (`services/auth.py`, lines 266–314) and
`send_password_reset_email` (`notifications/transactional.py`, lines 86–137), each call with the
users table of the time. Two sequences of the same calls are compared whose tables have nothing
in common.

* `PasswordResetLib` is what the code uses of the standard library: `str.lower`, SHA-256, and which
  values `EmailMessage` takes as a header (it parses an address and raises `ValueError` for some).
* `Request` is what the caller gives, `Backend` what the caller does not know: the table, the random
  token, what `smtplib` does. The loggers are left out.
* The message is built outside the `try` of `send_password_reset_email`.

Results:

* `checkLimits_congr`: the limits see the counters only.
* `issueToken_of_harmless`: what is done for an account changes no counter, and returns.
* `outcomes_eq_of_harmless`: the two sequences cannot be told apart.
* `revealing_iff`: a call that is not harmless tells, if the limits let it pass.
-/

namespace Nivara.Auth

open Redis

/-! ## Model of the code -/

structure PasswordResetLib where
  /-- `str.lower`. -/
  lower : String → String
  /-- `hashlib.sha256(token.encode()).digest()`. -/
  sha256 : String → BitVec 256
  /-- `msg[name] = value` returns, for an address. -/
  takesHeader : String → Bool

structure UserAccount where
  id : UUID
  email : String
  isActive : Bool

/-- The users table; `email` is unique. -/
structure UsersTable where
  rows : List UserAccount
  emails_nodup : (rows.map (·.email)).Nodup

/-- `result.scalar_one_or_none()`. -/
def scalarOneOrNone {α : Type} : List α → Except ResetException (Option α)
  | [] => .ok none
  | [a] => .ok (some a)
  | _ => .error .multipleResults

structure Request where
  email : String
  ip : Option String
  /-- `background_tasks` is given. -/
  backgroundTasks : Bool
  /-- Milliseconds before the call, and before its second limit. -/
  elapsed : ℕ
  elapsedIp : ℕ

structure Backend where
  users : UsersTable
  /-- What `generate_refresh_token` returns. -/
  token : String
  /-- What `_send_sync` does. -/
  transport : Except String Unit

structure ResetState where
  clock : ℤ
  keys : Keys

def emailLimitKey (email : String) : String := "auth:pwreset:rl:email:" ++ email

def ipLimitKey (ip : String) : String := "auth:pwreset:rl:ip:" ++ ip

/-- `hexdigest()`. -/
def hexdigest (digest : BitVec 256) : String := String.ofList (UUID.hexDigits 64 digest.toNat).reverse

/-- `_pwreset_key`. -/
def pwresetKey (tokenHash : String) : String := "auth:pwreset:" ++ tokenHash

variable (lib : PasswordResetLib) (cfg : PasswordResetSettings)

/-- `_sha256_hex`. -/
def sha256Hex (token : String) : String := hexdigest (lib.sha256 token)

/-- `_build_smtp_config`; of the configuration, the sender. -/
def buildSmtpConfig : Option String :=
  match cfg.smtpHost, cfg.smtpFromEmail with
  | some host, some fromEmail => if host = "" ∨ fromEmail = "" then none else some fromEmail
  | _, _ => none

/-- `_build_reset_message`. -/
def buildResetMessage (fromEmail toEmail : String) : Except ResetException Unit :=
  if lib.takesHeader fromEmail && lib.takesHeader toEmail then .ok () else .error .valueError

/-- `send_password_reset_email`. -/
def sendPasswordResetEmail (transport : Except String Unit) (toEmail : String) :
    Except ResetException Unit :=
  match buildSmtpConfig cfg with
  | none => .ok ()
  | some fromEmail => do
    buildResetMessage lib fromEmail toEmail
    match transport with
    | .ok () => .ok ()
    -- whatever it is, it is logged
    | .error _ => .ok ()

/-- Both limits: lines 285–294. -/
def checkLimits (r : Request) (s : ResetState) : Except ResetException Unit × ResetState :=
  let clock := s.clock + r.elapsed
  let (email, keys) := checkRateLimit cfg clock (emailLimitKey (lib.lower r.email)) s.keys
  match email with
  | .error e => (.error e, ⟨clock, keys⟩)
  | .ok () =>
    match r.ip with
    | none => (.ok (), ⟨clock, keys⟩)
    | some ip =>
      if ip = "" then (.ok (), ⟨clock, keys⟩)
      else
        let clock := clock + r.elapsedIp
        let (ip, keys) := checkRateLimit cfg clock (ipLimitKey ip) keys
        (ip, ⟨clock, keys⟩)

/-- The account, the token and the email: lines 296–314. -/
def issueToken (r : Request) (b : Backend) (s : ResetState) : Except ResetException Unit × ResetState :=
  match scalarOneOrNone (b.users.rows.filter (·.email = lib.lower r.email)) with
  | .error e => (.error e, s)
  | .ok none => (.ok (), s)
  | .ok (some user) =>
    if user.isActive = false then (.ok (), s)
    else
      let payload := "\x7b\"user_id\": \"" ++ user.id.str ++ "\"\x7d"
      match setEx s.clock (pwresetKey (sha256Hex lib b.token)) (.text payload)
        (cfg.passwordResetTokenExpiresMinutes * 60) s.keys with
      | .error e => (.error (.response e), s)
      | .ok keys =>
        if r.backgroundTasks then (.ok (), ⟨s.clock, keys⟩)
        else (sendPasswordResetEmail lib cfg b.transport user.email, ⟨s.clock, keys⟩)

/-- `request_password_reset`. -/
def requestPasswordReset (r : Request) (b : Backend) (s : ResetState) :
    Except ResetException Unit × ResetState :=
  match checkLimits lib cfg r s with
  | (.error e, s) => (.error e, s)
  | (.ok (), s) => issueToken lib cfg r b s

/-- One call after another: how each has ended, and what is left. -/
def requests : List (Request × Backend) → ResetState → List (Except ResetException Unit) × ResetState
  | [], s => ([], s)
  | (r, b) :: rest, s =>
    let (outcome, s) := requestPasswordReset lib cfg r b s
    let (outcomes, s) := requests rest s
    (outcome :: outcomes, s)

/-! ## What may be seen -/

/-- The key of a rate limit. -/
def IsLimitKey (key : String) : Prop := ∃ rest, key = "auth:pwreset:rl:" ++ rest

/-- The same time and the same counters. -/
structure SameLimits (s t : ResetState) : Prop where
  clock : s.clock = t.clock
  keys : ∀ key, IsLimitKey key → s.keys key = t.keys key

/-- The token gets a time to live that Redis takes, and if the email is sent inline and at all, sender
    and address can stand in a header. -/
def Harmless (r : Request) : Prop :=
  0 < cfg.passwordResetTokenExpiresMinutes ∧
    (r.backgroundTasks = true ∨ ∀ fromEmail ∈ buildSmtpConfig cfg,
      lib.takesHeader fromEmail = true ∧ lib.takesHeader (lib.lower r.email) = true)

variable {lib cfg}

theorem isLimitKey_email (email : String) : IsLimitKey (emailLimitKey email) :=
  ⟨"email:" ++ email, by rw [← String.append_assoc]; rfl⟩

theorem isLimitKey_ip (ip : String) : IsLimitKey (ipLimitKey ip) :=
  ⟨"ip:" ++ ip, by rw [← String.append_assoc]; rfl⟩

/-- A digest is no key of a limit. -/
theorem not_isLimitKey_pwresetKey (token : String) : ¬ IsLimitKey (pwresetKey (sha256Hex lib token)) := by
  rintro ⟨rest, h⟩
  have hdigest : (sha256Hex lib token).toList = (UUID.hexDigits 64 (lib.sha256 token).toNat).reverse :=
    String.toList_ofList
  have htoList := congrArg String.toList h
  rw [pwresetKey, String.toList_append, String.toList_append, hdigest] at htoList
  have hlimit : "auth:pwreset:rl:".toList = "auth:pwreset:".toList ++ "rl:".toList := by decide
  rw [hlimit, List.append_assoc] at htoList
  have hr : 'r' ∈ (UUID.hexDigits 64 (lib.sha256 token).toNat).reverse := by
    rw [List.append_cancel_left htoList]
    exact List.mem_append_left _ (by decide)
  exact UUID.not_mem_hexDigits (fun a ha => by interval_cases a <;> decide) _ _ (List.mem_reverse.mp hr)

/-! ## The limits -/

/-- `INCR` reads its own key only. -/
theorem incr_congr (now : ℤ) {key : String} {k k' : Keys} (h : k key = k' key) :
    (incr now key k).1 = (incr now key k').1 ∧
      ∀ key', k key' = k' key' → (incr now key k).2 key' = (incr now key k').2 key' := by
  have hfind : find now key k = find now key k' := by
    unfold find
    rw [h]
  unfold incr
  rw [hfind]
  rcases find now key k' with _ | ⟨⟨n⟩ | ⟨value⟩, deadline⟩
  all_goals
    refine ⟨rfl, fun key' hkey => ?_⟩
    first | exact hkey | simp only [Function.update_apply, hkey]

theorem expireNx_congr (now : ℤ) {key : String} {k k' : Keys} (h : k key = k' key) (ttlSeconds : ℤ)
    {key' : String} (hkey : k key' = k' key') :
    expireNx now key ttlSeconds k key' = expireNx now key ttlSeconds k' key' := by
  have hfind : find now key k = find now key k' := by
    unfold find
    rw [h]
  unfold expireNx
  rw [hfind]
  rcases find now key k' with _ | ⟨value, _ | deadline⟩
  · exact hkey
  · simp only [setTtl, Function.update_apply, hkey]
  · exact hkey

/-- So does the transaction. -/
theorem checkRateLimit_congr (cfg : PasswordResetSettings) (now : ℤ) {key : String} {k k' : Keys}
    (h : k key = k' key) :
    (checkRateLimit cfg now key k).1 = (checkRateLimit cfg now key k').1 ∧
      ∀ key', k key' = k' key' →
        (checkRateLimit cfg now key k).2 key' = (checkRateLimit cfg now key k').2 key' := by
  obtain ⟨hcount, hkeys⟩ := incr_congr now h
  unfold checkRateLimit
  rcases hleft : incr now key k with ⟨count, l⟩
  rcases hright : incr now key k' with ⟨count', l'⟩
  rw [hleft, hright] at hcount hkeys
  obtain rfl : count = count' := hcount
  have hexpire (key' : String) (hkey : k key' = k' key') :=
    expireNx_congr now (hkeys key h) cfg.passwordResetRateLimitWindowSeconds (hkeys key' hkey)
  cases count with
  | error e => exact ⟨rfl, hexpire⟩
  | ok count => exact ⟨rfl, hexpire⟩

/-- The limits see the counters only, and leave them the same. -/
theorem checkLimits_congr (lib : PasswordResetLib) (cfg : PasswordResetSettings) (r : Request)
    {s t : ResetState} (h : SameLimits s t) :
    (checkLimits lib cfg r s).1 = (checkLimits lib cfg r t).1 ∧
      SameLimits (checkLimits lib cfg r s).2 (checkLimits lib cfg r t).2 := by
  obtain ⟨hresult, hkeys⟩ := checkRateLimit_congr cfg (t.clock + r.elapsed)
    (h.keys _ (isLimitKey_email (lib.lower r.email)))
  unfold checkLimits
  rw [h.clock]
  dsimp only
  rcases hleft : checkRateLimit cfg (t.clock + r.elapsed) (emailLimitKey (lib.lower r.email)) s.keys
    with ⟨e, k⟩
  rcases hright : checkRateLimit cfg (t.clock + r.elapsed) (emailLimitKey (lib.lower r.email)) t.keys
    with ⟨e', k'⟩
  rw [hleft, hright] at hresult hkeys
  obtain rfl : e = e' := hresult
  have hsame (clock : ℤ) : SameLimits ⟨clock, k⟩ ⟨clock, k'⟩ :=
    ⟨rfl, fun key hkey => hkeys key (h.keys key hkey)⟩
  cases e with
  | error e => exact ⟨rfl, hsame _⟩
  | ok _ =>
    cases r.ip with
    | none => exact ⟨rfl, hsame _⟩
    | some ip =>
      dsimp only
      split_ifs with hip
      · exact ⟨rfl, hsame _⟩
      · obtain ⟨hresult', hkeys'⟩ := checkRateLimit_congr cfg (t.clock + r.elapsed + r.elapsedIp)
          ((hsame 0).keys _ (isLimitKey_ip ip))
        exact ⟨hresult', rfl, fun key hkey => hkeys' key ((hsame 0).keys key hkey)⟩

/-! ## The account -/

/-- One row at most has the email. -/
theorem scalarOneOrNone_of_nodup (users : UsersTable) (email : String) :
    ∃ user, scalarOneOrNone (users.rows.filter (·.email = email)) = .ok user ∧
      ∀ u ∈ user, u.email = email := by
  have hnodup := List.Nodup.filter (fun e => decide (e = email)) users.emails_nodup
  rw [List.filter_map] at hnodup
  cases hrows : users.rows.filter (·.email = email) with
  | nil => exact ⟨none, rfl, nofun⟩
  | cons user rest =>
    have hemail : ∀ u ∈ user :: rest, u.email = email := by
      intro u hu
      rw [← hrows] at hu
      exact of_decide_eq_true (List.mem_filter.mp hu).2
    cases rest with
    | nil =>
      refine ⟨some user, rfl, fun u hu => ?_⟩
      obtain rfl := Option.some.inj hu
      exact hemail user List.mem_cons_self
    | cons user' rest =>
      have hfilter : users.rows.filter ((fun e => decide (e = email)) ∘ (·.email)) =
          user :: user' :: rest := hrows
      rw [hfilter, List.map_cons, List.map_cons] at hnodup
      have hne := (List.nodup_cons.mp hnodup).1
      rw [hemail user List.mem_cons_self, hemail user' (by simp)] at hne
      exact absurd List.mem_cons_self hne

/-- `send_password_reset_email` returns when the message can be built. -/
theorem sendPasswordResetEmail_eq (transport : Except String Unit) (toEmail : String) :
    sendPasswordResetEmail lib cfg transport toEmail =
      if ∀ fromEmail ∈ buildSmtpConfig cfg,
        lib.takesHeader fromEmail = true ∧ lib.takesHeader toEmail = true
      then .ok () else .error .valueError := by
  unfold sendPasswordResetEmail
  cases buildSmtpConfig cfg with
  | none => exact (if_pos nofun).symm
  | some fromEmail =>
    have hiff : (∀ e ∈ some fromEmail, lib.takesHeader e = true ∧ lib.takesHeader toEmail = true) ↔
        (lib.takesHeader fromEmail && lib.takesHeader toEmail) = true := by
      simp
    simp only [buildResetMessage, hiff]
    split_ifs with hbuilt
    · cases transport <;> rfl
    · rfl

def userIdPayload (user : UserAccount) : Value := .text ("\x7b\"user_id\": \"" ++ user.id.str ++ "\"\x7d")

/-- For an active account, the token is stored and the email goes out. -/
theorem issueToken_of_active {r : Request} {b : Backend} {user : UserAccount}
    (huser : scalarOneOrNone (b.users.rows.filter (·.email = lib.lower r.email)) = .ok (some user))
    (hactive : user.isActive = true) (s : ResetState) :
    issueToken lib cfg r b s =
      if cfg.passwordResetTokenExpiresMinutes * 60 ≤ 0 then
        (.error (.response ⟨"invalid expire time in 'set' command"⟩), s)
      else
        (if r.backgroundTasks then .ok () else sendPasswordResetEmail lib cfg b.transport user.email,
          ⟨s.clock, setTtl s.clock (pwresetKey (sha256Hex lib b.token)) (userIdPayload user)
            (cfg.passwordResetTokenExpiresMinutes * 60) s.keys⟩) := by
  have hnot : ¬ user.isActive = false := by
    rw [hactive]
    decide
  unfold issueToken setEx
  rw [huser]
  dsimp only
  rw [if_neg hnot]
  by_cases httl : cfg.passwordResetTokenExpiresMinutes * 60 ≤ 0
  · rw [if_pos httl, if_pos httl]
  · rw [if_neg httl, if_neg httl]
    cases r.backgroundTasks <;> rfl

/-- Without an active account nothing is done. -/
theorem issueToken_of_inactive {r : Request} {b : Backend} (user : Option UserAccount)
    (huser : scalarOneOrNone (b.users.rows.filter (·.email = lib.lower r.email)) = .ok user)
    (hinactive : ∀ u ∈ user, u.isActive = false) (s : ResetState) :
    issueToken lib cfg r b s = (.ok (), s) := by
  unfold issueToken
  rw [huser]
  cases user with
  | none => rfl
  | some user => exact if_pos (hinactive user rfl)

/-- What is done for an account, if there is one: it returns, and leaves the counters alone. -/
theorem issueToken_of_harmless {r : Request} (h : Harmless lib cfg r) (b : Backend) (s : ResetState) :
    (issueToken lib cfg r b s).1 = .ok () ∧ SameLimits s (issueToken lib cfg r b s).2 := by
  obtain ⟨user, huser, hemail⟩ := scalarOneOrNone_of_nodup b.users (lib.lower r.email)
  by_cases hactive : ∃ u ∈ user, u.isActive = true
  · obtain ⟨u, rfl, hactive⟩ := hactive
    have hpos : ¬ cfg.passwordResetTokenExpiresMinutes * 60 ≤ 0 := by
      have hminutes := h.1
      omega
    rw [issueToken_of_active huser hactive, if_neg hpos]
    refine ⟨?_, rfl, fun key hkey => ?_⟩
    · show (if _ then _ else _) = _
      rcases h.2 with hbackground | hheaders
      · exact if_pos hbackground
      · rw [sendPasswordResetEmail_eq, hemail u rfl, if_pos hheaders, ite_self]
    · refine (setTtl_of_ne ?_ _ _).symm
      rintro rfl
      exact not_isLimitKey_pwresetKey _ hkey
  · have hinactive : ∀ u ∈ user, u.isActive = false := fun u hu =>
      Bool.eq_false_iff.mpr fun hu' => hactive ⟨u, hu, hu'⟩
    rw [issueToken_of_inactive user huser hinactive]
    exact ⟨rfl, rfl, fun _ _ => rfl⟩

/-! ## Two runs -/

theorem SameLimits.symm {s t : ResetState} (h : SameLimits s t) : SameLimits t s :=
  ⟨h.clock.symm, fun key hkey => (h.keys key hkey).symm⟩

theorem SameLimits.trans {s t u : ResetState} (h : SameLimits s t) (h' : SameLimits t u) : SameLimits s u :=
  ⟨h.clock.trans h'.clock, fun key hkey => (h.keys key hkey).trans (h'.keys key hkey)⟩

/-- One call, from states with the same limits. -/
theorem requestPasswordReset_congr {r : Request} (h : Harmless lib cfg r) (b b' : Backend)
    {s t : ResetState} (hst : SameLimits s t) :
    (requestPasswordReset lib cfg r b s).1 = (requestPasswordReset lib cfg r b' t).1 ∧
      SameLimits (requestPasswordReset lib cfg r b s).2 (requestPasswordReset lib cfg r b' t).2 := by
  obtain ⟨hresult, hlimits⟩ := checkLimits_congr lib cfg r hst
  unfold requestPasswordReset
  rcases hleft : checkLimits lib cfg r s with ⟨e, s₁⟩
  rcases hright : checkLimits lib cfg r t with ⟨e', t₁⟩
  rw [hleft, hright] at hresult hlimits
  obtain rfl : e = e' := hresult
  cases e with
  | error e => exact ⟨rfl, hlimits⟩
  | ok _ =>
    obtain ⟨hok, hs⟩ := issueToken_of_harmless h b s₁
    obtain ⟨hok', ht⟩ := issueToken_of_harmless h b' t₁
    exact ⟨hok.trans hok'.symm, (hs.symm.trans hlimits).trans ht⟩

/-- Every sequence of harmless calls, over any two sequences of tables, tokens and transports: the calls end
    in the same way one by one, and leave the same counters. -/
theorem outcomes_eq_of_harmless (lib : PasswordResetLib) (cfg : PasswordResetSettings)
    (calls : List (Request × Backend × Backend)) (h : ∀ c ∈ calls, Harmless lib cfg c.1) (s : ResetState) :
    (requests lib cfg (calls.map fun c => (c.1, c.2.1)) s).1 =
        (requests lib cfg (calls.map fun c => (c.1, c.2.2)) s).1 ∧
      ∀ key, IsLimitKey key → (requests lib cfg (calls.map fun c => (c.1, c.2.1)) s).2.keys key =
        (requests lib cfg (calls.map fun c => (c.1, c.2.2)) s).2.keys key := by
  suffices hsame : ∀ s t, SameLimits s t →
      (requests lib cfg (calls.map fun c => (c.1, c.2.1)) s).1 =
          (requests lib cfg (calls.map fun c => (c.1, c.2.2)) t).1 ∧
        SameLimits (requests lib cfg (calls.map fun c => (c.1, c.2.1)) s).2
          (requests lib cfg (calls.map fun c => (c.1, c.2.2)) t).2 by
    obtain ⟨houtcomes, hlimits⟩ := hsame s s ⟨rfl, fun _ _ => rfl⟩
    exact ⟨houtcomes, hlimits.keys⟩
  induction calls with
  | nil => exact fun s t hst => ⟨rfl, hst⟩
  | cons c calls ih =>
    intro s t hst
    obtain ⟨houtcome, hlimits⟩ := requestPasswordReset_congr (h c List.mem_cons_self) c.2.1 c.2.2 hst
    obtain ⟨houtcomes, hrest⟩ := ih (fun d hd => h d (List.mem_cons_of_mem _ hd)) _ _ hlimits
    exact ⟨congrArg₂ List.cons houtcome houtcomes, hrest⟩

/-- A call that passes the limits ends in one way for all tables only if it is harmless. -/
theorem revealing_iff (r : Request) (s : ResetState) (hpass : (checkLimits lib cfg r s).1 = .ok ()) :
    (∀ b b', (requestPasswordReset lib cfg r b s).1 = (requestPasswordReset lib cfg r b' s).1) ↔
      Harmless lib cfg r := by
  refine ⟨fun h => ?_, fun h b b' => (requestPasswordReset_congr h b b' ⟨rfl, fun _ _ => rfl⟩).1⟩
  have hissue (b : Backend) : (requestPasswordReset lib cfg r b s).1 =
      (issueToken lib cfg r b (checkLimits lib cfg r s).2).1 := by
    unfold requestPasswordReset
    rcases hlimits : checkLimits lib cfg r s with ⟨e, s₁⟩
    rw [hlimits] at hpass
    obtain rfl : e = .ok () := hpass
    rfl
  -- a table with the account, active, and an empty one
  let user : UserAccount := ⟨0, lib.lower r.email, true⟩
  let registered : Backend := ⟨⟨[user], List.nodup_singleton _⟩, "", .ok ()⟩
  let unknown : Backend := ⟨⟨[], List.nodup_nil⟩, "", .ok ()⟩
  have huser : scalarOneOrNone (registered.users.rows.filter (·.email = lib.lower r.email)) =
      .ok (some user) := by
    simp [registered, user, scalarOneOrNone]
  have hunknown : (issueToken lib cfg r unknown (checkLimits lib cfg r s).2).1 = .ok () := by
    rw [issueToken_of_inactive none rfl nofun]
  have hissued : (issueToken lib cfg r registered (checkLimits lib cfg r s).2).1 = .ok () := by
    rw [← hissue, h registered unknown, hissue, hunknown]
  rw [issueToken_of_active huser rfl] at hissued
  by_cases hexpires : cfg.passwordResetTokenExpiresMinutes * 60 ≤ 0
  · rw [if_pos hexpires] at hissued
    cases hissued
  · rw [if_neg hexpires] at hissued
    refine ⟨by omega, ?_⟩
    by_cases hbackground : r.backgroundTasks = true
    · exact .inl hbackground
    · right
      dsimp only at hissued
      rw [if_neg hbackground, sendPasswordResetEmail_eq] at hissued
      by_contra hheaders
      rw [if_neg hheaders] at hissued
      cases hissued

/-! ## An address that is no header -/

/-- `EmailMessage` reads the local part of this address as an encoded word, which is a line feed, and raises
    `ValueError`. -/
def lineFeedAddress : String := "=?utf-8?q?=0a?=@example.com"

/-- The digest of the one token is written out, and the addresses are in lower case. -/
def sampleLib : PasswordResetLib where
  lower email := email
  sha256 _ := 0xba7816bf8f01cfea414140de5dae2223b00361a396177a9cb410ff61f20015ad
  takesHeader value := value ≠ lineFeedAddress

def sampleSettings : PasswordResetSettings :=
  { smtpHost := some "smtp.example.com", smtpFromEmail := some "noreply@example.com" }

def sampleRequest (email : String) (backgroundTasks : Bool) : Request :=
  ⟨email, some "10.0.0.1", backgroundTasks, 0, 0⟩

/-- One account, active. -/
def sampleRegistered (email : String) : Backend :=
  ⟨⟨[⟨1, email, true⟩], List.nodup_singleton _⟩, "abc", .ok ()⟩

/-- No account, and a transport that fails. -/
def sampleUnknown : Backend := ⟨⟨[], List.nodup_nil⟩, "abc", .error "OSError"⟩

def sampleReset : ResetState := ⟨0, fun _ => none⟩

/-- The address with background tasks, and another one without. -/
theorem outcomes_eq_of_harmless_sample :
    (requests sampleLib sampleSettings
        [(sampleRequest lineFeedAddress true, sampleRegistered lineFeedAddress),
          (sampleRequest "a@example.com" false, sampleRegistered "a@example.com")] sampleReset).1 =
      (requests sampleLib sampleSettings [(sampleRequest lineFeedAddress true, sampleUnknown),
        (sampleRequest "a@example.com" false, sampleUnknown)] sampleReset).1 := by
  refine (outcomes_eq_of_harmless sampleLib sampleSettings
    [(sampleRequest lineFeedAddress true, sampleRegistered lineFeedAddress, sampleUnknown),
      (sampleRequest "a@example.com" false, sampleRegistered "a@example.com", sampleUnknown)] ?_
    sampleReset).1
  intro c hc
  simp only [List.mem_cons, List.not_mem_nil, or_false] at hc
  rcases hc with rfl | rfl
  · exact ⟨by decide, .inl rfl⟩
  · refine ⟨by decide, .inr fun fromEmail hfrom => ?_⟩
    obtain rfl : "noreply@example.com" = fromEmail := Option.some.inj hfrom
    exact ⟨by decide, by decide⟩

/-- Called without background tasks for this address, `request_password_reset` raises if there is such an
    account, and returns if there is none. -/
theorem lineFeedAddress_reveals :
    (requests sampleLib sampleSettings
        [(sampleRequest lineFeedAddress false, sampleRegistered lineFeedAddress)] sampleReset).1 =
        [.error .valueError] ∧
      (requests sampleLib sampleSettings
        [(sampleRequest lineFeedAddress false, sampleUnknown)] sampleReset).1 = [.ok ()] := by
  constructor <;> decide +kernel

end Nivara.Auth
