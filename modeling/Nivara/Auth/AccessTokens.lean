import Nivara.Auth.Service
import Nivara.Common.Literals
import Nivara.Lib.Transition

/-!
# Access tokens

`create_access_token` and `decode_access_token` (`auth/jwt.py`, lines 45–163) and `get_current_user`
(`auth/dependencies.py`, lines 16–42) in one process of the service: its settings, its key files with the
caches of their contents, its users and its clock.

* `jose` is a parameter. `Ideal` is what is promised of it, and `Unforgeable` that a presented token that
  verifies was issued.
* Times are microseconds since 1970. The range of `datetime` is left out.
* A claim that is no text and no number is what `str` and `int` make of it.
* `issued` and `admitted` are history.

Results:

* `cachedPem_of_cached`: a key that was read once stays, whatever becomes of its file.
* `getCurrentUser_of_signed`: what a token that was issued is answered, exactly.
* `accessTokens_of_run`: so in every run; nobody is admitted as a user to whom no token was issued.
-/

namespace Nivara.Auth

open Transition

/-! ## Keys -/

/-- The fields of `Settings` that the tokens depend on. -/
structure JwtSettings where
  algorithm : String
  kid : String
  privateKeyPath : Option String
  publicKeyPath : Option String
  privateKeyPem : Option String
  publicKeyPem : Option String
  issuer : String
  audience : String
  accessTokenExpiresMinutes : ℤ
  defaultUserTier : String
  defaultBaseCurrency : String

/-- A `str | None` that `if` takes for true. -/
def truthyText : Option String → Option String
  | some text => if text = "" then none else some text
  | none => none

theorem truthyText_eq_some {value : Option String} {text : String} (h : truthyText value = some text) :
    value = some text := by
  cases value with
  | none => cases h
  | some text' =>
    unfold truthyText at h
    dsimp only at h
    split_ifs at h
    exact h

/-- `_read_pem`; `none` is a `RuntimeError`. -/
def readPem (files : String → Option String) (path inline : Option String) : Option String :=
  match truthyText inline with
  | some pem => some pem
  | none => (truthyText path).bind files

/-- `_private_key_cache` and `_public_key_cache`. -/
abbrev KeyCache := List ((Option String × Option String) × String)

/-- `_private_key` and `_public_key`, with the cache afterwards. -/
def cachedPem (files : String → Option String) (cache : KeyCache) (path inline : Option String) :
    Option String × KeyCache :=
  match cache.lookup (path, inline) with
  | some pem => (some pem, cache)
  | none =>
    match readPem files path inline with
    | some pem => (some pem, ((path, inline), pem) :: cache)
    | none => (none, cache)

/-! ## Tokens -/

/-- A claim, as the decoder of JSON returns it. -/
inductive Claim
  | text (value : String)
  | number (value : ℤ)
  /-- Any other value, by its `str` and its `int`. -/
  | other (str : String) (int : Option ℤ)
  deriving DecidableEq

/-- `str(claim)`. -/
def Claim.str : Claim → String
  | text value => value
  | number value => toString value
  | other str _ => str

/-- `int(claim)`; `none` is a `ValueError` or a `TypeError`. -/
def Claim.int : Claim → Option ℤ
  | text value => Literals.int (py value)
  | number value => some value
  | other _ int => int

abbrev Claims := List (String × Claim)

/-- `jose.jwt`; `none` is an exception. The last argument of `decode` is the time in seconds. -/
structure Jose where
  encode : Claims → (key algorithm kid : String) → Option String
  decode : (token key algorithm audience issuer : String) → ℤ → Option Claims

/-- `DecodedAccessToken`. -/
structure DecodedAccessToken where
  userId : UUID
  tier : String
  baseCurrency : String
  kid : String
  expiresAt : ℤ

/-- `int(t.timestamp())`. -/
def timestamp (t : ℤ) : ℤ := t.tdiv 1000000

/-- `issued_at + timedelta(minutes=...)`. -/
def expiryOf (cfg : JwtSettings) (issuedAt : ℕ) : ℤ := issuedAt + 60000000 * cfg.accessTokenExpiresMinutes

/-- The `payload`. -/
def accessClaims (cfg : JwtSettings) (userId : UUID) (tier baseCurrency : String) (issuedAt : ℕ) : Claims :=
  [("sub", .text userId.str), ("user_id", .text userId.str), ("tier", .text tier),
    ("base_currency", .text baseCurrency), ("kid", .text cfg.kid), ("iss", .text cfg.issuer),
    ("aud", .text cfg.audience), ("iat", .number (timestamp issuedAt)),
    ("exp", .number (timestamp (expiryOf cfg issuedAt)))]

/-- The fields that are read of a payload; `none` is an `InvalidTokenError`. -/
def readClaims (payload : Claims) : Option DecodedAccessToken := do
  let userId ← (payload.lookup "user_id").bind fun claim => UUID.parse claim.str
  let tier ← payload.lookup "tier"
  let baseCurrency ← payload.lookup "base_currency"
  let kid ← payload.lookup "kid"
  let exp ← (payload.lookup "exp").bind Claim.int
  some ⟨userId, tier.str, baseCurrency.str, kid.str, exp⟩

/-- How `get_current_user` ends. -/
inductive Authentication
  | user (id : UUID)
  | http (error : HttpError)
  /-- `RuntimeError`: there is no key. -/
  | serverError
  deriving DecidableEq

def invalidAccessToken : HttpError := ⟨401, "Invalid access token"⟩

/-! ## A process -/

/-- A token that was issued, with the settings and the key of the time. -/
structure IssuedToken where
  token : String
  userId : UUID
  issuedAt : ℕ
  cfg : JwtSettings
  privateKey : String

/-- A request that got through. -/
structure AdmittedRequest where
  token : String
  userId : UUID
  admittedAt : ℕ

structure AccessState where
  /-- `datetime.now(UTC)`. -/
  now : ℕ
  cfg : JwtSettings
  files : String → Option String
  privateKeys : KeyCache
  publicKeys : KeyCache
  /-- `is_active` of the users. -/
  users : UUID → Option Bool
  issued : List IssuedToken
  admitted : List AdmittedRequest

inductive AccessLabel
  | wait (microseconds : ℕ)
  | configure (cfg : JwtSettings)
  | write (path : String) (content : Option String)
  /-- The process starts again. -/
  | restart
  | setActive (userId : UUID) (isActive : Option Bool)
  /-- `_issue_tokens`. -/
  | issue (userId : UUID)
  /-- A request with the text of its bearer token. -/
  | request (credentials : Option String)

namespace AccessState

variable (jose : Jose)

/-- `_private_key`. -/
def privateKey (s : AccessState) : Option String × KeyCache :=
  cachedPem s.files s.privateKeys s.cfg.privateKeyPath s.cfg.privateKeyPem

/-- `_public_key`. -/
def publicKey (s : AccessState) : Option String × KeyCache :=
  cachedPem s.files s.publicKeys s.cfg.publicKeyPath s.cfg.publicKeyPem

/-- `create_access_token` for a user, with the tier and the currency of the settings. -/
def createAccessToken (s : AccessState) (userId : UUID) : Option (String × String) := do
  let pem ← s.privateKey.1
  let claims := accessClaims s.cfg userId s.cfg.defaultUserTier s.cfg.defaultBaseCurrency s.now
  let token ← jose.encode claims pem s.cfg.algorithm s.cfg.kid
  some (token, pem)

/-- `decode_access_token`, when there is a key. -/
def decodeAccessToken (s : AccessState) (pem token : String) : Option DecodedAccessToken :=
  (jose.decode token pem s.cfg.algorithm s.cfg.audience s.cfg.issuer (timestamp s.now)).bind readClaims

/-- `get_current_user`. -/
def getCurrentUser (s : AccessState) (credentials : Option String) : Authentication :=
  match truthyText credentials with
  | none => .http notAuthenticated
  | some token =>
    match s.publicKey.1 with
    | none => .serverError
    | some pem =>
      match s.decodeAccessToken jose pem token with
      | none => .http invalidAccessToken
      | some decoded =>
        if s.users decoded.userId = some true then .user decoded.userId else .http notAuthenticated

def step (s : AccessState) : AccessLabel → AccessState
  | .wait microseconds => { s with now := s.now + microseconds }
  | .configure cfg => { s with cfg := cfg }
  | .write path content => { s with files := Function.update s.files path content }
  | .restart => { s with privateKeys := [], publicKeys := [] }
  | .setActive userId isActive => { s with users := Function.update s.users userId isActive }
  | .issue userId =>
    { s with
      privateKeys := s.privateKey.2
      issued :=
        ((s.createAccessToken jose userId).map fun t => ⟨t.1, userId, s.now, s.cfg, t.2⟩).toList ++
          s.issued }
  | .request credentials =>
    { s with
      publicKeys := if truthyText credentials = none then s.publicKeys else s.publicKey.2
      admitted :=
        match s.getCurrentUser jose credentials, credentials with
        | .user userId, some token => ⟨token, userId, s.now⟩ :: s.admitted
        | _, _ => s.admitted }

/-- A token that is presented and verifies was issued. -/
def Unforgeable (s : AccessState) : AccessLabel → Prop
  | .request (some token) => ∀ pem claims, s.publicKey.1 = some pem →
      jose.decode token pem s.cfg.algorithm s.cfg.audience s.cfg.issuer (timestamp s.now) = some claims →
        ∃ i ∈ s.issued, i.token = token
  | _ => True

/-- Neither the settings change nor the process starts again. -/
def Undisturbed : AccessLabel → Prop
  | .configure _ | .restart => False
  | _ => True

end AccessState

/-! ## What is promised of `jose` -/

/-- A token that is signed with a private key verifies under its public key and no other, with its own
    algorithm, audience and issuer, until it has expired. -/
structure Jose.Ideal (jose : Jose) (Pair : String → String → Prop) : Prop where
  encode_ne_empty : ∀ {claims key algorithm kid}, jose.encode claims key algorithm kid ≠ some ""
  decode_encode_iff :
    ∀ {cfg userId tier currency issuedAt key token pem algorithm audience issuer now claims},
    jose.encode (accessClaims cfg userId tier currency issuedAt) key cfg.algorithm cfg.kid = some token →
      (jose.decode token pem algorithm audience issuer now = some claims ↔
        claims = accessClaims cfg userId tier currency issuedAt ∧ Pair key pem ∧ algorithm = cfg.algorithm ∧
          audience = cfg.audience ∧ issuer = cfg.issuer ∧ now ≤ timestamp (expiryOf cfg issuedAt))

/-! ## Keys that stay -/

section Keys

variable {files : String → Option String} {cache : KeyCache} {path inline path' inline' : Option String}
  {pem : String}

/-- A key that was read once stays, whatever becomes of its file. -/
theorem cachedPem_of_cached (h : cache.lookup (path, inline) = some pem) :
    cachedPem files cache path inline = (some pem, cache) := by
  unfold cachedPem
  rw [h]

/-- What is returned is in the cache afterwards. -/
theorem lookup_cachedPem (h : (cachedPem files cache path inline).1 = some pem) :
    (cachedPem files cache path inline).2.lookup (path, inline) = some pem := by
  unfold cachedPem at h ⊢
  cases hcached : cache.lookup (path, inline) with
  | some pem' =>
    rw [hcached] at h
    dsimp only at h ⊢
    rw [hcached]
    exact h
  | none =>
    rw [hcached] at h
    dsimp only at h ⊢
    cases hread : readPem files path inline with
    | none =>
      rw [hread] at h
      cases h
    | some pem' =>
      rw [hread] at h
      dsimp only at h ⊢
      rw [List.lookup_cons_self]
      exact h

/-- A read forgets no key. -/
theorem lookup_cachedPem_of_cached (h : cache.lookup (path, inline) = some pem) :
    (cachedPem files cache path' inline').2.lookup (path, inline) = some pem := by
  unfold cachedPem
  cases hcached : cache.lookup (path', inline') with
  | some pem' => exact h
  | none =>
    dsimp only
    cases hread : readPem files path' inline' with
    | none => exact h
    | some pem' =>
      dsimp only
      have hne : ((path, inline) == (path', inline')) = false := by
        refine beq_eq_false_iff_ne.mpr fun heq => ?_
        rw [← heq, h] at hcached
        cases hcached
      rw [List.lookup_cons, hne]
      exact h

end Keys

/-! ## A token that was issued -/

section Issued

variable {jose : Jose} {Pair : String → String → Prop} {s : AccessState} {i : IssuedToken}

/-- The token was signed for its user, with the key and the settings of the time. -/
def IssuedToken.Signed (jose : Jose) (i : IssuedToken) : Prop :=
  jose.encode (accessClaims i.cfg i.userId i.cfg.defaultUserTier i.cfg.defaultBaseCurrency i.issuedAt)
    i.privateKey i.cfg.algorithm i.cfg.kid = some i.token

/-- The token is taken at this moment under this key. -/
structure IssuedToken.Valid (Pair : String → String → Prop) (i : IssuedToken) (s : AccessState)
    (pem : String) : Prop where
  pair : Pair i.privateKey pem
  algorithm : s.cfg.algorithm = i.cfg.algorithm
  audience : s.cfg.audience = i.cfg.audience
  issuer : s.cfg.issuer = i.cfg.issuer
  unexpired : timestamp s.now ≤ timestamp (expiryOf i.cfg i.issuedAt)

theorem readClaims_accessClaims (cfg : JwtSettings) (userId : UUID) (tier baseCurrency : String)
    (issuedAt : ℕ) :
    readClaims (accessClaims cfg userId tier baseCurrency issuedAt) =
      some ⟨userId, tier, baseCurrency, cfg.kid, timestamp (expiryOf cfg issuedAt)⟩ := by
  simp [readClaims, accessClaims, List.lookup, Claim.str, Claim.int, UUID.parse_str]

/-- A valid token is read back, and no other one. -/
theorem decodeAccessToken_of_signed (hjose : jose.Ideal Pair) (hi : i.Signed jose) (pem : String)
    (decoded : DecodedAccessToken) :
    s.decodeAccessToken jose pem i.token = some decoded ↔
      i.Valid Pair s pem ∧ decoded = ⟨i.userId, i.cfg.defaultUserTier, i.cfg.defaultBaseCurrency, i.cfg.kid,
        timestamp (expiryOf i.cfg i.issuedAt)⟩ := by
  unfold AccessState.decodeAccessToken
  rw [Option.bind_eq_some_iff]
  constructor
  · rintro ⟨claims, hclaims, hread⟩
    obtain ⟨rfl, hpair, halgorithm, haudience, hissuer, hexp⟩ := (hjose.decode_encode_iff hi).mp hclaims
    rw [readClaims_accessClaims] at hread
    exact ⟨⟨hpair, halgorithm, haudience, hissuer, hexp⟩, (Option.some.inj hread).symm⟩
  · rintro ⟨⟨hpair, halgorithm, haudience, hissuer, hexp⟩, rfl⟩
    exact ⟨_, (hjose.decode_encode_iff hi).mpr ⟨rfl, hpair, halgorithm, haudience, hissuer, hexp⟩,
      readClaims_accessClaims ..⟩

/-- What a token that was issued is answered: its user, where it is valid and the user is active. -/
theorem getCurrentUser_of_signed (hjose : jose.Ideal Pair) (hi : i.Signed jose) :
    (∀ id, s.getCurrentUser jose (some i.token) = .user id ↔
      id = i.userId ∧ s.users i.userId = some true ∧ ∃ pem, s.publicKey.1 = some pem ∧ i.Valid Pair s pem) ∧
    (s.getCurrentUser jose (some i.token) = .http invalidAccessToken ↔
      ∃ pem, s.publicKey.1 = some pem ∧ ¬ i.Valid Pair s pem) := by
  have htoken : truthyText (some i.token) = some i.token := by
    refine if_neg fun hempty => hjose.encode_ne_empty (hi.trans ?_)
    rw [hempty]
  have hdecode := decodeAccessToken_of_signed (s := s) hjose hi
  unfold AccessState.getCurrentUser
  rw [htoken]
  dsimp only
  cases s.publicKey.1 with
  | none => simp
  | some pem =>
    dsimp only
    cases hdecoded : s.decodeAccessToken jose pem i.token with
    | none =>
      have hinvalid : ¬ i.Valid Pair s pem := by
        intro hvalid
        rw [(hdecode pem _).mpr ⟨hvalid, rfl⟩] at hdecoded
        cases hdecoded
      simp [hinvalid]
    | some decoded =>
      obtain ⟨hvalid, rfl⟩ := (hdecode pem decoded).mp hdecoded
      dsimp only
      by_cases hactive : s.users i.userId = some true
      · rw [if_pos hactive]
        simp [hvalid, hactive, eq_comm]
      · rw [if_neg hactive]
        simp [hvalid, hactive, notAuthenticated, invalidAccessToken]

end Issued

/-! ## Runs -/

section Runs

variable {jose : Jose} {Pair : String → String → Prop} {s t : AccessState}

/-- The token of the request was issued to its user and had not expired. -/
structure AdmittedRequest.Of (a : AdmittedRequest) (i : IssuedToken) : Prop where
  token : i.token = a.token
  userId : i.userId = a.userId
  issuedAt : i.issuedAt ≤ a.admittedAt
  unexpired : timestamp a.admittedAt ≤ timestamp (expiryOf i.cfg i.issuedAt)

namespace AccessState

/-- What holds of the history. -/
structure Inv (jose : Jose) (s : AccessState) : Prop where
  signed : ∀ i ∈ s.issued, i.Signed jose
  issuedAt : ∀ i ∈ s.issued, i.issuedAt ≤ s.now
  admitted : ∀ a ∈ s.admitted, ∃ i ∈ s.issued, a.Of i

/-- What `_issue_tokens` returns is signed with the key it was signed with. -/
theorem createAccessToken_eq_some {userId : UUID} {token pem : String}
    (h : s.createAccessToken jose userId = some (token, pem)) :
    IssuedToken.Signed jose ⟨token, userId, s.now, s.cfg, pem⟩ := by
  unfold createAccessToken at h
  cases hpem : s.privateKey.1 with
  | none =>
    rw [hpem] at h
    cases h
  | some pem' =>
    rw [hpem] at h
    obtain ⟨pem'', hsome, h⟩ := Option.bind_eq_some_iff.mp h
    obtain ⟨token', htoken, heq⟩ := Option.bind_eq_some_iff.mp h
    cases hsome
    cases heq
    exact htoken

/-- Whoever is admitted presents a token that decodes to the user. -/
theorem getCurrentUser_eq_user {credentials : Option String} {userId : UUID}
    (h : s.getCurrentUser jose credentials = .user userId) :
    ∃ token pem claims, credentials = some token ∧ s.publicKey.1 = some pem ∧
      jose.decode token pem s.cfg.algorithm s.cfg.audience s.cfg.issuer (timestamp s.now) =
        some claims := by
  unfold getCurrentUser at h
  cases htruthy : truthyText credentials with
  | none =>
    rw [htruthy] at h
    cases h
  | some token =>
    rw [htruthy] at h
    dsimp only at h
    cases hpem : s.publicKey.1 with
    | none =>
      rw [hpem] at h
      cases h
    | some pem =>
      rw [hpem] at h
      dsimp only at h
      cases hclaims :
        jose.decode token pem s.cfg.algorithm s.cfg.audience s.cfg.issuer (timestamp s.now) with
      | none =>
        unfold decodeAccessToken at h
        rw [hclaims] at h
        cases h
      | some claims => exact ⟨token, pem, claims, truthyText_eq_some htruthy, rfl, hclaims⟩

/-- A request admits the user of a token that was issued, or nobody. -/
theorem admitted_request (hjose : jose.Ideal Pair) (hs : s.Inv jose) {credentials : Option String}
    (hforge : s.Unforgeable jose (.request credentials)) :
    (s.step jose (.request credentials)).admitted = s.admitted ∨
      ∃ a, (s.step jose (.request credentials)).admitted = a :: s.admitted ∧ ∃ i ∈ s.issued, a.Of i := by
  cases houtcome : s.getCurrentUser jose credentials with
  | http error =>
    left
    simp only [step, houtcome]
  | serverError =>
    left
    simp only [step, houtcome]
  | user userId =>
    right
    obtain ⟨token, pem, claims, rfl, hpem, hclaims⟩ := getCurrentUser_eq_user houtcome
    obtain ⟨i, hi, rfl⟩ := hforge pem claims hpem hclaims
    obtain ⟨rfl, -, pem', -, hvalid⟩ :=
      ((getCurrentUser_of_signed hjose (hs.signed i hi)).1 userId).mp houtcome
    refine ⟨⟨i.token, i.userId, s.now⟩, ?_, i, hi, rfl, rfl, hs.issuedAt i hi, hvalid.unexpired⟩
    simp only [step, houtcome]

theorem Inv.step (hjose : jose.Ideal Pair) (hs : s.Inv jose) (l : AccessLabel)
    (hforge : s.Unforgeable jose l) :
    (s.step jose l).Inv jose := by
  cases l with
  | wait microseconds =>
    exact ⟨hs.signed, fun i hi => (hs.issuedAt i hi).trans (Nat.le_add_right _ _), hs.admitted⟩
  | configure cfg => exact ⟨hs.signed, hs.issuedAt, hs.admitted⟩
  | write path content => exact ⟨hs.signed, hs.issuedAt, hs.admitted⟩
  | restart => exact ⟨hs.signed, hs.issuedAt, hs.admitted⟩
  | setActive userId isActive => exact ⟨hs.signed, hs.issuedAt, hs.admitted⟩
  | issue userId =>
    have hnew : ∀ i ∈ (s.step jose (.issue userId)).issued,
        i ∈ s.issued ∨ i.Signed jose ∧ i.issuedAt = s.now := by
      intro i hi
      rcases List.mem_append.mp hi with hi | hi
      · obtain ⟨⟨token, pem⟩, htoken, rfl⟩ := Option.map_eq_some_iff.mp (Option.mem_toList.mp hi)
        exact .inr ⟨createAccessToken_eq_some htoken, rfl⟩
      · exact .inl hi
    refine ⟨fun i hi => ?_, fun i hi => ?_, fun a ha => ?_⟩
    · rcases hnew i hi with hi | ⟨hsigned, -⟩
      · exact hs.signed i hi
      · exact hsigned
    · rcases hnew i hi with hi | ⟨-, hat⟩
      · exact hs.issuedAt i hi
      · exact hat.le
    · obtain ⟨i, hi, hof⟩ := hs.admitted a ha
      exact ⟨i, List.mem_append_right _ hi, hof⟩
  | request credentials =>
    refine ⟨hs.signed, hs.issuedAt, fun a ha => ?_⟩
    rcases admitted_request hjose hs hforge with hsame | ⟨a', hadmitted, i, hi, hof⟩
    · exact hs.admitted a (hsame ▸ ha)
    · rw [hadmitted] at ha
      rcases List.mem_cons.mp ha with rfl | ha
      · exact ⟨i, hi, hof⟩
      · exact hs.admitted a ha

/-- The public key of these settings is in the cache. -/
def Holds (s : AccessState) (cfg : JwtSettings) (pem : String) : Prop :=
  s.cfg = cfg ∧ s.publicKeys.lookup (cfg.publicKeyPath, cfg.publicKeyPem) = some pem

/-- In a process that is let alone, it stays there. -/
theorem Holds.step {cfg : JwtSettings} {pem : String} (h : s.Holds cfg pem) (l : AccessLabel)
    (hl : Undisturbed l) : (s.step jose l).Holds cfg pem := by
  cases l with
  | wait microseconds => exact h
  | configure cfg => exact hl.elim
  | write path content => exact h
  | restart => exact hl.elim
  | setActive userId isActive => exact h
  | issue userId => exact h
  | request credentials =>
    refine ⟨h.1, ?_⟩
    show (if _ then _ else _ : KeyCache).lookup _ = _
    split_ifs
    · exact h.2
    · exact lookup_cachedPem_of_cached h.2

/-- A key that is in the cache is the one in force. -/
theorem Holds.publicKey {cfg : JwtSettings} {pem : String} (h : s.Holds cfg pem) :
    s.publicKey.1 = some pem := by
  obtain ⟨rfl, hcached⟩ := h
  exact congrArg Prod.fst (cachedPem_of_cached hcached)

/-- A request that is admitted has read the public key. -/
theorem holds_of_admitted {credentials : Option String} {userId : UUID} {pem : String}
    (h : s.getCurrentUser jose credentials = .user userId) (hpem : s.publicKey.1 = some pem) :
    (s.step jose (.request credentials)).Holds s.cfg pem := by
  refine ⟨rfl, ?_⟩
  have htruthy : truthyText credentials ≠ none := by
    intro hnone
    unfold getCurrentUser at h
    rw [hnone] at h
    cases h
  show (if _ then _ else _ : KeyCache).lookup _ = _
  rw [if_neg htruthy]
  exact lookup_cachedPem hpem

end AccessState

open AccessState

/-- After every history of settings, key files, restarts, users, tokens and requests: who was admitted
    presented a token that was issued to them and had not expired. A token that was issued admits its
    user, and nobody else, just when the user is active and the token is valid under the settings and the
    public key in force. Once it has, only its expiry and the user's deactivation end that, as long as the
    process goes on with its settings, whatever becomes of the key files. -/
theorem accessTokens_of_run (hjose : jose.Ideal Pair) {start : AccessState} (hissued : start.issued = [])
    (hadmitted : start.admitted = [])
    (hrun : Run (fun s l t => s.step jose l = t) (fun s l => s.Unforgeable jose l) start s) :
    (∀ a ∈ s.admitted, ∃ i ∈ s.issued, i.token = a.token ∧ i.userId = a.userId ∧ i.issuedAt ≤ a.admittedAt ∧
      timestamp a.admittedAt ≤ timestamp (expiryOf i.cfg i.issuedAt)) ∧
    ∀ i ∈ s.issued,
      (∀ id, s.getCurrentUser jose (some i.token) = .user id ↔
        id = i.userId ∧ s.users i.userId = some true ∧
          ∃ pem, s.publicKey.1 = some pem ∧ i.Valid Pair s pem) ∧
      (s.getCurrentUser jose (some i.token) = .http invalidAccessToken ↔
        ∃ pem, s.publicKey.1 = some pem ∧ ¬ i.Valid Pair s pem) ∧
      (s.getCurrentUser jose (some i.token) = .user i.userId →
        ∀ t, Run (fun s l t => s.step jose l = t) (fun _ l => Undisturbed l)
            (s.step jose (.request (some i.token))) t →
          (t.getCurrentUser jose (some i.token) = .user i.userId ↔
            t.users i.userId = some true ∧ timestamp t.now ≤ timestamp (expiryOf i.cfg i.issuedAt))) := by
  have hs : s.Inv jose := by
    refine hrun.invariant ⟨?_, ?_, ?_⟩ fun s l t hs hforge hstep => hstep ▸ hs.step hjose l hforge
    · simp [hissued]
    · simp [hissued]
    · simp [hadmitted]
  refine ⟨fun a ha => ?_, fun i hi => ?_⟩
  · obtain ⟨i, hi, hof⟩ := hs.admitted a ha
    exact ⟨i, hi, hof.token, hof.userId, hof.issuedAt, hof.unexpired⟩
  · obtain ⟨hadmits, hrefuses⟩ := getCurrentUser_of_signed (s := s) hjose (hs.signed i hi)
    refine ⟨hadmits, hrefuses, fun houtcome t hlater => ?_⟩
    obtain ⟨-, -, pem, hpem, hvalid⟩ := (hadmits i.userId).mp houtcome
    have hholds : t.Holds s.cfg pem :=
      hlater.invariant (I := fun t => t.Holds s.cfg pem) (holds_of_admitted houtcome hpem)
        fun t l t' ht hl hstep => hstep ▸ ht.step l hl
    rw [(getCurrentUser_of_signed hjose (hs.signed i hi)).1]
    constructor
    · rintro ⟨-, hactive, pem', -, hvalid'⟩
      exact ⟨hactive, hvalid'.unexpired⟩
    · rintro ⟨hactive, hunexpired⟩
      refine ⟨rfl, hactive, pem, hholds.publicKey, hvalid.pair, ?_, ?_, ?_, hunexpired⟩
      · exact hholds.1 ▸ hvalid.algorithm
      · exact hholds.1 ▸ hvalid.audience
      · exact hholds.1 ▸ hvalid.issuer

end Runs

/-! ## A key file that is overwritten -/

/-- The public key is in a file. -/
def fileSettings : JwtSettings where
  algorithm := "RS256"
  kid := "dev"
  privateKeyPath := none
  publicKeyPath := some "public.pem"
  privateKeyPem := some "private"
  publicKeyPem := none
  issuer := "investiq"
  audience := "investiq-mobile"
  accessTokenExpiresMinutes := 15
  defaultUserTier := "free"
  defaultBaseCurrency := "INR"

def sampleClaims : Claims := accessClaims fileSettings 7 "free" "INR" 0

/-- One key pair, and one token that is signed with it. -/
def oneToken : Jose where
  encode claims key algorithm kid :=
    if claims = sampleClaims ∧ key = "private" ∧ algorithm = "RS256" ∧ kid = "dev" then some "a.b.c"
    else none
  decode token key algorithm audience issuer now :=
    if token = "a.b.c" ∧ key = "public" ∧ algorithm = "RS256" ∧ audience = "investiq-mobile" ∧
      issuer = "investiq" ∧ now ≤ timestamp (expiryOf fileSettings 0) then some sampleClaims else none

theorem oneToken_ideal : oneToken.Ideal fun key pem => key = "private" ∧ pem = "public" where
  encode_ne_empty := by
    intro claims key algorithm kid
    unfold oneToken
    dsimp only
    split_ifs <;> simp
  decode_encode_iff := by
    intro cfg userId tier currency issuedAt key token pem algorithm audience issuer now claims hencode
    unfold oneToken at hencode ⊢
    dsimp only at hencode ⊢
    split_ifs at hencode with hsigned
    obtain ⟨hclaims, rfl, halgorithm, -⟩ := hsigned
    obtain rfl := Option.some.inj hencode
    obtain ⟨hissuer, haudience, hexp⟩ : cfg.issuer = "investiq" ∧ cfg.audience = "investiq-mobile" ∧
        timestamp (expiryOf cfg issuedAt) = timestamp (expiryOf fileSettings 0) := by
      simp only [sampleClaims, accessClaims, List.cons.injEq, Prod.mk.injEq, Claim.text.injEq,
        Claim.number.injEq, true_and, and_true] at hclaims
      obtain ⟨-, -, -, -, -, hissuer, haudience, -, hexp⟩ := hclaims
      exact ⟨hissuer, haudience, hexp⟩
    rw [hclaims, halgorithm, hissuer, haudience, hexp]
    constructor
    · intro h
      split_ifs at h with hall
      obtain ⟨-, hpem, hrest⟩ := hall
      exact ⟨(Option.some.inj h).symm, ⟨rfl, hpem⟩, hrest⟩
    · rintro ⟨rfl, ⟨-, hpem⟩, hrest⟩
      exact if_pos ⟨rfl, hpem, hrest⟩

def sampleProcess : AccessState where
  now := 0
  cfg := fileSettings
  files := fun _ => none
  privateKeys := []
  publicKeys := []
  users := fun userId => if userId = 7 then some true else none
  issued := []
  admitted := []

/-- The file is written, a token is issued and presented, and the file is overwritten. -/
def overwritten : AccessState :=
  [.write "public.pem" (some "public"), .issue 7, .request (some "a.b.c"),
    .write "public.pem" (some "other")].foldl (AccessState.step oneToken) sampleProcess

theorem overwritten_run :
    Run (fun s l t => s.step oneToken l = t) (fun s l => s.Unforgeable oneToken l) sampleProcess
      overwritten := by
  have hissued : (((sampleProcess.step oneToken (.write "public.pem" (some "public"))).step oneToken
      (.issue 7)).issued.any fun i => i.token = "a.b.c") = true := by decide +kernel
  obtain ⟨i, hi, htoken⟩ := List.any_eq_true.mp hissued
  exact .tail (.write "public.pem" (some "other"))
    (.tail (.request (some "a.b.c"))
      (.tail (.issue 7) (.tail (.write "public.pem" (some "public")) .refl trivial rfl) trivial rfl)
      (fun _ _ _ _ => ⟨i, hi, of_decide_eq_true htoken⟩) rfl)
    trivial rfl

theorem accessTokens_of_run_sample :
    overwritten.admitted.map (·.userId) = [7] ∧
      ∀ a ∈ overwritten.admitted, ∃ i ∈ overwritten.issued, i.token = a.token ∧ i.userId = a.userId ∧
        i.issuedAt ≤ a.admittedAt ∧ timestamp a.admittedAt ≤ timestamp (expiryOf i.cfg i.issuedAt) :=
  ⟨by decide +kernel, (accessTokens_of_run oneToken_ideal rfl rfl overwritten_run).1⟩

end Nivara.Auth
