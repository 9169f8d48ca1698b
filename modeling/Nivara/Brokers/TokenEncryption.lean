import Nivara.Common.Bytes
import Nivara.Lib.Aead
import Nivara.Lib.Transition

/-!
# Encrypted broker tokens

`services/encryption.py`: the list of master keys, `encrypt_token` under the first of them and
`decrypt_token` under each in turn.

* AES-GCM and HKDF are a parameter, and so are the random nonces. A key that HKDF derives is of a
  type of its own, since no function to 32 bytes is injective in a master key and a user.
* `Ideal` is what is promised of the two.
* `Deployment` is the settings and the cache of `_master_keys`, with each call and each change of
  the settings as one step. `issued` is history: the blobs that `encrypt_token` has returned.

Results:

* `decryptToken_of_sealed`: a blob opens for its user under the lists that have its key, and not otherwise.
* `decryptToken_of_run`: so it does after every history of settings.
-/

namespace Nivara.Brokers

open Transition

/-! ## Master keys -/

/-- A master key, of `_KEY_LEN` bytes. -/
structure MasterKey where
  bytes : Bytes
  length_eq : bytes.length = 32
  deriving DecidableEq

structure EncryptionError where
  message : String
  deriving DecidableEq, Repr

/-- `_decode_master_key`. -/
def decodeMasterKey (raw : String) : Except EncryptionError MasterKey :=
  match urlsafeB64decode (encodeUtf8 raw) with
  | none => .error ⟨"MASTER_ENCRYPTION_KEY is not valid base64"⟩
  | some key =>
    if h : key.length = 32 then .ok ⟨key, h⟩
    else .error ⟨s!"MASTER_ENCRYPTION_KEY must decode to 32 bytes, got {key.length}"⟩

/-- `_master_keys`, below its cache. -/
def loadMasterKeys (masterEncryptionKey : Option String) : Except EncryptionError (List MasterKey) :=
  let raw := strip (masterEncryptionKey.getD "")
  if raw = "" then .error ⟨"MASTER_ENCRYPTION_KEY is not configured"⟩
  else
    let parts := ((raw.toList.splitOn ',').map fun p => strip (String.ofList p)).filter (· ≠ "")
    if parts = [] then .error ⟨"MASTER_ENCRYPTION_KEY is empty after parsing"⟩
    else parts.mapM decodeMasterKey

/-- The settings of a process, and what `lru_cache` holds for `_master_keys`. -/
structure KeyState where
  masterEncryptionKey : Option String
  cachedKeys : Option (List MasterKey)

/-- `_master_keys`. An exception is not cached. -/
def masterKeys (s : KeyState) : Except EncryptionError (List MasterKey) × KeyState :=
  match s.cachedKeys with
  | some masters => (.ok masters, s)
  | none =>
    match loadMasterKeys s.masterEncryptionKey with
    | .ok masters => (.ok masters, { s with cachedKeys := some masters })
    | .error e => (.error e, s)

/-! ## Tokens -/

/-- `hkdf salt info master` is a derived key; the cipher is AES-GCM without associated data. -/
structure Crypto (UserKey : Type) where
  hkdf : Bytes → Bytes → Bytes → UserKey
  aesgcm : Aead UserKey Bytes Bytes Bytes

/-- 12 random bytes. -/
structure Nonce where
  bytes : Bytes
  length_eq : bytes.length = 12

/-- What `encrypt_token` can raise. -/
inductive EncryptException
  | encryption (error : EncryptionError)
  /-- The list of keys is empty. -/
  | indexError
  /-- From the cipher, for a text that is too long. -/
  | overflowError

variable {UserKey : Type} (crypto : Crypto UserKey)

/-- `_derive_user_key`. -/
def deriveUserKey (master : MasterKey) (userId : UUID) : UserKey :=
  crypto.hkdf (encodeUtf8 "investiq/hkdf-salt/v1/" ++ userId.bytes) (encodeUtf8 "investiq/broker-token/v1")
    master.bytes

/-- `encrypt_token`; `nonce` is what `os.urandom` returns. -/
def encryptToken (s : KeyState) (plaintext : String) (userId : UUID) (nonce : Nonce) :
    Except EncryptException Bytes × KeyState :=
  if plaintext = "" then (.error (.encryption ⟨"plaintext must be non-empty"⟩), s)
  else
    match masterKeys s with
    | (.error e, s) => (.error (.encryption e), s)
    | (.ok [], s) => (.error .indexError, s)
    | (.ok (master :: _), s) =>
      match crypto.aesgcm.encrypt (deriveUserKey crypto master userId) nonce.bytes (encodeUtf8 plaintext) with
      | none => (.error .overflowError, s)
      | some ciphertext => (.ok ([1, 0] ++ nonce.bytes ++ ciphertext), s)

def decryptionFailed : EncryptionError := ⟨"decryption failed under all configured master keys"⟩

/-- `decrypt_token`. -/
def decryptToken (s : KeyState) (blob : Bytes) (userId : UUID) : Except EncryptionError String × KeyState :=
  if blob.length < 2 + 12 + 16 then (.error ⟨"ciphertext blob is too short"⟩, s)
  else
    let version := blob.headD 0
    if version ≠ 1 then (.error ⟨s!"unsupported blob version {version}"⟩, s)
    else
      let nonce := (blob.drop 2).take 12
      let ciphertext := blob.drop (2 + 12)
      match masterKeys s with
      | (.error e, s) => (.error e, s)
      | (.ok masters, s) =>
        match crypto.aesgcm.openFirst decodeUtf8 (masters.map (deriveUserKey crypto · userId)) nonce
          ciphertext with
        | some plaintext => (.ok plaintext, s)
        | none => (.error decryptionFailed, s)

/-! ## A deployment over time -/

/-- A blob that `encrypt_token` has returned. -/
structure Issued where
  plaintext : String
  userId : UUID
  /-- The first master key at the time. -/
  primary : MasterKey
  blob : Bytes
  deriving DecidableEq

structure Deployment extends KeyState where
  issued : List Issued

inductive KeyEvent
  /-- Other settings; the cache stays as it is. -/
  | configure (masterEncryptionKey : Option String)
  | resetMasterKeyCache
  | encrypt (plaintext : String) (userId : UUID) (nonce : Nonce)
  | decrypt (blob : Bytes) (userId : UUID)

/-- One step of a deployment. -/
def Deployment.step (d : Deployment) : KeyEvent → Deployment
  | .configure masterEncryptionKey => { d with masterEncryptionKey := masterEncryptionKey }
  | .resetMasterKeyCache => { d with cachedKeys := none }
  | .encrypt plaintext userId nonce =>
    let (result, s) := encryptToken crypto d.toKeyState plaintext userId nonce
    match result, (masterKeys d.toKeyState).1 with
    | .ok blob, .ok (primary :: _) => ⟨s, ⟨plaintext, userId, primary, blob⟩ :: d.issued⟩
    | _, _ => ⟨s, d.issued⟩
  | .decrypt blob userId => ⟨(decryptToken crypto d.toKeyState blob userId).2, d.issued⟩

/-! ## What is promised of the cryptography -/

/-- An ideal AEAD with its tag of 16 bytes, and an HKDF without collisions. Salts of one length are
    all that is asked for: HMAC fills a short one up with zeros. -/
structure Crypto.Ideal (crypto : Crypto UserKey) : Prop where
  aesgcm : crypto.aesgcm.Ideal
  tag : ∀ {key nonce plaintext ciphertext}, crypto.aesgcm.encrypt key nonce plaintext = some ciphertext →
    16 ≤ ciphertext.length
  hkdf : ∀ {salt salt' info master master'}, salt.length = salt'.length →
    crypto.hkdf salt info master = crypto.hkdf salt' info master' → salt = salt' ∧ master = master'

variable {crypto : Crypto UserKey}

/-- Two derived keys are one only for one user and one master key. -/
theorem deriveUserKey_injective
    (hkdf : ∀ {salt salt' info master master'}, salt.length = salt'.length →
      crypto.hkdf salt info master = crypto.hkdf salt' info master' → salt = salt' ∧ master = master')
    {master master' : MasterKey} {userId userId' : UUID}
    (heq : deriveUserKey crypto master userId = deriveUserKey crypto master' userId') :
    userId = userId' ∧ master = master' := by
  have hlength : (encodeUtf8 "investiq/hkdf-salt/v1/" ++ userId.bytes).length =
      (encodeUtf8 "investiq/hkdf-salt/v1/" ++ userId'.bytes).length := by
    rw [List.length_append, List.length_append, UUID.length_bytes, UUID.length_bytes]
  obtain ⟨hsalt, hmaster⟩ := hkdf hlength heq
  refine ⟨UUID.bytes_injective (List.append_cancel_left hsalt), ?_⟩
  obtain ⟨bytes, _⟩ := master
  obtain ⟨bytes', _⟩ := master'
  obtain rfl : bytes = bytes' := hmaster
  rfl

/-! ## What a blob opens to -/

/-- What `encrypt_token` has made of a text, under its primary key. -/
def Issued.Sealed (crypto : Crypto UserKey) (r : Issued) : Prop :=
  ∃ (nonce : Nonce) (ciphertext : Bytes),
    crypto.aesgcm.encrypt (deriveUserKey crypto r.primary r.userId) nonce.bytes (encodeUtf8 r.plaintext) =
      some ciphertext ∧ r.blob = [1, 0] ++ nonce.bytes ++ ciphertext

/-- What `encrypt_token` returns, it has sealed under the first of the keys. -/
theorem sealed_of_encryptToken {s s' : KeyState} {plaintext : String} {userId : UUID} {nonce : Nonce}
    {blob : Bytes} {primary : MasterKey} {others : List MasterKey}
    (hkeys : (masterKeys s).1 = .ok (primary :: others))
    (h : encryptToken crypto s plaintext userId nonce = (.ok blob, s')) :
    (⟨plaintext, userId, primary, blob⟩ : Issued).Sealed crypto := by
  unfold encryptToken at h
  split_ifs at h with hplaintext
  · cases h
  rcases hmasters : masterKeys s with ⟨masters, s₁⟩
  rw [hmasters] at h hkeys
  obtain rfl : masters = .ok (primary :: others) := hkeys
  cases hencrypt : crypto.aesgcm.encrypt (deriveUserKey crypto primary userId) nonce.bytes
      (encodeUtf8 plaintext) with
  | none =>
    simp only [hencrypt] at h
    cases h
  | some ciphertext =>
    simp only [hencrypt] at h
    cases h
    exact ⟨nonce, ciphertext, hencrypt, rfl⟩

/-- Among the keys derived for a user, the one of the blob is there for its own user and its key. -/
theorem mem_map_deriveUserKey (h : crypto.Ideal) {r : Issued} {masters : List MasterKey} {userId : UUID} :
    deriveUserKey crypto r.primary r.userId ∈ masters.map (deriveUserKey crypto · userId) ↔
      userId = r.userId ∧ r.primary ∈ masters := by
  constructor
  · intro hmem
    obtain ⟨master, hmaster, heq⟩ := List.mem_map.mp hmem
    obtain ⟨huser, rfl⟩ := deriveUserKey_injective h.hkdf heq
    exact ⟨huser, hmaster⟩
  · rintro ⟨rfl, hmem⟩
    exact List.mem_map_of_mem hmem

/-- The layout, read back: the second byte has no part in what `decrypt_token` does. -/
theorem decryptToken_cons (crypto : Crypto UserKey) (s : KeyState) (kid : UInt8) (nonce : Nonce)
    {ciphertext : Bytes} (htag : 16 ≤ ciphertext.length) (userId : UUID) :
    (decryptToken crypto s (1 :: kid :: (nonce.bytes ++ ciphertext)) userId).1 =
      match (masterKeys s).1 with
      | .error e => .error e
      | .ok masters =>
        match crypto.aesgcm.openFirst decodeUtf8 (masters.map (deriveUserKey crypto · userId)) nonce.bytes
          ciphertext with
        | some plaintext => .ok plaintext
        | none => .error decryptionFailed := by
  have hlength : ¬ (1 :: kid :: (nonce.bytes ++ ciphertext)).length < 2 + 12 + 16 := by
    simp only [List.length_cons, List.length_append, nonce.length_eq]
    omega
  have hnonce : ((1 :: kid :: (nonce.bytes ++ ciphertext)).drop 2).take 12 = nonce.bytes := by
    show (nonce.bytes ++ ciphertext).take 12 = nonce.bytes
    rw [← nonce.length_eq, List.take_left]
  have hciphertext : (1 :: kid :: (nonce.bytes ++ ciphertext)).drop (2 + 12) = ciphertext := by
    rw [← List.drop_drop]
    show (nonce.bytes ++ ciphertext).drop 12 = ciphertext
    rw [← nonce.length_eq, List.drop_left]
  unfold decryptToken
  simp only [if_neg hlength, List.headD_cons, ne_eq, not_true_eq_false, if_false, hnonce, hciphertext]
  rcases masterKeys s with ⟨masters, s₁⟩
  cases masters with
  | error e => rfl
  | ok masters =>
    dsimp only
    split <;> rfl

/-- A blob opens for its user and with its key in the list, and otherwise not at all. -/
theorem decryptToken_of_sealed (h : crypto.Ideal) {r : Issued} (hr : r.Sealed crypto) (s : KeyState)
    (userId : UUID) :
    (decryptToken crypto s r.blob userId).1 =
      match (masterKeys s).1 with
      | .error e => .error e
      | .ok masters =>
        if userId = r.userId ∧ r.primary ∈ masters then .ok r.plaintext else .error decryptionFailed := by
  obtain ⟨nonce, ciphertext, hencrypt, hblob⟩ := hr
  rw [hblob]
  show (decryptToken crypto s (1 :: 0 :: (nonce.bytes ++ ciphertext)) userId).1 = _
  rw [decryptToken_cons crypto s 0 nonce (h.tag hencrypt)]
  rcases masterKeys s with ⟨masters, s₁⟩
  cases masters with
  | error e => rfl
  | ok masters =>
    dsimp only
    split_ifs with hopens
    · rw [h.aesgcm.openFirst_of_mem hencrypt (decodeUtf8_encodeUtf8 r.plaintext)
        ((mem_map_deriveUserKey h).mpr hopens)]
    · rw [h.aesgcm.openFirst_of_not_mem hencrypt (mt (mem_map_deriveUserKey h).mp hopens)]

/-! ## Histories -/

/-- Every blob of the history is sealed. -/
theorem sealed_step {d : Deployment} (h : ∀ r ∈ d.issued, r.Sealed crypto) (l : KeyEvent) :
    ∀ r ∈ (d.step crypto l).issued, r.Sealed crypto := by
  cases l with
  | configure masterEncryptionKey => exact h
  | resetMasterKeyCache => exact h
  | decrypt blob userId => exact h
  | encrypt plaintext userId nonce =>
    unfold Deployment.step
    dsimp only
    split
    next blob primary others hresult hkeys =>
      intro r hr
      rcases List.mem_cons.mp hr with rfl | hr
      · exact sealed_of_encryptToken hkeys (Prod.ext hresult rfl)
      · exact h r hr
    next => exact h

/-- So it is after every history. -/
theorem sealed_of_run {start d : Deployment} (hstart : start.issued = [])
    (hrun : Run (fun d l d' => d.step crypto l = d') Unconditional start d) :
    ∀ r ∈ d.issued, r.Sealed crypto := by
  refine hrun.invariant (I := fun d => ∀ r ∈ d.issued, r.Sealed crypto) ?_ fun d l d' hd _ hstep => ?_
  · rw [hstart]
    exact nofun
  · rw [← hstep]
    exact sealed_step hd l

/-- After every history: a blob opens for its user under the lists in force that have its primary key,
    wherever it stands in them, and `decrypt_token` raises in every other case. -/
theorem decryptToken_of_run (h : crypto.Ideal) {start d : Deployment} (hstart : start.issued = [])
    (hrun : Run (fun d l d' => d.step crypto l = d') Unconditional start d) {r : Issued} (hr : r ∈ d.issued)
    (userId : UUID) :
    (decryptToken crypto d.toKeyState r.blob userId).1 =
      match (masterKeys d.toKeyState).1 with
      | .error e => .error e
      | .ok masters =>
        if userId = r.userId ∧ r.primary ∈ masters then .ok r.plaintext else .error decryptionFailed :=
  decryptToken_of_sealed h (sealed_of_run hstart hrun r hr) d.toKeyState userId

/-! ## A rotation -/

/-- The key, marked byte by byte, and a tag of zeros. -/
def plainHeader (key : Bytes) : Bytes := (key.flatMap fun b => [1, b]) ++ List.replicate 16 0

/-- A cipher that hides nothing, and is ideal. -/
def plainCrypto : Crypto Bytes where
  hkdf salt _ master := salt ++ master
  aesgcm :=
    { encrypt := fun key _ plaintext => some (plainHeader key ++ plaintext)
      decrypt := fun key _ ciphertext =>
        if (plainHeader key).isPrefixOf ciphertext then some (ciphertext.drop (plainHeader key).length)
        else none }

/-- No header begins another. -/
theorem plainHeader_injective {key key' rest rest' : Bytes}
    (h : plainHeader key ++ rest = plainHeader key' ++ rest') : key = key' := by
  unfold plainHeader at h
  induction key generalizing key' with
  | nil =>
    cases key' with
    | nil => rfl
    | cons b' key' => exact absurd (List.cons.inj h).1 (by decide)
  | cons b key ih =>
    cases key' with
    | nil => exact absurd (List.cons.inj h).1 (by decide)
    | cons b' key' =>
      simp only [List.flatMap_cons, List.cons_append, List.nil_append, List.cons.injEq, true_and] at h
      obtain ⟨rfl, h⟩ := h
      rw [ih h]

theorem plainCrypto_ideal : plainCrypto.Ideal where
  aesgcm :=
    { decrypt_encrypt := by
        intro key nonce plain cipher hencrypt
        obtain rfl : plainHeader key ++ plain = cipher := Option.some.inj hencrypt
        show (if _ then _ else _) = _
        rw [if_pos (List.isPrefixOf_iff_prefix.mpr (List.prefix_append _ _)), List.drop_left]
      decrypt_other := by
        intro key nonce plain cipher other hencrypt hother
        obtain rfl : plainHeader key ++ plain = cipher := Option.some.inj hencrypt
        refine if_neg fun hprefix => hother ?_
        obtain ⟨rest, hrest⟩ := List.isPrefixOf_iff_prefix.mp hprefix
        exact plainHeader_injective hrest }
  tag := by
    intro key nonce plain cipher hencrypt
    obtain rfl : plainHeader key ++ plain = cipher := Option.some.inj hencrypt
    simp only [plainHeader, List.length_append, List.length_replicate]
    omega
  hkdf := fun hlength heq => List.append_inj heq hlength

def oldKey : MasterKey := ⟨List.replicate 32 0, rfl⟩

def zeroNonce : Nonce := ⟨List.replicate 12 0, rfl⟩

/-- One key, and then a new one before it. -/
def rotation : List KeyEvent :=
  [.configure (some "AAAAAAAAAAAAAAAAAAAAAAAAAAAAAAAAAAAAAAAAAAA="),
    .encrypt "rotate-me" 7 zeroNonce,
    .configure (some "BBBBBBBBBBBBBBBBBBBBBBBBBBBBBBBBBBBBBBBBBBB=,AAAAAAAAAAAAAAAAAAAAAAAAAAAAAAAAAAAAAAAAAAA="),
    .resetMasterKeyCache]

/-- Nothing is configured at the start. -/
def unconfigured : Deployment := ⟨⟨none, none⟩, []⟩

def rotated : Deployment := rotation.foldl (Deployment.step plainCrypto) unconfigured

/-- The blob of before the rotation. -/
def rotatedToken : Issued :=
  ⟨"rotate-me", 7, oldKey, [1, 0] ++ zeroNonce.bytes ++
    (plainHeader (deriveUserKey plainCrypto oldKey 7) ++ encodeUtf8 "rotate-me")⟩

theorem rotated_issued : rotated.issued = [rotatedToken] := by decide +kernel

theorem oldKey_mem_rotated : (masterKeys rotated.toKeyState).1.toOption.any (oldKey ∈ ·) := by
  decide +kernel

theorem decryptToken_of_run_sample :
    (decryptToken plainCrypto rotated.toKeyState rotatedToken.blob 7).1 = .ok "rotate-me" := by
  have hrun : Run (fun d l d' => d.step plainCrypto l = d') Unconditional unconfigured rotated :=
    Run.of_foldl _ rotation
  rw [decryptToken_of_run plainCrypto_ideal rfl hrun
    (rotated_issued ▸ List.mem_singleton_self rotatedToken)]
  have hold := oldKey_mem_rotated
  cases hmasters : (masterKeys rotated.toKeyState).1 with
  | error e =>
    rw [hmasters] at hold
    cases hold
  | ok masters =>
    rw [hmasters] at hold
    exact if_pos ⟨rfl, of_decide_eq_true hold⟩

end Nivara.Brokers
