import Nivara.Brokers.TokenEncryption

/-!
# Which blobs `decrypt_token` opens

`services/encryption.py`, lines 91–127, against bytes of any origin. The tag of AES-GCM covers the
ciphertext alone, since no associated data is given; the version is compared, and the key id is
read by nobody (decryption tries all keys in order, whatever it says).

* `Crypto.IdealAfter`: no ciphertext can be forged. What decrypts is what `encrypt_token` has
  encrypted.
* `withoutKid`: the bytes of a blob that bind it.

Results:

* `decryptToken_isOk_iff`: a string opens for a user just when all its bytes but the key id are those
  of a blob issued to the user, under a key of the list.
* `decryptToken_isOk_of_run`: so after every history of settings.
-/

namespace Nivara.Brokers

open Transition

variable {UserKey : Type} {crypto : Crypto UserKey}

/-- The encryptions behind the blobs. -/
def Encrypted (crypto : Crypto UserKey) (issued : List Issued) (key : UserKey)
    (nonce plaintext ciphertext : Bytes) : Prop :=
  ∃ r ∈ issued, ∃ n : Nonce, deriveUserKey crypto r.primary r.userId = key ∧ n.bytes = nonce ∧
    encodeUtf8 r.plaintext = plaintext ∧ r.blob = [1, 0] ++ n.bytes ++ ciphertext

/-- As `Crypto.Ideal`, with the ideal AEAD at a point of the history: nothing but what has been
    encrypted by then decrypts. -/
structure Crypto.IdealAfter (crypto : Crypto UserKey) (issued : List Issued) : Prop where
  aesgcm : crypto.aesgcm.IdealAfter (Encrypted crypto issued)
  tag : ∀ {key nonce plaintext ciphertext}, crypto.aesgcm.encrypt key nonce plaintext = some ciphertext →
    16 ≤ ciphertext.length
  hkdf : ∀ {salt salt' info master master'}, salt.length = salt'.length →
    crypto.hkdf salt info master = crypto.hkdf salt' info master' → salt = salt' ∧ master = master'

/-- A blob without its second byte, the key id. -/
def withoutKid (blob : Bytes) : Bytes := blob.eraseIdx 1

/-- What opens has the layout of a blob, and its ciphertext opens under a key of the list. -/
theorem exists_of_decryptToken_isOk {s : KeyState} {blob : Bytes} {userId : UUID} {text : String}
    (h : (decryptToken crypto s blob userId).1 = .ok text) :
    ∃ (masters : List MasterKey) (kid : UInt8) (nonce : Nonce) (ciphertext : Bytes),
      (masterKeys s).1 = .ok masters ∧ blob = 1 :: kid :: (nonce.bytes ++ ciphertext) ∧
      (crypto.aesgcm.openFirst decodeUtf8 (masters.map (deriveUserKey crypto · userId)) nonce.bytes
        ciphertext).isSome := by
  unfold decryptToken at h
  split_ifs at h with hshort
  dsimp only at h
  split_ifs at h with hversion
  obtain ⟨version, kid, rest, rfl⟩ : ∃ version kid rest, blob = version :: kid :: rest := by
    match blob, hshort with
    | [], hshort => exact absurd (by simp) hshort
    | [_], hshort => exact absurd (by simp) hshort
    | version :: kid :: rest, _ => exact ⟨version, kid, rest, rfl⟩
  obtain rfl : version = 1 := not_not.mp hversion
  rcases hmasters : masterKeys s with ⟨_ | masters, s₁⟩
  · simp only [hmasters] at h
    cases h
  have hnonce : (rest.take 12).length = 12 := by
    simp only [List.length_cons] at hshort
    rw [List.length_take]
    omega
  refine ⟨masters, kid, ⟨rest.take 12, hnonce⟩, rest.drop 12, rfl, ?_, ?_⟩
  · rw [List.take_append_drop]
  · simp only [hmasters, List.drop_succ_cons, List.drop_zero] at h
    split at h
    · exact Option.isSome_iff_exists.mpr ⟨_, ‹_›⟩
    · cases h

/-- A string that agrees with a blob but for the key id has its layout. -/
theorem eq_cons_of_withoutKid {blob rest : Bytes} {kid : UInt8} (hrest : rest ≠ [])
    (h : withoutKid blob = withoutKid (1 :: kid :: rest)) : ∃ kid', blob = 1 :: kid' :: rest := by
  match blob, h with
  | [_], h => exact absurd (List.cons.inj h).2.symm hrest
  | _ :: kid' :: _, h =>
    obtain ⟨rfl, rfl⟩ := List.cons.inj h
    exact ⟨kid', rfl⟩

/-- A string opens for a user if and only if it is, but for the key id, a blob that was issued to this
    user under a key of the list. -/
theorem decryptToken_isOk_iff {issued : List Issued} (h : crypto.IdealAfter issued)
    (hissued : ∀ r ∈ issued, r.Sealed crypto) (s : KeyState) (blob : Bytes) (userId : UUID) :
    (∃ text, (decryptToken crypto s blob userId).1 = .ok text) ↔
      ∃ masters, (masterKeys s).1 = .ok masters ∧
        ∃ r ∈ issued, r.userId = userId ∧ r.primary ∈ masters ∧ withoutKid blob = withoutKid r.blob := by
  have hread : ∀ {key nonce plain cipher}, Encrypted crypto issued key nonce plain cipher →
      (decodeUtf8 plain).isSome := by
    rintro key nonce plain cipher ⟨r, _, n, _, _, rfl, _⟩
    rw [decodeUtf8_encodeUtf8]
    rfl
  constructor
  · rintro ⟨text, hok⟩
    obtain ⟨masters, kid, nonce, ciphertext, hmasters, rfl, hopens⟩ := exists_of_decryptToken_isOk hok
    obtain ⟨key, hkey, plain, r, hr, n, hderived, hnonce, _, hblob⟩ :=
      (h.aesgcm.isSome_openFirst hread).mp hopens
    obtain ⟨master, hmaster, rfl⟩ := List.mem_map.mp hkey
    obtain ⟨huser, hprimary⟩ := deriveUserKey_injective h.hkdf hderived
    refine ⟨masters, hmasters, r, hr, huser, hprimary ▸ hmaster, ?_⟩
    rw [hblob, hnonce]
    rfl
  · rintro ⟨masters, hmasters, r, hr, rfl, hprimary, hsame⟩
    obtain ⟨nonce, ciphertext, hencrypt, hblob⟩ := hissued r hr
    have htag := h.tag hencrypt
    have hrest : nonce.bytes ++ ciphertext ≠ [] := by
      rw [← List.length_pos_iff, List.length_append]
      omega
    rw [hblob] at hsame
    obtain ⟨kid, rfl⟩ := eq_cons_of_withoutKid hrest hsame
    have hopens : (crypto.aesgcm.openFirst decodeUtf8 (masters.map (deriveUserKey crypto · r.userId))
        nonce.bytes ciphertext).isSome :=
      (h.aesgcm.isSome_openFirst hread).mpr
        ⟨_, List.mem_map_of_mem hprimary, _, r, hr, nonce, rfl, rfl, rfl, hblob⟩
    obtain ⟨text, htext⟩ := Option.isSome_iff_exists.mp hopens
    refine ⟨text, ?_⟩
    rw [decryptToken_cons crypto s kid nonce htag, hmasters]
    simp only [htext]

/-- After every history of settings and calls: `decrypt_token` raises for every string that is not, apart
    from the key id, a blob which `encrypt_token` has returned for the user under a key of the list, and
    for no other. -/
theorem decryptToken_isOk_of_run {start d : Deployment} (hstart : start.issued = [])
    (hrun : Run (fun d l d' => d.step crypto l = d') Unconditional start d) (h : crypto.IdealAfter d.issued)
    (blob : Bytes) (userId : UUID) :
    (∃ text, (decryptToken crypto d.toKeyState blob userId).1 = .ok text) ↔
      ∃ masters, (masterKeys d.toKeyState).1 = .ok masters ∧
        ∃ r ∈ d.issued, r.userId = userId ∧ r.primary ∈ masters ∧ withoutKid blob = withoutKid r.blob :=
  decryptToken_isOk_iff h (sealed_of_run hstart hrun) d.toKeyState blob userId

/-! ## One token -/

/-- The ciphertext of `rotatedToken`. -/
def rotatedCiphertext : Bytes := plainHeader (deriveUserKey plainCrypto oldKey 7) ++ encodeUtf8 "rotate-me"

/-- A cipher with which only `rotatedToken` has been encrypted. -/
def loneCrypto : Crypto Bytes where
  hkdf := plainCrypto.hkdf
  aesgcm :=
    { encrypt := plainCrypto.aesgcm.encrypt
      decrypt := fun key nonce ciphertext =>
        if key = deriveUserKey plainCrypto oldKey 7 ∧ nonce = zeroNonce.bytes ∧
          ciphertext = rotatedCiphertext
        then some (encodeUtf8 "rotate-me") else none }

def rotatedAlone : Deployment := rotation.foldl (Deployment.step loneCrypto) unconfigured

theorem rotatedAlone_issued : rotatedAlone.issued = [rotatedToken] := by decide +kernel

theorem loneCrypto_idealAfter : loneCrypto.IdealAfter rotatedAlone.issued where
  aesgcm :=
    { decrypt_iff := by
        intro key nonce plain cipher
        rw [rotatedAlone_issued]
        show (if _ then _ else _) = _ ↔ _
        constructor
        · intro hdecrypt
          split_ifs at hdecrypt with hcase
          obtain ⟨rfl, rfl, rfl⟩ := hcase
          exact ⟨rotatedToken, List.mem_singleton_self _, zeroNonce, rfl, rfl,
            Option.some.inj hdecrypt, rfl⟩
        · rintro ⟨r, hr, n, rfl, rfl, rfl, hblob⟩
          obtain rfl := List.mem_singleton.mp hr
          have hrest : zeroNonce.bytes ++ rotatedCiphertext = n.bytes ++ cipher :=
            (List.cons.inj (List.cons.inj hblob).2).2
          obtain ⟨hnonce, hcipher⟩ := List.append_inj hrest (by rw [zeroNonce.length_eq, n.length_eq])
          exact if_pos ⟨rfl, hnonce.symm, hcipher.symm⟩ }
  tag := by
    intro key nonce plain cipher hencrypt
    exact @plainCrypto_ideal.tag key nonce plain cipher hencrypt
  hkdf := fun hlength heq => List.append_inj heq hlength

theorem rotatedAlone_run :
    Run (fun d l d' => d.step loneCrypto l = d') Unconditional unconfigured rotatedAlone :=
  Run.of_foldl _ rotation

/-- The token with another key id. -/
def otherKid : Bytes := rotatedToken.blob.set 1 1

theorem decryptToken_isOk_of_run_sample :
    (∃ text, (decryptToken loneCrypto rotatedAlone.toKeyState otherKid 7).1 = .ok text) ↔
      ∃ masters, (masterKeys rotatedAlone.toKeyState).1 = .ok masters ∧
        ∃ r ∈ rotatedAlone.issued, r.userId = 7 ∧ r.primary ∈ masters ∧
          withoutKid otherKid = withoutKid r.blob :=
  decryptToken_isOk_of_run rfl rotatedAlone_run loneCrypto_idealAfter otherKid 7

/-- A token whose key id was altered opens, though no encryption has made it. -/
theorem otherKid_opens :
    loneCrypto.IdealAfter rotatedAlone.issued ∧ otherKid ∉ rotatedAlone.issued.map (·.blob) ∧
      (decryptToken loneCrypto rotatedAlone.toKeyState otherKid 7).1 = .ok "rotate-me" :=
  ⟨loneCrypto_idealAfter, by rw [rotatedAlone_issued]; decide +kernel, by decide +kernel⟩

end Nivara.Brokers
