import Mathlib

/-!
# Sealed texts under a list of keys

An authenticated cipher, of which only what an ideal one promises is used: a text that was sealed
with a key opens with that key and with no other (`Ideal`), and after a history of encryptions just
what they have sealed opens (`IdealAfter`). A reader tries the keys of a list in turn.

Results:

* `Aead.Ideal.openFirst_of_mem`: the key in the list, wherever it stands, opens the text.
* `Aead.Ideal.openFirst_of_not_mem`: a list without the key opens nothing.
* `Aead.IdealAfter.isSome_openFirst`: after a history, a list of keys opens what was sealed with one of them.
-/

namespace Nivara

/-- Authenticated encryption; `none` is an exception. -/
structure Aead (Key Nonce Plain Cipher : Type*) where
  encrypt : Key → Nonce → Plain → Option Cipher
  decrypt : Key → Nonce → Cipher → Option Plain

namespace Aead

variable {Key Nonce Plain Cipher Text : Type*}

/-- What was encrypted decrypts with its own key and fails with every other one. -/
structure Ideal (aead : Aead Key Nonce Plain Cipher) : Prop where
  decrypt_encrypt : ∀ {key nonce plain cipher}, aead.encrypt key nonce plain = some cipher →
    aead.decrypt key nonce cipher = some plain
  decrypt_other : ∀ {key nonce plain cipher other}, aead.encrypt key nonce plain = some cipher →
    other ≠ key → aead.decrypt other nonce cipher = none

/-- No text can be forged: after the encryptions that `made` tells of, their results decrypt and
    nothing else does. -/
structure IdealAfter (aead : Aead Key Nonce Plain Cipher) (made : Key → Nonce → Plain → Cipher → Prop) :
    Prop where
  decrypt_iff : ∀ {key nonce plain cipher},
    aead.decrypt key nonce cipher = some plain ↔ made key nonce plain cipher

/-- The text of the first key that decrypts to a text that can be read. -/
def openFirst (aead : Aead Key Nonce Plain Cipher) (read : Plain → Option Text) (keys : List Key)
    (nonce : Nonce) (cipher : Cipher) : Option Text :=
  keys.findSome? fun key => (aead.decrypt key nonce cipher).bind read

variable {aead : Aead Key Nonce Plain Cipher} {read : Plain → Option Text} {key : Key} {nonce : Nonce}
  {plain : Plain} {cipher : Cipher} {text : Text} {keys : List Key}

theorem Ideal.openFirst_of_not_mem (h : aead.Ideal) (hcipher : aead.encrypt key nonce plain = some cipher)
    (hkey : key ∉ keys) : aead.openFirst read keys nonce cipher = none := by
  refine List.findSome?_eq_none_iff.mpr fun other hother => ?_
  rw [h.decrypt_other hcipher (ne_of_mem_of_not_mem hother hkey), Option.bind_none]

theorem Ideal.openFirst_of_mem (h : aead.Ideal) (hcipher : aead.encrypt key nonce plain = some cipher)
    (hread : read plain = some text) (hkey : key ∈ keys) :
    aead.openFirst read keys nonce cipher = some text := by
  unfold openFirst
  induction keys with
  | nil => cases hkey
  | cons first keys ih =>
    by_cases hfirst : first = key
    · rw [hfirst, List.findSome?_cons, h.decrypt_encrypt hcipher, Option.bind_some, hread]
    · rw [List.findSome?_cons, h.decrypt_other hcipher hfirst, Option.bind_none]
      exact ih ((List.mem_cons.mp hkey).resolve_left (Ne.symm hfirst))

theorem IdealAfter.isSome_openFirst {made : Key → Nonce → Plain → Cipher → Prop} (h : aead.IdealAfter made)
    (hread : ∀ {key nonce plain cipher}, made key nonce plain cipher → (read plain).isSome) :
    (aead.openFirst read keys nonce cipher).isSome ↔ ∃ key ∈ keys, ∃ plain, made key nonce plain cipher := by
  unfold openFirst
  rw [List.findSome?_isSome_iff]
  refine exists_congr fun key => and_congr_right fun _ => ?_
  constructor
  · intro hopens
    obtain ⟨text, htext⟩ := Option.isSome_iff_exists.mp hopens
    obtain ⟨plain, hplain, _⟩ := Option.bind_eq_some_iff.mp htext
    exact ⟨plain, h.decrypt_iff.mp hplain⟩
  · rintro ⟨plain, hmade⟩
    rw [h.decrypt_iff.mpr hmade, Option.bind_some]
    exact hread hmade

end Aead

end Nivara
