import Nivara.Common.Text

/-!
# Bytes

`bytes` is a list of `UInt8`.

* `encodeUtf8` and `decodeUtf8` are `str.encode("utf-8")` and `bytes.decode("utf-8")`, for strings
  without surrogates.
* `urlsafeB64decode` is `base64.urlsafe_b64decode`, which passes over every character that is not of
  the alphabet and ends at a padding that is complete.

Results:

* `decodeUtf8_encodeUtf8`: a text can be read back from its bytes.
* `UUID.bytes_injective`: and a UUID from its own.
-/

namespace Nivara

abbrev Bytes := List UInt8

/-! ## UTF-8 -/

/-- `text.encode("utf-8")`. -/
def encodeUtf8 (text : String) : Bytes := text.toByteArray.data.toList

/-- `bytes.decode("utf-8")`; `none` is a `UnicodeDecodeError`. -/
def decodeUtf8 (bytes : Bytes) : Option String := String.fromUTF8? ⟨bytes.toArray⟩

theorem decodeUtf8_encodeUtf8 (text : String) : decodeUtf8 (encodeUtf8 text) = some text :=
  dif_pos text.isValidUTF8

/-! ## UUIDs -/

namespace UUID

/-- The `n` low bytes of `x`, least significant first. -/
def lowBytes : (n x : ℕ) → Bytes
  | 0, _ => []
  | n + 1, x => UInt8.ofNat (x % 256) :: lowBytes n (x / 256)

/-- `uuid.bytes`. -/
def bytes (u : UUID) : Bytes := (lowBytes 16 u.toNat).reverse

@[simp] theorem length_lowBytes (n x : ℕ) : (lowBytes n x).length = n := by
  induction n generalizing x with
  | zero => rfl
  | succ n ih => rw [lowBytes, List.length_cons, ih]

theorem length_bytes (u : UUID) : u.bytes.length = 16 := by
  rw [bytes, List.length_reverse, length_lowBytes]

theorem lowBytes_injective {n : ℕ} :
    ∀ {x y : ℕ}, x < 256 ^ n → y < 256 ^ n → lowBytes n x = lowBytes n y → x = y := by
  induction n with
  | zero =>
    intro x y hx hy _
    rw [pow_zero] at hx hy
    omega
  | succ n ih =>
    intro x y hx hy h
    obtain ⟨hbyte, hrest⟩ := List.cons.inj h
    have hlow : x % 256 = y % 256 := by
      have hbyte := congrArg UInt8.toNat hbyte
      simpa using hbyte
    have hhigh : x / 256 = y / 256 := by
      apply ih _ _ hrest <;> rw [Nat.div_lt_iff_lt_mul (by norm_num)] <;> rwa [← pow_succ]
    omega

theorem bytes_injective {u v : UUID} (h : u.bytes = v.bytes) : u = v := by
  have h256 : (256 : ℕ) ^ 16 = 2 ^ 128 := by norm_num
  apply BitVec.eq_of_toNat_eq
  apply lowBytes_injective (n := 16) (by rw [h256]; exact u.isLt) (by rw [h256]; exact v.isLt)
  exact List.reverse_injective h

end UUID

/-! ## Base 64 -/

/-- `table_a2b_base64`. -/
def sextet (c : UInt8) : Option UInt8 :=
  if 65 ≤ c ∧ c ≤ 90 then some (c - 65)
  else if 97 ≤ c ∧ c ≤ 122 then some (c - 71)
  else if 48 ≤ c ∧ c ≤ 57 then some (c + 4)
  else if c = 43 then some 62
  else if c = 47 then some 63
  else none

/-- The loop of `binascii.a2b_base64`: `quadPos` characters of a group of four are read, `leftchar`
    are the bits of the last one that no byte has yet, and `pads` the pads since. -/
def a2bBase64Loop (quadPos : ℕ) (leftchar : UInt8) (pads : ℕ) : Bytes → Option Bytes
  | [] => if quadPos = 0 then some [] else none
  | c :: rest =>
    if c = 61 then
      if 2 ≤ quadPos then
        -- a complete padding ends the input
        if 4 ≤ quadPos + (pads + 1) then some [] else a2bBase64Loop quadPos leftchar (pads + 1) rest
      else a2bBase64Loop quadPos leftchar pads rest
    else
      match sextet c with
      | none => a2bBase64Loop quadPos leftchar pads rest
      | some v =>
        match quadPos with
        | 0 => a2bBase64Loop 1 v 0 rest
        | 1 => (a2bBase64Loop 2 (v &&& 0x0f) 0 rest).map ((leftchar <<< 2 ||| v >>> 4) :: ·)
        | 2 => (a2bBase64Loop 3 (v &&& 0x03) 0 rest).map ((leftchar <<< 4 ||| v >>> 2) :: ·)
        | _ => (a2bBase64Loop 0 0 0 rest).map ((leftchar <<< 6 ||| v) :: ·)

/-- `base64.urlsafe_b64decode`; `none` is a `binascii.Error`. -/
def urlsafeB64decode (s : Bytes) : Option Bytes :=
  a2bBase64Loop 0 0 0 (s.map fun c => if c = 45 then 43 else if c = 95 then 47 else c)

example : urlsafeB64decode (encodeUtf8 "-_A=") = some [251, 240] := by decide

end Nivara
