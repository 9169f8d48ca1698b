import Mathlib

/-!
# Strings and identifiers

Text operations of the Python code that the services compute with.

* `strip` is `str.strip()`: it removes the characters with `str.isspace()` from
  both ends. The list of those characters is complete.
* `str.upper()` is not modelled here. It is a table over all of Unicode, so each
  function that calls it takes `upper : String → String` as a parameter and the
  theorems hold for every such function.
* `UUID.str` is `str(uuid)`: 32 lower-case hexadecimal digits, grouped
  8-4-4-4-12.

Results:

* `UUID.parse_str`: a rendering is read back.
* `UUID.str_injective`, `UUID.str_length`: the rendering is injective and has 36
  characters.
* `colonKey_injective`: a key `f"{uuid}:{uuid}:{text}"` determines its parts.
* `of_append_separator`: a text is split at its last separator in one way.
-/

namespace Nivara

/-! ## `str.strip` -/

/-- The code points with `str.isspace()`. -/
def isSpace (c : Char) : Bool :=
  let n := c.toNat
  (9 ≤ n && n ≤ 13) || (28 ≤ n && n ≤ 32) || n == 0x85 || n == 0xA0 || n == 0x1680 ||
    (0x2000 ≤ n && n ≤ 0x200A) || n == 0x2028 || n == 0x2029 || n == 0x202F || n == 0x205F ||
    n == 0x3000

/-- `str.strip()`. -/
def strip (s : String) : String :=
  String.ofList ((s.toList.dropWhile isSpace).reverse.dropWhile isSpace).reverse

example : strip " AAPL\n" = "AAPL" := by decide

/-! ## UUIDs -/

/-- `uuid.UUID`: a 128-bit value. -/
abbrev UUID := BitVec 128

namespace UUID

/-- Named, so that the definitions that look an id up share it. -/
instance : LawfulBEq UUID := inferInstance

/-- One lower-case hexadecimal digit. -/
def hexDigit (d : ℕ) : Char := if d < 10 then Char.ofNat (48 + d) else Char.ofNat (87 + d)

/-- The `n` low hexadecimal digits of `x`, least significant first. -/
def hexDigits : (n x : ℕ) → List Char
  | 0, _ => []
  | n + 1, x => hexDigit (x % 16) :: hexDigits n (x / 16)

/-- `uuid.hex`. -/
def hex (u : UUID) : List Char := (hexDigits 32 u.toNat).reverse

/-- `str(uuid)`. -/
def str (u : UUID) : String :=
  let h := hex u
  String.ofList (h.take 8 ++ '-' :: (h.drop 8).take 4 ++ '-' :: (h.drop 12).take 4 ++
    '-' :: (h.drop 16).take 4 ++ '-' :: h.drop 20)

example : str 255 = "00000000-0000-0000-0000-0000000000ff" := by decide

theorem hexDigit_injective {a b : ℕ} (ha : a < 16) (hb : b < 16) (h : hexDigit a = hexDigit b) :
    a = b := by
  interval_cases a <;> interval_cases b <;> first | rfl | exact absurd h (by decide)

@[simp] theorem length_hexDigits (n x : ℕ) : (hexDigits n x).length = n := by
  induction n generalizing x with
  | zero => rfl
  | succ n ih => simp [hexDigits, ih]

theorem hexDigits_injective {n : ℕ} :
    ∀ {x y : ℕ}, x < 16 ^ n → y < 16 ^ n → hexDigits n x = hexDigits n y → x = y := by
  induction n with
  | zero => intro x y hx hy _; simp only [pow_zero, Nat.lt_one_iff] at hx hy; omega
  | succ n ih =>
    intro x y hx hy h
    obtain ⟨h0, h1⟩ := List.cons.inj h
    have hlow : x % 16 = y % 16 := hexDigit_injective (by omega) (by omega) h0
    have hhigh : x / 16 = y / 16 := by
      apply ih _ _ h1 <;> rw [Nat.div_lt_iff_lt_mul (by norm_num)] <;> rwa [← pow_succ]
    omega

/-- A character that is no digit is not among the digits. -/
theorem not_mem_hexDigits {c : Char} (hc : ∀ a < 16, hexDigit a ≠ c) (n x : ℕ) : c ∉ hexDigits n x := by
  induction n generalizing x with
  | zero => simp [hexDigits]
  | succ n ih =>
    intro h
    rcases List.mem_cons.mp h with h | h
    · exact hc _ (Nat.mod_lt _ (by norm_num)) h.symm
    · exact ih _ h

theorem dash_not_mem_hexDigits (n x : ℕ) : '-' ∉ hexDigits n x :=
  not_mem_hexDigits (fun a ha => by interval_cases a <;> decide) n x

theorem hex_injective {u v : UUID} (h : hex u = hex v) : u = v := by
  have h16 : (16 : ℕ) ^ 32 = 2 ^ 128 := by norm_num
  apply BitVec.eq_of_toNat_eq
  apply hexDigits_injective (n := 32) (by rw [h16]; exact u.isLt) (by rw [h16]; exact v.isLt)
  exact List.reverse_injective h

/-- Dropping the dashes of `str u` gives `hex u` back. -/
theorem filter_str (u : UUID) : (str u).toList.filter (· ≠ '-') = hex u := by
  have hdash : ∀ l : List Char, (∀ c ∈ l, c ∈ hex u) → l.filter (· ≠ '-') = l := by
    intro l hl
    apply List.filter_eq_self.mpr
    intro c hc
    have hne : c ≠ '-' := by
      rintro rfl
      exact dash_not_mem_hexDigits 32 u.toNat (List.mem_reverse.mp (hl _ hc))
    simpa using hne
  have htake : ∀ a b, ((hex u).drop a).take b ⊆ hex u := fun a b c hc =>
    List.mem_of_mem_drop (List.mem_of_mem_take hc)
  simp only [str, String.toList_ofList, List.filter_append, List.filter_cons, ne_eq,
    not_true_eq_false, decide_false, Bool.false_eq_true, if_false]
  have h0 := hdash ((hex u).take 8) fun c hc => List.mem_of_mem_take hc
  have h1 := hdash (((hex u).drop 8).take 4) fun c hc => htake 8 4 hc
  have h2 := hdash (((hex u).drop 12).take 4) fun c hc => htake 12 4 hc
  have h3 := hdash (((hex u).drop 16).take 4) fun c hc => htake 16 4 hc
  have h4 := hdash ((hex u).drop 20) fun c hc => List.mem_of_mem_drop hc
  simp only [ne_eq] at h0 h1 h2 h3 h4
  rw [h0, h1, h2, h3, h4]
  have hstep : ∀ a, ((hex u).drop a).take 4 ++ (hex u).drop (a + 4) = (hex u).drop a := by
    intro a
    rw [← List.drop_drop, List.take_append_drop]
  rw [List.append_assoc, List.append_assoc, List.append_assoc, hstep 16, hstep 12, hstep 8,
    List.take_append_drop]

theorem str_injective {u v : UUID} (h : str u = str v) : u = v := by
  apply hex_injective
  rw [← filter_str, ← filter_str, h]

theorem str_length (u : UUID) : (str u).toList.length = 36 := by
  simp [str, hex]

/-! ### Reading -/

/-- The value of a lower-case hexadecimal digit. -/
def digitValue (c : Char) : Option ℕ :=
  if '0' ≤ c ∧ c ≤ '9' then some (c.toNat - 48) else if 'a' ≤ c ∧ c ≤ 'f' then some (c.toNat - 87) else none

/-- What digits stand for, the least significant first. -/
def ofDigits : List Char → Option ℕ
  | [] => some 0
  | c :: l => do
    let d ← digitValue c
    let x ← ofDigits l
    pure (d + 16 * x)

/-- `UUID(value)` of 32 digits, with any dashes between them. -/
def parse (value : String) : Option UUID :=
  let digits := value.toList.filter (· ≠ '-')
  if digits.length = 32 then (ofDigits digits.reverse).map (BitVec.ofNat 128) else none

theorem ofDigits_hexDigits {n : ℕ} : ∀ {x : ℕ}, x < 16 ^ n → ofDigits (hexDigits n x) = some x := by
  induction n with
  | zero =>
    intro x hx
    simp only [pow_zero, Nat.lt_one_iff] at hx
    rw [hx]
    rfl
  | succ n ih =>
    intro x hx
    have hdigit : ∀ d < 16, digitValue (hexDigit d) = some d := by decide
    have hhigh : x / 16 < 16 ^ n := by
      rw [Nat.div_lt_iff_lt_mul (by norm_num), ← pow_succ]
      exact hx
    simp only [hexDigits, ofDigits, hdigit _ (Nat.mod_lt x (by norm_num)), ih hhigh]
    exact congrArg some (Nat.mod_add_div x 16)

/-- What `str` writes is read back. -/
theorem parse_str (u : UUID) : parse (str u) = some u := by
  have h16 : (16 : ℕ) ^ 32 = 2 ^ 128 := by norm_num
  have hdigits : ofDigits (hexDigits 32 u.toNat) = some u.toNat :=
    ofDigits_hexDigits (by rw [h16]; exact u.isLt)
  simp only [parse, filter_str, hex, List.length_reverse, length_hexDigits, if_true, List.reverse_reverse,
    hdigits, Option.map_some, BitVec.ofNat_toNat, BitVec.setWidth_eq]

end UUID

/-- `f"{a}:{b}:{text}"`. -/
def colonKey (a b : UUID) (text : String) : String := s!"{a.str}:{b.str}:{text}"

/-- A UUID has a rendering of fixed length, so the three parts of a key can be
    read back. -/
theorem colonKey_injective {a b a' b' : UUID} {t t' : String}
    (h : colonKey a b t = colonKey a' b' t') : a = a' ∧ b = b' ∧ t = t' := by
  have hlen : ∀ u v : UUID, u.str.toList.length = v.str.toList.length := fun u v => by
    rw [UUID.str_length, UUID.str_length]
  have hlist : a.str.toList ++ ':' :: (b.str.toList ++ ':' :: t.toList) =
      a'.str.toList ++ ':' :: (b'.str.toList ++ ':' :: t'.toList) := by
    simpa [colonKey, toString] using congrArg String.toList h
  obtain ⟨ha, hrest⟩ := List.append_inj hlist (hlen a a')
  obtain ⟨hb, ht⟩ := List.append_inj (List.cons.inj hrest).2 (hlen b b')
  exact ⟨UUID.str_injective (String.toList_inj.mp ha), UUID.str_injective (String.toList_inj.mp hb),
    String.toList_inj.mp (List.cons.inj ht).2⟩

/-! ## Separators -/

/-- Two ways to split a list at a separator that does not occur after it are the same. -/
theorem of_append_separator {α : Type*} {c : α} {x x' y y' : List α} (hy : c ∉ y) (hy' : c ∉ y')
    (h : x ++ c :: y = x' ++ c :: y') : x = x' ∧ y = y' := by
  rcases List.append_eq_append_iff.mp h with ⟨d, rfl, hd⟩ | ⟨d, rfl, hd⟩
  · cases d with
    | nil => exact ⟨by simp, (List.cons.inj hd).2⟩
    | cons e d =>
      have hmem : c ∈ y := by rw [(List.cons.inj hd).2]; simp
      exact absurd hmem hy
  · cases d with
    | nil => exact ⟨by simp, (List.cons.inj hd).2.symm⟩
    | cons e d =>
      have hmem : c ∈ y' := by rw [(List.cons.inj hd).2]; simp
      exact absurd hmem hy'

end Nivara
