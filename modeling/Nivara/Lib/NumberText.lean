import Mathlib

/-!
# Texts of numbers

A number in the scientific notation: digits, a point with more digits, and an exponent, each of
the last two when it is there.

Results:

* `NumberText.chars_injective`: the text determines its parts.
* `NumberText.mem_chars`: which characters it has.
-/

namespace Nivara.NumberTexts

/-- The digits before and after the point, and what follows the `E`. -/
structure NumberText where
  whole : List Char
  fraction : List Char
  exponent : Option ℤ

/-- A number with its sign, `%+d`. -/
def signed (n : ℤ) : List Char := (if n < 0 then '-' else '+') :: Nat.toDigits 10 n.natAbs

/-- The two parts before the exponent are digits. -/
structure NumberText.IsDigits (t : NumberText) : Prop where
  whole : ∀ c ∈ t.whole, c.isDigit = true
  fraction : ∀ c ∈ t.fraction, c.isDigit = true

namespace NumberText

/-- What follows the digits. -/
def exponentChars (t : NumberText) : List Char := t.exponent.elim [] fun e => 'E' :: signed e

/-- What follows the point. -/
def fractionChars (t : NumberText) : List Char := if t.fraction = [] then [] else '.' :: t.fraction

def chars (t : NumberText) : List Char := t.whole ++ (t.fractionChars ++ t.exponentChars)

end NumberText

theorem isDigit_of_mem_toDigits {c : Char} {n : ℕ} (h : c ∈ Nat.toDigits 10 n) : c.isDigit = true :=
  Nat.isDigit_of_mem_toDigits (by decide) (by decide) h

theorem toDigits_injective {m n : ℕ} (h : Nat.toDigits 10 m = Nat.toDigits 10 n) : m = n := by
  have hvalue := congrArg (Nat.ofDigitChars 10 · 0) h
  simpa only [Nat.ofDigitChars_ten_toDigits] using hvalue

theorem signed_injective {m n : ℤ} (h : signed m = signed n) : m = n := by
  obtain ⟨hsign, hdigits⟩ := List.cons.inj h
  have habs := toDigits_injective hdigits
  split_ifs at hsign with hm hn hn
  · omega
  · exact absurd hsign (by decide)
  · exact absurd hsign (by decide)
  · omega

/-- Digits that are followed by no digit can be told from what follows them. -/
theorem of_digits_append {l l' r r' : List Char} (hl : ∀ c ∈ l, c.isDigit = true)
    (hl' : ∀ c ∈ l', c.isDigit = true) (hr : ∀ c ∈ r.head?, c.isDigit = false)
    (hr' : ∀ c ∈ r'.head?, c.isDigit = false) (h : l ++ r = l' ++ r') : l = l' ∧ r = r' := by
  have hstop : ∀ s : List Char, (∀ c ∈ s.head?, c.isDigit = false) → s.takeWhile Char.isDigit = [] := by
    intro s hs
    cases s with
    | nil => rfl
    | cons c s => exact List.takeWhile_cons_of_neg (by rw [hs c rfl]; exact Bool.false_ne_true)
  have htake := congrArg (List.takeWhile Char.isDigit) h
  rw [List.takeWhile_append_of_pos hl, List.takeWhile_append_of_pos hl', hstop r hr, hstop r' hr',
    List.append_nil, List.append_nil] at htake
  subst htake
  exact ⟨rfl, List.append_cancel_left h⟩

namespace NumberText

variable {t t' : NumberText}

theorem head_exponentChars (t : NumberText) : ∀ c ∈ t.exponentChars.head?, c = 'E' := by
  unfold exponentChars
  cases t.exponent with
  | none => simp
  | some e => simp

theorem exponentChars_injective (h : t.exponentChars = t'.exponentChars) : t.exponent = t'.exponent := by
  unfold exponentChars at h
  cases hexp : t.exponent with
  | none =>
    cases hexp' : t'.exponent with
    | none => rfl
    | some e' =>
      rw [hexp, hexp'] at h
      cases h
  | some e =>
    cases hexp' : t'.exponent with
    | none =>
      rw [hexp, hexp'] at h
      cases h
    | some e' =>
      rw [hexp, hexp'] at h
      exact congrArg some (signed_injective (List.cons.inj h).2)

/-- The fraction and the exponent can be told apart. -/
theorem of_fraction_append (ht : t.IsDigits) (ht' : t'.IsDigits)
    (h : t.fractionChars ++ t.exponentChars = t'.fractionChars ++ t'.exponentChars) :
    t.fraction = t'.fraction ∧ t.exponentChars = t'.exponentChars := by
  have hhead : ∀ s : NumberText, ∀ c ∈ s.exponentChars.head?, c.isDigit = false := by
    intro s c hc
    rw [head_exponentChars s c hc]
    rfl
  unfold fractionChars at h
  split_ifs at h with hnil hnil' hnil'
  · exact ⟨hnil.trans hnil'.symm, h⟩
  · have hpoint : '.' ∈ t.exponentChars.head? := by
      rw [List.nil_append] at h
      rw [h]
      rfl
    exact absurd (head_exponentChars t _ hpoint) (by decide)
  · have hpoint : '.' ∈ t'.exponentChars.head? := by
      rw [List.nil_append] at h
      rw [← h]
      rfl
    exact absurd (head_exponentChars t' _ hpoint) (by decide)
  · exact of_digits_append ht.fraction ht'.fraction (hhead t) (hhead t') (List.cons.inj h).2

/-- The text determines its parts. -/
theorem chars_injective (ht : t.IsDigits) (ht' : t'.IsDigits) (h : t.chars = t'.chars) : t = t' := by
  have hhead : ∀ s : NumberText, ∀ c ∈ (s.fractionChars ++ s.exponentChars).head?, c.isDigit = false := by
    intro s c hc
    unfold fractionChars at hc
    split_ifs at hc
    · rw [head_exponentChars s c hc]
      rfl
    · cases hc
      rfl
  obtain ⟨hwhole, hrest⟩ := of_digits_append ht.whole ht'.whole (hhead t) (hhead t') h
  obtain ⟨hfraction, hexponent⟩ := of_fraction_append ht ht' hrest
  have hexponent := exponentChars_injective hexponent
  obtain ⟨whole, fraction, exponent⟩ := t
  obtain ⟨whole', fraction', exponent'⟩ := t'
  dsimp only at hwhole hfraction hexponent
  rw [hwhole, hfraction, hexponent]

/-- A number has digits, a point, an `E` and signs. -/
theorem mem_chars {c : Char} (ht : t.IsDigits) (h : c ∈ t.chars) :
    c.isDigit = true ∨ c ∈ ['.', 'E', '+', '-'] := by
  unfold chars fractionChars exponentChars signed at h
  rcases List.mem_append.mp h with h | h
  · exact .inl (ht.whole c h)
  rcases List.mem_append.mp h with h | h
  · split_ifs at h
    · cases h
    · rcases List.mem_cons.mp h with rfl | h
      · exact .inr (by decide)
      · exact .inl (ht.fraction c h)
  · cases hexp : t.exponent with
    | none =>
      rw [hexp] at h
      cases h
    | some e =>
      rw [hexp] at h
      rcases List.mem_cons.mp h with rfl | h
      · exact .inr (by decide)
      rcases List.mem_cons.mp h with rfl | h
      · split_ifs <;> exact .inr (by decide)
      · exact .inl (isDigit_of_mem_toDigits h)

end NumberText

end Nivara.NumberTexts
