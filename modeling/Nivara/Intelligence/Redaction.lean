import Nivara.Intelligence.Sanitizer
import Nivara.Lib.Replace

/-!
# Redaction of personal data

`redact_pii` (`intelligence/ai_analysis/sanitizer.py`, lines 23–25 and 43–47): the addresses are replaced,
and then the telephone numbers.

* A text is the list of its code points.
* `\d` and `\s` of a pattern on `str` are those of Unicode: the decimal digits of every script, and the
  characters with `str.isspace()`.

Results:

* `redactPii_clean`: the output has no match of either pattern, and redacting it changes nothing.
-/

namespace Nivara.Intelligence

open Regexp Literals

/-! ## Model -/

/-- `[A-Za-z]`. -/
def isAsciiLetter (c : ℕ) : Bool := (65 ≤ c && c ≤ 90) || (97 ≤ c && c ≤ 122)

/-- `[A-Za-z0-9._%+-]`. -/
def isLocalChar (c : ℕ) : Bool := isAsciiLetter c || isAsciiDigit c || c ∈ py "._%+-"

/-- `[A-Za-z0-9.-]`. -/
def isDomainChar (c : ℕ) : Bool := isAsciiLetter c || isAsciiDigit c || c ∈ py ".-"

/-- `[A-Za-z0-9._%+-]+@[A-Za-z0-9.-]+\.[A-Za-z]{2,}`. -/
def emailBody : Regex ℕ :=
  .seq (.some_ isLocalChar) (.seq (symbol '@') (.seq (.some_ isDomainChar) (.seq (symbol '.')
    (.seq (.char isAsciiLetter) (.some_ isAsciiLetter)))))

/-- `\d`. -/
def isDigitAt (c : ℕ) : Bool := (toDecimal c).isSome

/-- `[\d\-\s().]`. -/
def isPhoneChar (c : ℕ) : Bool := isDigitAt c || isSpaceAt c || c ∈ py "-()."

/-- `\d[\d\-\s().]{7,}\d`. -/
def phoneDigits : Regex ℕ :=
  .seq (.char isDigitAt) (.seq (.seq (.times 7 (.char isPhoneChar)) (.many isPhoneChar)) (.char isDigitAt))

/-- `\+?\d[\d\-\s().]{7,}\d`. -/
def phoneBody : Regex ℕ := .seq (.opt (symbol '+')) phoneDigits

/-- `(?<!\d)` and `(?!\d)`. -/
def noDigit (c : Option ℕ) : Bool := !c.any isDigitAt

theorem has_emailBody : emailBody.Has fun c => c = '@'.toNat :=
  (Regex.has_char fun _ h => h).seq_left.seq_right

theorem startsIn_phoneDigits : phoneDigits.StartsIn isDigitAt := (Regex.startsIn_char fun _ h => h).seq

theorem endsIn_phoneBody : phoneBody.EndsIn isDigitAt := (Regex.endsIn_char fun _ h => h).seq.seq.seq

/-- `_EMAIL`. -/
def email : Guarded ℕ where
  before _ := true
  body := emailBody
  after _ := true
  body_ne hnil := by
    obtain ⟨c, hc, -⟩ := has_emailBody [] hnil
    cases hc

/-- `_PHONE`. -/
def phone : Guarded ℕ where
  before := noDigit
  body := phoneBody
  after := noDigit
  body_ne := endsIn_phoneBody.ne_nil

def redactedEmail : PyStr := py "[REDACTED_EMAIL]"

def redactedPhone : PyStr := py "[REDACTED_PHONE]"

/-- `redact_pii`. -/
def redactPii (text : PyStr) : PyStr := phone.replace redactedPhone (email.replace redactedEmail text)

example : redactPii (py "a@b.co and +91 98765 43210.") = py "[REDACTED_EMAIL] and [REDACTED_PHONE]." := by
  decide +kernel

/-! ## The words of the patterns -/

/-- A bracket of a replacement. -/
def isBracket (c : ℕ) : Bool := c = '['.toNat || c = ']'.toNat

/-- A class without the brackets. -/
theorem not_isBracket {f : ℕ → Bool} (hopen : f '['.toNat = false) (hclose : f ']'.toNat = false) (c : ℕ)
    (h : f c) : !isBracket c := by
  unfold isBracket
  rw [Bool.not_eq_true', Bool.or_eq_false_iff, decide_eq_false_iff_not, decide_eq_false_iff_not]
  constructor
  · rintro rfl
    rw [hopen] at h
    cases h
  · rintro rfl
    rw [hclose] at h
    cases h

theorem over_emailBody : emailBody.Over fun c => !isBracket c := by
  have hlocal := not_isBracket (f := isLocalChar) (by decide +kernel) (by decide +kernel)
  have hdomain := not_isBracket (f := isDomainChar) (by decide +kernel) (by decide +kernel)
  have hletter := not_isBracket (f := isAsciiLetter) (by decide +kernel) (by decide +kernel)
  have hat : (symbol '@').Over fun c => !isBracket c :=
    Regex.over_char (not_isBracket (by decide +kernel) (by decide +kernel))
  have hdot : (symbol '.').Over fun c => !isBracket c :=
    Regex.over_char (not_isBracket (by decide +kernel) (by decide +kernel))
  have hsome : ∀ f : ℕ → Bool, (∀ c, f c → !isBracket c) → (Regex.some_ f).Over fun c => !isBracket c :=
    fun f h => (Regex.over_char h).seq (Regex.over_many h)
  exact (hsome _ hlocal).seq (hat.seq ((hsome _ hdomain).seq (hdot.seq
    ((Regex.over_char hletter).seq (hsome _ hletter)))))

theorem over_phoneBody : phoneBody.Over fun c => !isBracket c := by
  have hdigit := not_isBracket (f := isDigitAt) (by decide +kernel) (by decide +kernel)
  have hphone := not_isBracket (f := isPhoneChar) (by decide +kernel) (by decide +kernel)
  have hplus : (symbol '+').Over fun c => !isBracket c :=
    Regex.over_char (not_isBracket (by decide +kernel) (by decide +kernel))
  exact (hplus.alt Regex.over_eps).seq ((Regex.over_char hdigit).seq
    ((((Regex.over_char hphone).times 7).seq (Regex.over_many hphone)).seq (Regex.over_char hdigit)))

/-- No bracket is in a word. -/
theorem notMem_of_over {e : Regex ℕ} (h : e.Over fun c => !isBracket c) {m : PyStr} (hm : e.Matches m) :
    '['.toNat ∉ m ∧ ']'.toNat ∉ m := by
  refine ⟨fun hmem => ?_, fun hmem => ?_⟩
  · exact absurd (h m hm _ hmem) (by decide)
  · exact absurd (h m hm _ hmem) (by decide)

/-- A replacement without a symbol that each word has. -/
theorem not_infix_of_has {e : Regex ℕ} {f : ℕ → Bool} (h : e.Has f) {text : PyStr}
    (htext : ∀ c ∈ text, f c = false) {m : PyStr} (hm : e.Matches m) : ¬ m <:+: text := by
  intro hoccurs
  obtain ⟨c, hc, hf⟩ := h m hm
  rw [htext c (hoccurs.subset hc)] at hf
  cases hf

theorem has_phoneBody : phoneBody.Has isDigitAt := (Regex.has_char fun _ h => h).seq_left.seq_right

theorem bracketed_redactedEmail : (∃ rest, redactedEmail = '['.toNat :: rest) ∧
    ∃ rest, redactedEmail = rest ++ [']'.toNat] :=
  ⟨⟨_, rfl⟩, ⟨py "[REDACTED_EMAIL", by decide +kernel⟩⟩

theorem bracketed_redactedPhone : (∃ rest, redactedPhone = '['.toNat :: rest) ∧
    ∃ rest, redactedPhone = rest ++ [']'.toNat] :=
  ⟨⟨_, rfl⟩, ⟨py "[REDACTED_PHONE", by decide +kernel⟩⟩

theorem not_noDigit {c : ℕ} (hc : isDigitAt c) : ¬ noDigit (some c) := by
  unfold noDigit
  rw [Option.any_some, hc]
  decide

/-! ## Replacements -/

theorem settles_email : Guarded.Settles email redactedEmail := by
  obtain ⟨⟨rest, hfirst⟩, rest', hlast⟩ := bracketed_redactedEmail
  exact
    { first := ⟨_, rest, hfirst, fun m hm => (notMem_of_over over_emailBody hm).1⟩
      last := ⟨rest', _, hlast, fun m hm => (notMem_of_over over_emailBody hm).2⟩
      inside := fun m hm => not_infix_of_has has_emailBody (by decide +kernel) hm
      behind := fun m hm _ => .inl fun o => rfl
      front := fun m hm _ o => rfl }

theorem settles_phone : Guarded.Settles phone redactedPhone := by
  obtain ⟨⟨rest, hfirst⟩, rest', hlast⟩ := bracketed_redactedPhone
  exact
    { first := ⟨_, rest, hfirst, fun m hm => (notMem_of_over over_phoneBody hm).1⟩
      last := ⟨rest', _, hlast, fun m hm => (notMem_of_over over_phoneBody hm).2⟩
      inside := fun m hm => not_infix_of_has has_phoneBody (by decide +kernel) hm
      behind := by
        rintro _ ⟨m₁, m₂, rfl, hplus | rfl, hdigits⟩ hafter
        · obtain ⟨c, rfl, hc⟩ := hplus
          refine .inr ⟨c, m₂, rfl, ⟨[], m₂, rfl, .inr rfl, hdigits⟩, ?_⟩
          rw [of_decide_eq_true hc]
          decide +kernel
        · -- without a plus the first symbol is a digit
          obtain ⟨c, m, rfl, hc⟩ := startsIn_phoneDigits m₂ hdigits
          exact absurd hafter (not_noDigit hc)
      front := by
        intro m hm hbefore
        obtain ⟨m', c, rfl, hc⟩ := endsIn_phoneBody m hm
        rw [List.getLast?_concat] at hbefore
        exact absurd hbefore (not_noDigit hc) }

/-! ## Main result -/

/-- What is redacted has no address and no telephone number, and is left as it is by a second redaction. -/
theorem redactPii_clean (text : PyStr) :
    (¬ email.Occurs none (redactPii text) ∧ ¬ phone.Occurs none (redactPii text)) ∧
      redactPii (redactPii text) = redactPii text := by
  have hphone : ¬ phone.Occurs none (redactPii text) :=
    Guarded.not_occurs_of_replaced settles_phone (Guarded.replaced_replace _ _)
  have hemail : ¬ email.Occurs none (redactPii text) := by
    rintro ⟨a, m, b, hout, hm, -, -⟩
    obtain ⟨⟨rest, hfirst⟩, rest', hlast⟩ := bracketed_redactedPhone
    obtain ⟨hopen, hclose⟩ := notMem_of_over over_emailBody hm
    have hne : m ≠ [] := fun hnil => email.body_ne (hnil ▸ hm)
    rcases Guarded.infix_of_replaced (Guarded.replaced_replace (p := phone) redactedPhone
      (email.replace redactedEmail text)) ⟨a, b, hout.symm⟩ hne ⟨_, rest, hfirst, hopen⟩
      ⟨rest', _, hlast, hclose⟩ with hinside | ⟨a', b', heq⟩
    · exact not_infix_of_has has_emailBody (by decide +kernel) hm hinside
    · refine Guarded.not_occurs_of_replaced settles_email (Guarded.replaced_replace redactedEmail text) ?_
      exact ⟨a', m, b', heq.symm, hm, rfl, rfl⟩
  refine ⟨⟨hemail, hphone⟩, ?_⟩
  have hkeep : email.replace redactedEmail (redactPii text) = redactPii text :=
    Guarded.replace_eq_self hemail
  have hkeep' : phone.replace redactedPhone (redactPii text) = redactPii text :=
    Guarded.replace_eq_self hphone
  calc redactPii (redactPii text)
      = phone.replace redactedPhone (email.replace redactedEmail (redactPii text)) := rfl
    _ = redactPii text := by rw [hkeep, hkeep']

end Nivara.Intelligence
