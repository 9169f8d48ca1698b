import Nivara.Common.Literals
import Nivara.Lib.NumberText

/-!
# `str(d)` of a `Decimal`

The scientific string of a finite `Decimal`, as `Decimal.__str__` writes it; `f"{d}"` is the same.

* A number has many representations, and each of them a text of its own.

Results:

* `FiniteDecimal.str_injective`: the text determines sign, coefficient and exponent.
* `FiniteDecimal.noBar_str`: it has no bar.
-/

namespace Nivara

open NumberTexts

/-- A finite `Decimal`. -/
structure FiniteDecimal where
  negative : Bool
  coefficient : ℕ
  exponent : ℤ
  deriving DecidableEq, Repr

namespace FiniteDecimal

/-- The number, by which `Decimal`s are compared. -/
def value (d : FiniteDecimal) : ℚ :=
  (if d.negative then -1 else 1) * d.coefficient * (10 : ℚ) ^ d.exponent

/-- `intpart` and `fracpart`: the point stands after `dotplace` digits. -/
def placePoint (int : List Char) (dotplace : ℤ) : List Char × List Char :=
  if dotplace ≤ 0 then (['0'], List.replicate (-dotplace).toNat '0' ++ int)
  else if int.length ≤ dotplace then (int ++ List.replicate (dotplace - int.length).toNat '0', [])
  else (int.take dotplace.toNat, int.drop dotplace.toNat)

/-- The number without its sign: `intpart`, `fracpart` and `exp`. -/
def parts (d : FiniteDecimal) : NumberText :=
  let int := Nat.toDigits 10 d.coefficient
  -- the number of digits of `int` to the left of the point
  let leftdigits := d.exponent + int.length
  let dotplace := if d.exponent ≤ 0 ∧ -6 < leftdigits then leftdigits else 1
  let (intpart, fracpart) := placePoint int dotplace
  ⟨intpart, fracpart, if leftdigits = dotplace then none else some (leftdigits - dotplace)⟩

/-- `str(d)`. -/
def str (d : FiniteDecimal) : String :=
  String.ofList ((if d.negative then ['-'] else []) ++ d.parts.chars)

example : (str ⟨false, 10, 0⟩, str ⟨false, 100, -1⟩, str ⟨false, 1, 1⟩, str ⟨true, 5, -9⟩) =
    ("10", "10.0", "1E+1", "-5E-9") := by decide +kernel

variable {d d' : FiniteDecimal}

/-- A point within the digits, or before them, changes neither the digits nor their value. -/
theorem placePoint_spec {int : List Char} {dotplace : ℤ} (hpos : 0 < int.length)
    (hdigits : ∀ c ∈ int, c.isDigit = true) (hle : dotplace ≤ int.length) :
    (∀ c ∈ (placePoint int dotplace).1, c.isDigit = true) ∧
      (∀ c ∈ (placePoint int dotplace).2, c.isDigit = true) ∧ (placePoint int dotplace).1 ≠ [] ∧
      Nat.ofDigitChars 10 ((placePoint int dotplace).1 ++ (placePoint int dotplace).2) 0 =
        Nat.ofDigitChars 10 int 0 ∧
      ((placePoint int dotplace).2.length : ℤ) = int.length - dotplace := by
  have hzero : ∀ n, ∀ c ∈ List.replicate n '0', c.isDigit = true := by
    intro n c hc
    rw [List.eq_of_mem_replicate hc]
    rfl
  unfold placePoint
  split_ifs with hneg hall
  · refine ⟨?_, ?_, by simp, ?_, ?_⟩
    · intro c hc
      rw [List.mem_singleton.mp hc]
      rfl
    · intro c hc
      exact (List.mem_append.mp hc).elim (hzero _ c) (hdigits c)
    · rw [← List.append_assoc, Nat.ofDigitChars_append, Nat.ofDigitChars_append,
        Nat.ofDigitChars_replicate_zero]
      rfl
    · rw [List.length_append, List.length_replicate]
      omega
  · -- the point stands after the last digit
    have hzeros : (dotplace - int.length).toNat = 0 := by omega
    rw [hzeros, List.replicate_zero, List.append_nil]
    refine ⟨hdigits, by simp, List.ne_nil_of_length_pos hpos, by rw [List.append_nil], ?_⟩
    simp only [List.length_nil]
    omega
  · refine ⟨fun c hc => hdigits c (List.mem_of_mem_take hc), fun c hc => hdigits c (List.mem_of_mem_drop hc),
      ?_, by rw [List.take_append_drop], ?_⟩
    · refine List.ne_nil_of_length_pos ?_
      rw [List.length_take]
      omega
    · rw [List.length_drop]
      omega

/-- The digits of the parts are those of the coefficient, and the exponent counts from their end. -/
theorem parts_spec (d : FiniteDecimal) :
    d.parts.IsDigits ∧ d.parts.whole ≠ [] ∧
      Nat.ofDigitChars 10 (d.parts.whole ++ d.parts.fraction) 0 = d.coefficient ∧
      d.parts.exponent.getD 0 - d.parts.fraction.length = d.exponent := by
  have hpos : 0 < (Nat.toDigits 10 d.coefficient).length := Nat.length_toDigits_pos
  unfold parts
  dsimp only
  set leftdigits := d.exponent + (Nat.toDigits 10 d.coefficient).length with hleft
  set dotplace := if d.exponent ≤ 0 ∧ -6 < leftdigits then leftdigits else 1 with hdot
  have hle : dotplace ≤ (Nat.toDigits 10 d.coefficient).length := by
    rw [hdot]
    split_ifs <;> omega
  obtain ⟨hwhole, hfraction, hne, hvalue, hlength⟩ :=
    placePoint_spec hpos (fun c => isDigit_of_mem_toDigits) hle
  refine ⟨⟨hwhole, hfraction⟩, hne, hvalue.trans Nat.ofDigitChars_ten_toDigits, ?_⟩
  rw [hlength]
  split_ifs with heq
  · rw [Option.getD_none]
    omega
  · rw [Option.getD_some]
    omega

/-- The first character of the number is a digit. -/
theorem head_chars_ne_minus (d : FiniteDecimal) : d.parts.chars.head? ≠ some '-' := by
  obtain ⟨hdigits, hne, -, -⟩ := parts_spec d
  obtain ⟨c, rest, hwhole⟩ := List.exists_cons_of_ne_nil hne
  intro h
  have hc : c.isDigit = true := hdigits.whole c (by rw [hwhole]; exact List.mem_cons_self)
  unfold NumberText.chars at h
  rw [hwhole] at h
  cases h
  cases hc

theorem parts_injective (h : d.parts = d'.parts) :
    d.coefficient = d'.coefficient ∧ d.exponent = d'.exponent := by
  obtain ⟨-, -, hvalue, hexponent⟩ := parts_spec d
  obtain ⟨-, -, hvalue', hexponent'⟩ := parts_spec d'
  rw [h] at hvalue hexponent
  exact ⟨hvalue.symm.trans hvalue', hexponent.symm.trans hexponent'⟩

/-- The text determines the representation. -/
theorem str_injective (h : d.str = d'.str) : d = d' := by
  have hlist : (if d.negative then ['-'] else []) ++ d.parts.chars =
      (if d'.negative then ['-'] else []) ++ d'.parts.chars := by
    simpa only [str, String.toList_ofList] using congrArg String.toList h
  have hhead := head_chars_ne_minus d
  have hhead' := head_chars_ne_minus d'
  have hsign : d.negative = d'.negative ∧ d.parts.chars = d'.parts.chars := by
    cases hneg : d.negative <;> cases hneg' : d'.negative <;> rw [hneg, hneg'] at hlist
    · exact ⟨rfl, hlist⟩
    · rw [show d.parts.chars = '-' :: d'.parts.chars from hlist] at hhead
      exact absurd rfl hhead
    · rw [show d'.parts.chars = '-' :: d.parts.chars from hlist.symm] at hhead'
      exact absurd rfl hhead'
    · exact ⟨rfl, (List.cons.inj hlist).2⟩
  obtain ⟨hcoefficient, hexponent⟩ :=
    parts_injective (NumberText.chars_injective (parts_spec d).1 (parts_spec d').1 hsign.2)
  obtain ⟨negative, coefficient, exponent⟩ := d
  obtain ⟨negative', coefficient', exponent'⟩ := d'
  dsimp only at hsign hcoefficient hexponent
  rw [hsign.1, hcoefficient, hexponent]

/-- The text has no bar. -/
theorem noBar_str (d : FiniteDecimal) : '|' ∉ d.str.toList := by
  unfold str
  rw [String.toList_ofList, List.mem_append]
  rintro (h | h)
  · split_ifs at h
    · exact absurd (List.mem_singleton.mp h) (by decide)
    · cases h
  · rcases NumberText.mem_chars (parts_spec d).1 h with h | h
    · cases h
    · exact absurd h (by decide)

end FiniteDecimal

end Nivara
