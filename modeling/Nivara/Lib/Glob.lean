import Mathlib

/-!
# Glob patterns

A pattern is a list of tokens: a star stands for any text, and any other token for one symbol of a
class.

Results:

* `stringmatch_append_iff`: a text matches two patterns in a row when it can be cut in two.
* `length_of_starless`: without a star only texts of one length match.
* `stringmatch_pump`: with a star, a text that matches can be written again behind itself.
-/

namespace Nivara.Glob

variable {α : Type*}

inductive Token (α : Type*)
  | star
  | single (f : α → Bool)

/-- A symbol that stands for itself. -/
def literal [DecidableEq α] (a : α) : Token α := .single fun c => c = a

/-- Whether the whole text matches; a star tries every way to end. -/
def stringmatch : List (Token α) → List α → Bool
  | [], text => text.isEmpty
  | .star :: tokens, text => text.tails.any (stringmatch tokens)
  | .single _ :: _, [] => false
  | .single f :: tokens, c :: text => f c && stringmatch tokens text

variable {tokens tokens' : List (Token α)} {f : α → Bool} {text u v : List α}

theorem stringmatch_nil : stringmatch ([] : List (Token α)) text ↔ text = [] := List.isEmpty_iff

/-- A star stands for any text. -/
theorem stringmatch_star : stringmatch (.star :: tokens) text ↔
    ∃ u v, text = u ++ v ∧ stringmatch tokens v := by
  rw [stringmatch, List.any_eq_true]
  simp only [List.mem_tails]
  constructor
  · rintro ⟨v, ⟨u, rfl⟩, hv⟩
    exact ⟨u, v, rfl, hv⟩
  · rintro ⟨u, v, rfl, hv⟩
    exact ⟨v, List.suffix_append u v, hv⟩

theorem stringmatch_single : stringmatch (.single f :: tokens) text ↔
    ∃ c rest, text = c :: rest ∧ f c ∧ stringmatch tokens rest := by
  cases text <;> simp [stringmatch]

theorem stringmatch_append_iff : stringmatch (tokens ++ tokens') text ↔
    ∃ u v, text = u ++ v ∧ stringmatch tokens u ∧ stringmatch tokens' v := by
  induction tokens generalizing text with
  | nil => simp [stringmatch_nil]
  | cons token tokens ih =>
    cases token with
    | star =>
      simp only [List.cons_append, stringmatch_star, ih]
      constructor
      · rintro ⟨u, _, rfl, v, w, rfl, hv, hw⟩
        exact ⟨u ++ v, w, by simp, ⟨u, v, rfl, hv⟩, hw⟩
      · rintro ⟨_, w, rfl, ⟨u, v, rfl, hv⟩, hw⟩
        exact ⟨u, v ++ w, by simp, v, w, rfl, hv, hw⟩
    | single f =>
      simp only [List.cons_append, stringmatch_single, ih]
      constructor
      · rintro ⟨c, _, rfl, hc, v, w, rfl, hv, hw⟩
        exact ⟨c :: v, w, rfl, ⟨c, v, rfl, hc, hv⟩, hw⟩
      · rintro ⟨_, w, rfl, ⟨c, v, rfl, hc, hv⟩, hw⟩
        exact ⟨c, v ++ w, rfl, hc, v, w, rfl, hv, hw⟩

theorem stringmatch_literals [DecidableEq α] {word : List α} :
    stringmatch (word.map literal) text ↔ text = word := by
  induction word generalizing text with
  | nil => exact stringmatch_nil
  | cons a word ih =>
    unfold literal at ih ⊢
    rw [List.map_cons, stringmatch_single]
    simp only [ih, decide_eq_true_iff]
    constructor
    · rintro ⟨c, rest, rfl, rfl, rfl⟩
      rfl
    · rintro rfl
      exact ⟨a, word, rfl, rfl, rfl⟩

/-- Without a star each token takes one symbol. -/
theorem length_of_starless (hstar : .star ∉ tokens) (h : stringmatch tokens text) :
    text.length = tokens.length := by
  induction tokens generalizing text with
  | nil => rw [stringmatch_nil.mp h, List.length_nil, List.length_nil]
  | cons token tokens ih =>
    rw [List.mem_cons, not_or] at hstar
    cases token with
    | star => exact absurd rfl hstar.1
    | single f =>
      obtain ⟨c, rest, rfl, -, hrest⟩ := stringmatch_single.mp h
      rw [List.length_cons, List.length_cons, ih hstar.2 hrest]

/-- What a star stands for can be longer: with any symbols between, a text that matches can follow itself. -/
theorem stringmatch_pump (hstar : .star ∈ tokens) (h : stringmatch tokens text) (between : List α) :
    stringmatch tokens (text ++ between ++ text) := by
  obtain ⟨front, back, rfl⟩ := List.append_of_mem hstar
  obtain ⟨u, v, rfl, hu, hv⟩ := stringmatch_append_iff.mp h
  obtain ⟨w, x, rfl, hx⟩ := stringmatch_star.mp hv
  refine stringmatch_append_iff.mpr ⟨u, w ++ x ++ between ++ u ++ w ++ x, by simp, hu, ?_⟩
  exact stringmatch_star.mpr ⟨w ++ x ++ between ++ u ++ w, x, rfl, hx⟩

end Nivara.Glob
