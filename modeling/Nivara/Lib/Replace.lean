import Nivara.Lib.Regex

/-!
# Replacement with regular expressions

`pattern.sub(text, l)` of a backtracking matcher, for patterns that may look at the symbol before a match
and at the one behind it. The text is scanned from the left, and at each place the first way to match
that the guards let pass, if there is one, is replaced.

Results:

* `replaced_replace`: a replacement keeps what does not match, symbol by symbol.
* `infix_of_replaced`: a stretch of the result without the ends of the replacement is part of the
  replacement or of the text.
* `not_occurs_of_replaced`: when no match is left.
* `replace_eq_self`: without a match nothing is replaced.
-/

namespace Nivara.Regexp

variable {α : Type*}

/-- A pattern with guards on the symbols around a match. -/
structure Guarded (α : Type*) where
  before : Option α → Bool
  body : Regex α
  after : Option α → Bool
  body_ne : ¬ body.Matches []

/-- The last symbol of a text, behind another one. -/
def lastOf (prev : Option α) (l : List α) : Option α := l.getLast?.or prev

theorem lastOf_cons (prev : Option α) (c : α) (l : List α) : lastOf prev (c :: l) = lastOf (some c) l := by
  unfold lastOf
  cases hl : l.getLast? with
  | none =>
    rw [List.getLast?_eq_none_iff.mp hl]
    rfl
  | some d =>
    rw [List.getLast?_cons, hl]
    rfl

theorem lastOf_of_ne_nil {l : List α} (h : l ≠ []) (prev : Option α) : lastOf prev l = l.getLast? := by
  unfold lastOf
  rw [List.getLast?_eq_some_getLast h]
  rfl

theorem lastOf_append (prev : Option α) (l l' : List α) :
    lastOf prev (l ++ l') = lastOf (lastOf prev l) l' := by
  induction l generalizing prev with
  | nil => rfl
  | cons c l ih => rw [List.cons_append, lastOf_cons, lastOf_cons, ih]

namespace Guarded

variable (p : Guarded α)

/-- The length of the match at the start of a text. -/
def matchLength (prev : Option α) (l : List α) : Option ℕ :=
  if p.before prev then ((p.body.run l).find? fun r => p.after r.head?).map fun r => l.length - r.length
  else none

/-- `p.sub(text, l)`, with the number of symbols of the last match that are still to come. -/
def replaceFrom (text : List α) : ℕ → Option α → List α → List α
  | _, _, [] => []
  | skip + 1, _, c :: l => replaceFrom text skip (some c) l
  | 0, prev, c :: l =>
    match p.matchLength prev (c :: l) with
    | some (n + 1) => text ++ replaceFrom text n (some c) l
    | _ => c :: replaceFrom text 0 (some c) l

def replace (text l : List α) : List α := p.replaceFrom text 0 none l

/-- A match of the pattern somewhere in a text. -/
def Occurs (prev : Option α) (l : List α) : Prop :=
  ∃ a m b, l = a ++ m ++ b ∧ p.body.Matches m ∧ p.before (lastOf prev a) ∧ p.after b.head?

/-- At the start of a text there is no match. -/
def NoMatch (prev : Option α) (l : List α) : Prop := ∀ n, p.matchLength prev l ≠ some (n + 1)

/-- A text and what is made of it. -/
inductive Replaced (text : List α) : Option α → List α → List α → Prop
  | nil (prev : Option α) : Replaced text prev [] []
  | keep {prev : Option α} {c : α} {l out : List α} (hno : p.NoMatch prev (c :: l))
      (hrest : Replaced text (some c) l out) : Replaced text prev (c :: l) (c :: out)
  | cut {prev : Option α} {m l out : List α} (hm : p.body.Matches m) (hbefore : p.before prev)
      (hafter : p.after l.head?) (hrest : Replaced text (lastOf prev m) l out) :
      Replaced text prev (m ++ l) (text ++ out)

variable {p} {text l m b out w : List α} {prev : Option α}

/-- A word that the text starts with is found. -/
theorem exists_matchLength (hm : p.body.Matches m) (hbefore : p.before prev) (hafter : p.after b.head?) :
    ∃ n, p.matchLength prev (m ++ b) = some (n + 1) := by
  have hrun : b ∈ p.body.run (m ++ b) := Regex.mem_run.mpr ⟨m, hm, rfl⟩
  obtain ⟨r, hr⟩ : ∃ r, (p.body.run (m ++ b)).find? (fun r => p.after r.head?) = some r := by
    rw [← Option.isSome_iff_exists, List.find?_isSome]
    exact ⟨b, hrun, hafter⟩
  obtain ⟨m', hm', heq⟩ := Regex.mem_run.mp (List.mem_of_find?_eq_some hr)
  have hpos : 0 < m'.length := by
    refine List.length_pos_iff.mpr fun hnil => p.body_ne ?_
    rw [← hnil]
    exact hm'
  have hlength : (m ++ b).length - r.length = m'.length := by rw [heq]; simp
  refine ⟨m'.length - 1, ?_⟩
  unfold matchLength
  rw [if_pos hbefore, hr, Option.map_some, hlength, Nat.sub_add_cancel hpos]

/-- What is found is a word that the text starts with. -/
theorem of_matchLength {n : ℕ} (h : p.matchLength prev l = some n) :
    ∃ m b, l = m ++ b ∧ m.length = n ∧ p.body.Matches m ∧ p.before prev ∧ p.after b.head? := by
  unfold matchLength at h
  split_ifs at h with hbefore
  obtain ⟨r, hr, hn⟩ := Option.map_eq_some_iff.mp h
  obtain ⟨m, hm, rfl⟩ := Regex.mem_run.mp (List.mem_of_find?_eq_some hr)
  refine ⟨m, r, rfl, ?_, hm, hbefore, by simpa using List.find?_some hr⟩
  rw [← hn, List.length_append, Nat.add_sub_cancel]

/-- Without a match nothing is replaced. -/
theorem replaceFrom_eq_self (h : ¬ p.Occurs prev l) : p.replaceFrom text 0 prev l = l := by
  induction l generalizing prev with
  | nil => rfl
  | cons c l ih =>
    have hrest : ¬ p.Occurs (some c) l := by
      rintro ⟨a, m, b, rfl, hm, hbefore, hafter⟩
      exact h ⟨c :: a, m, b, rfl, hm, (lastOf_cons prev c a) ▸ hbefore, hafter⟩
    unfold replaceFrom
    cases hlen : p.matchLength prev (c :: l) with
    | none => simp only [ih hrest]
    | some n =>
      obtain ⟨m, b, heq, -, hm, hbefore, hafter⟩ := of_matchLength hlen
      exact absurd ⟨[], m, b, heq, hm, hbefore, hafter⟩ h

theorem replace_eq_self (h : ¬ p.Occurs none l) : p.replace text l = l := replaceFrom_eq_self h

/-- The symbols of a match are passed over. -/
theorem replaceFrom_skip (m l : List α) (prev : Option α) :
    p.replaceFrom text m.length prev (m ++ l) = p.replaceFrom text 0 (lastOf prev m) l := by
  induction m generalizing prev with
  | nil => rfl
  | cons c m ih => rw [lastOf_cons, ← ih (some c), List.length_cons, List.cons_append, replaceFrom]

theorem replaced_replaceFrom (prev : Option α) (l : List α) :
    p.Replaced text prev l (p.replaceFrom text 0 prev l) := by
  induction hn : l.length using Nat.strong_induction_on generalizing prev l with
  | _ n ih =>
    cases l with
    | nil => exact .nil prev
    | cons c l =>
      unfold replaceFrom
      split
      next n' hlen =>
        obtain ⟨m, b, heq, hlength, hm, hbefore, hafter⟩ := of_matchLength hlen
        cases m with
        | nil => cases hlength
        | cons c' m =>
          obtain rfl : c = c' := (List.cons.inj heq).1
          have hl : l = m ++ b := (List.cons.inj heq).2
          obtain rfl := Nat.succ.inj hlength
          subst hl
          rw [replaceFrom_skip, ← lastOf_cons prev]
          refine .cut hm hbefore hafter (ih b.length ?_ _ _ rfl)
          rw [← hn, List.length_cons, List.length_append]
          omega
      next hno => exact .keep hno (ih l.length (by rw [← hn]; exact Nat.lt_succ_self _) _ _ rfl)

theorem replaced_replace (text l : List α) : p.Replaced text none l (p.replace text l) :=
  replaced_replaceFrom none l

/-! ## What is left -/

/-- A stretch that the result starts with, and that is without the first symbol of the replacement, is one
    that the text starts with. Nothing in it could be matched, and what stands behind it is the same, or a
    match. -/
theorem of_replaced_append {out' : List α} (h : p.Replaced text prev l out) (hout : out = w ++ out')
    (hfirst : ∃ x rest, text = x :: rest ∧ x ∉ w) :
    ∃ l', l = w ++ l' ∧
      (∀ w₁ w₂, w = w₁ ++ w₂ → w₂ ≠ [] → p.NoMatch (lastOf prev w₁) (w₂ ++ l')) ∧
      (l'.head? = out'.head? ∨ p.before (lastOf prev w)) := by
  induction h generalizing w with
  | nil prev =>
    obtain ⟨rfl, rfl⟩ := List.append_eq_nil_iff.mp hout.symm
    exact ⟨[], rfl, by simp, .inl rfl⟩
  | @keep prev c l out hno hrest ih =>
    cases w with
    | nil =>
      obtain rfl : c :: out = out' := hout
      exact ⟨c :: l, rfl, by simp, .inl rfl⟩
    | cons c' w =>
      obtain ⟨rfl, hout'⟩ := List.cons.inj hout
      obtain ⟨x, rest, htext, hx⟩ := hfirst
      obtain ⟨l', rfl, hnone, hhead⟩ := ih hout' ⟨x, rest, htext, fun hw => hx (List.mem_cons_of_mem _ hw)⟩
      refine ⟨l', rfl, fun w₁ w₂ hw hne => ?_, by rwa [lastOf_cons]⟩
      cases w₁ with
      | nil =>
        obtain rfl : c :: w = w₂ := hw
        exact hno
      | cons c' w₁ =>
        obtain ⟨rfl, hw'⟩ := List.cons.inj hw
        rw [lastOf_cons]
        exact hnone w₁ w₂ hw' hne
  | @cut prev m l out hm hbefore hafter hrest ih =>
    obtain ⟨x, rest, rfl, hx⟩ := hfirst
    cases w with
    | nil => exact ⟨m ++ l, rfl, by simp, .inr hbefore⟩
    | cons c w => exact absurd ((List.cons.inj hout).1 ▸ List.mem_cons_self) hx

/-- Where a stretch of the result stands in the text. -/
structure Located (p : Guarded α) (prev : Option α) (l a w b a' b' : List α) : Prop where
  eq : l = a' ++ w ++ b'
  start : a = [] → a' = []
  noMatch : ∀ w₁ w₂, w = w₁ ++ w₂ → w₂ ≠ [] → p.NoMatch (lastOf prev (a' ++ w₁)) (w₂ ++ b')
  before : lastOf prev a' = lastOf prev a ∨ p.after w.head?
  after : b'.head? = b.head? ∨ p.before w.getLast?

/-- The same with a symbol before it that is kept. -/
theorem Located.keep {a a' b' : List α} {c : α} (h : Located p (some c) l a w b a' b') :
    Located p prev (c :: l) (c :: a) w b (c :: a') b' where
  eq := by
    rw [h.eq]
    rfl
  start hnil := absurd hnil (List.cons_ne_nil c a)
  noMatch w₁ w₂ hw hne := by
    rw [List.cons_append, lastOf_cons]
    exact h.noMatch w₁ w₂ hw hne
  before := by
    rw [lastOf_cons, lastOf_cons]
    exact h.before
  after := h.after

/-- The same with a match before it that is replaced. -/
theorem Located.cut {a a' b' : List α} (h : Located p (lastOf prev m) l a w b a' b') (hne : w ≠ [])
    (htext : text ≠ []) (hafter : p.after l.head?) :
    Located p prev (m ++ l) (text ++ a) w b (m ++ a') b' where
  eq := by
    rw [h.eq]
    simp
  start hnil := absurd (List.append_eq_nil_iff.mp hnil).1 htext
  noMatch w₁ w₂ hw hne' := by
    rw [List.append_assoc, lastOf_append]
    exact h.noMatch w₁ w₂ hw hne'
  before := by
    rw [lastOf_append, lastOf_append]
    by_cases hnil : a = []
    · -- the stretch stands right behind the replacement, and in the text behind the match
      have hhead : l.head? = w.head? := by
        rw [h.eq, h.start hnil, List.nil_append, List.head?_append_of_ne_nil _ hne]
      exact .inr (hhead ▸ hafter)
    · have hsame := h.before
      rw [lastOf_of_ne_nil hnil] at hsame ⊢
      exact hsame
  after := h.after

/-- A stretch of the result, without the ends of the replacement, is part of the replacement or stands in
    the text. -/
theorem located_of_replaced {a : List α} (h : p.Replaced text prev l out) (hout : out = a ++ w ++ b)
    (hne : w ≠ []) (hfirst : ∃ x rest, text = x :: rest ∧ x ∉ w)
    (hlast : ∃ rest y, text = rest ++ [y] ∧ y ∉ w) :
    w <:+: text ∨ ∃ a' b', Located p prev l a w b a' b' := by
  induction h generalizing a with
  | nil prev =>
    have hnil := congrArg List.length hout
    have := List.length_pos_iff.mpr hne
    simp only [List.length_nil, List.length_append] at hnil
    omega
  | @keep prev c l out hno hrest ih =>
    cases a with
    | nil =>
      rw [List.nil_append] at hout
      obtain ⟨l', hl, hnone, hhead⟩ := of_replaced_append (.keep hno hrest) hout hfirst
      rw [lastOf_of_ne_nil hne] at hhead
      exact .inr ⟨[], l', hl, fun _ => rfl, hnone, .inl rfl, hhead⟩
    | cons c' a =>
      obtain ⟨rfl, hout'⟩ := List.cons.inj hout
      refine (ih hout').imp_right ?_
      rintro ⟨a', b', hlocated⟩
      exact ⟨c :: a', b', hlocated.keep⟩
  | @cut prev m l out hm hbefore hafter hrest ih =>
    have hbehind : ∀ a'', a = text ++ a'' → out = a'' ++ w ++ b →
        w <:+: text ∨ ∃ a' b', Located p prev (m ++ l) a w b a' b' := by
      rintro a'' rfl hout'
      refine (ih hout').imp_right ?_
      rintro ⟨a', b', hlocated⟩
      obtain ⟨x, rest, htext, -⟩ := hfirst
      exact ⟨m ++ a', b', hlocated.cut hne (htext ▸ List.cons_ne_nil x rest) hafter⟩
    rw [List.append_assoc] at hout
    rcases List.append_eq_append_iff.mp hout with ⟨a'', ha, hout'⟩ | ⟨c, hc, hout'⟩
    · exact hbehind a'' ha (by rw [hout', List.append_assoc])
    by_cases hnil : c = []
    · subst hnil
      exact hbehind [] (by simpa using hc.symm) (by simpa using hout'.symm)
    -- it starts in the replacement, and cannot reach its end
    rcases List.append_eq_append_iff.mp hout' with ⟨d, rfl, -⟩ | ⟨d, rfl, -⟩
    · exact .inl ⟨a, d, by rw [hc, List.append_assoc]⟩
    · obtain ⟨rest, y, htext, hy⟩ := hlast
      refine absurd (List.mem_append_left d ?_) hy
      have hend := congrArg List.getLast? (hc.symm.trans htext)
      rw [List.getLast?_append_of_ne_nil _ hnil, List.getLast?_concat] at hend
      exact List.mem_of_getLast? hend

/-- A stretch of the result, without the ends of the replacement, is part of the replacement or of the
    text. -/
theorem infix_of_replaced (h : p.Replaced text prev l out) (hw : w <:+: out) (hne : w ≠ [])
    (hfirst : ∃ x rest, text = x :: rest ∧ x ∉ w) (hlast : ∃ rest y, text = rest ++ [y] ∧ y ∉ w) :
    w <:+: text ∨ w <:+: l := by
  obtain ⟨a, b, hout⟩ := hw
  refine (located_of_replaced h hout.symm hne hfirst hlast).imp_right ?_
  rintro ⟨a', b', hlocated⟩
  exact ⟨a', b', hlocated.eq.symm⟩

/-- A replacement next to which no match can appear. -/
structure Settles (p : Guarded α) (text : List α) : Prop where
  first : ∃ x rest, text = x :: rest ∧ ∀ m, p.body.Matches m → x ∉ m
  last : ∃ rest y, text = rest ++ [y] ∧ ∀ m, p.body.Matches m → y ∉ m
  inside : ∀ m, p.body.Matches m → ¬ m <:+: text
  /-- Right behind a match another one could only start at its second symbol. -/
  behind : ∀ m, p.body.Matches m → p.after m.head? →
    (∀ o, p.before o) ∨ ∃ c m', m = c :: m' ∧ p.body.Matches m' ∧ p.before (some c)
  /-- No match starts right behind another one, if it makes a difference to that one. -/
  front : ∀ m, p.body.Matches m → p.before m.getLast? → ∀ o, p.after o

/-- No match is left. -/
theorem not_occurs_of_replaced (hsettles : Settles p text) (h : p.Replaced text prev l out) :
    ¬ p.Occurs prev out := by
  rintro ⟨a, m, b, hout, hm, hbefore, hafter⟩
  have hne : m ≠ [] := fun hnil => p.body_ne (hnil ▸ hm)
  obtain ⟨x, rest, htext, hx⟩ := hsettles.first
  obtain ⟨rest', y, htext', hy⟩ := hsettles.last
  rcases located_of_replaced h hout hne ⟨x, rest, htext, hx m hm⟩ ⟨rest', y, htext', hy m hm⟩ with
    hinside | ⟨a', b', hlocated⟩
  · exact hsettles.inside m hm hinside
  have hafter' : p.after b'.head? := by
    rcases hlocated.after with hsame | hlast
    · rw [hsame]
      exact hafter
    · exact hsettles.front m hm hlast _
  by_cases hstart : p.before (lastOf prev a')
  · obtain ⟨n, hn⟩ := exists_matchLength hm hstart hafter'
    refine hlocated.noMatch [] m rfl hne n ?_
    rwa [List.append_nil]
  · -- the match stood right behind another one, and its rest should have been found
    have hhead : p.after m.head? := hlocated.before.resolve_left fun hsame => hstart (hsame ▸ hbefore)
    rcases hsettles.behind m hm hhead with hall | ⟨c, m', rfl, hm', hc⟩
    · exact hstart (hall _)
    · have hne' : m' ≠ [] := fun hnil => p.body_ne (hnil ▸ hm')
      obtain ⟨n, hn⟩ := exists_matchLength hm' hc hafter'
      refine hlocated.noMatch [c] m' rfl hne' n ?_
      rw [lastOf_append]
      exact hn

end Guarded

end Nivara.Regexp
