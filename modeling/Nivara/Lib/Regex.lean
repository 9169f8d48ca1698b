import Mathlib

/-!
# Substitution with regular expressions

`pattern.sub("", text)` of a backtracking matcher: the text is scanned from the left, and at each
place the first way to match, if there is one, is taken out.

* `Regex.run e l`: what may be left of `l` after a match of `e` at its start, in the order in which the
  matcher tries.
* `Regex.Matches e m`: the words of `e`.
* A `Pattern` may be anchored to the start of a line. It does not match the empty text.
* In a text with seams each symbol says whether something was taken out right before it.

Results:

* `mem_run`: what the matcher finds are the words that the text starts with.
* `sub_eq_self`: without a match nothing is taken out.
* `subSeams_unspliced`, `Unspliced.of_subSeams`: after a substitution each match of its pattern runs over
  a seam, and no substitution makes a match that does not.
-/

namespace Nivara.Regexp

variable {α : Type*}

/-! ## Matching -/

/-- Regular expressions; `many` is a greedy star of a class. -/
inductive Regex (α : Type*)
  | eps
  | char (f : α → Bool)
  | many (f : α → Bool)
  | seq (e e' : Regex α)
  | alt (e e' : Regex α)

namespace Regex

def opt (e : Regex α) : Regex α := .alt e .eps

def some_ (f : α → Bool) : Regex α := .seq (.char f) (.many f)

/-- `n` times in a row. -/
def times : ℕ → Regex α → Regex α
  | 0, _ => .eps
  | n + 1, e => .seq e (times n e)

/-- What `many` leaves, the least first. -/
def runMany (f : α → Bool) : List α → List (List α)
  | [] => [[]]
  | c :: l => if f c then runMany f l ++ [c :: l] else [c :: l]

def run : Regex α → List α → List (List α)
  | eps, l => [l]
  | char f, l =>
    match l with
    | [] => []
    | c :: l => if f c then [l] else []
  | many f, l => runMany f l
  | seq e e', l => (run e l).flatMap (run e')
  | alt e e', l => run e l ++ run e' l

def Matches : Regex α → List α → Prop
  | eps, m => m = []
  | char f, m => ∃ c, m = [c] ∧ f c
  | many f, m => ∀ c ∈ m, f c
  | seq e e', m => ∃ m₁ m₂, m = m₁ ++ m₂ ∧ Matches e m₁ ∧ Matches e' m₂
  | alt e e', m => Matches e m ∨ Matches e' m

variable {e e' : Regex α} {f g : α → Bool} {l m r : List α}

theorem mem_runMany : r ∈ runMany f l ↔ ∃ m, (∀ c ∈ m, f c) ∧ l = m ++ r := by
  induction l with
  | nil =>
    simp only [runMany, List.mem_singleton]
    constructor
    · rintro rfl
      exact ⟨[], by simp, rfl⟩
    · rintro ⟨m, -, h⟩
      exact (List.append_eq_nil_iff.mp h.symm).2
  | cons c l ih =>
    unfold runMany
    constructor
    · intro h
      split_ifs at h with hc
      · rcases List.mem_append.mp h with h | h
        · obtain ⟨m, hm, rfl⟩ := ih.mp h
          exact ⟨c :: m, by simpa using ⟨hc, hm⟩, rfl⟩
        · exact ⟨[], by simp, (List.mem_singleton.mp h).symm⟩
      · exact ⟨[], by simp, (List.mem_singleton.mp h).symm⟩
    · rintro ⟨m, hm, h⟩
      cases m with
      | nil =>
        cases h
        split_ifs <;> simp
      | cons c' m =>
        obtain ⟨rfl, rfl⟩ := List.cons.inj h
        rw [if_pos (hm c (by simp))]
        exact List.mem_append_left _ (ih.mpr ⟨m, fun c' hc' => hm c' (List.mem_cons_of_mem _ hc'), rfl⟩)

/-- What the matcher leaves is what stands behind a word that the text starts with. -/
theorem mem_run : r ∈ e.run l ↔ ∃ m, e.Matches m ∧ l = m ++ r := by
  induction e generalizing l r with
  | eps => simp [run, Matches, eq_comm]
  | char f =>
    unfold run Matches
    cases l with
    | nil => simp
    | cons c l =>
      by_cases hc : f c
      · simp only [hc, if_true, List.mem_singleton]
        constructor
        · rintro rfl
          exact ⟨[c], ⟨c, rfl, hc⟩, rfl⟩
        · rintro ⟨_, ⟨c', rfl, -⟩, h⟩
          exact (List.cons.inj h).2.symm
      · simp only [hc, Bool.false_eq_true, if_false, List.not_mem_nil, false_iff]
        rintro ⟨_, ⟨c', rfl, hc'⟩, h⟩
        exact hc ((List.cons.inj h).1 ▸ hc')
  | many f => exact mem_runMany
  | seq e e' ih ih' =>
    simp only [run, Matches, List.mem_flatMap, ih, ih']
    constructor
    · rintro ⟨_, ⟨m₁, h₁, rfl⟩, m₂, h₂, rfl⟩
      exact ⟨m₁ ++ m₂, ⟨m₁, m₂, rfl, h₁, h₂⟩, by simp⟩
    · rintro ⟨_, ⟨m₁, m₂, rfl, h₁, h₂⟩, rfl⟩
      exact ⟨m₂ ++ r, ⟨m₁, h₁, by simp⟩, m₂, h₂, rfl⟩
  | alt e e' ih ih' =>
    simp only [run, Matches, List.mem_append, ih, ih']
    constructor
    · rintro (⟨m, h, rfl⟩ | ⟨m, h, rfl⟩)
      · exact ⟨m, .inl h, rfl⟩
      · exact ⟨m, .inr h, rfl⟩
    · rintro ⟨m, h | h, rfl⟩
      · exact .inl ⟨m, h, rfl⟩
      · exact .inr ⟨m, h, rfl⟩

/-! ## First and last symbols -/

/-- Each word starts with a symbol of the class. -/
def StartsIn (e : Regex α) (f : α → Bool) : Prop := ∀ m, e.Matches m → ∃ c m', m = c :: m' ∧ f c

/-- Each word ends with a symbol of the class. -/
def EndsIn (e : Regex α) (f : α → Bool) : Prop := ∀ m, e.Matches m → ∃ m' c, m = m' ++ [c] ∧ f c

theorem startsIn_char (h : ∀ c, f c → g c) : StartsIn (.char f) g := by
  rintro _ ⟨c, rfl, hc⟩
  exact ⟨c, [], rfl, h c hc⟩

theorem endsIn_char (h : ∀ c, f c → g c) : EndsIn (.char f) g := by
  rintro _ ⟨c, rfl, hc⟩
  exact ⟨[], c, rfl, h c hc⟩

theorem StartsIn.seq (h : e.StartsIn f) : StartsIn (.seq e e') f := by
  rintro _ ⟨m₁, m₂, rfl, h₁, -⟩
  obtain ⟨c, m, rfl, hc⟩ := h m₁ h₁
  exact ⟨c, m ++ m₂, rfl, hc⟩

theorem EndsIn.seq (h : e'.EndsIn f) : EndsIn (.seq e e') f := by
  rintro _ ⟨m₁, m₂, rfl, -, h₂⟩
  obtain ⟨m, c, rfl, hc⟩ := h m₂ h₂
  exact ⟨m₁ ++ m, c, by simp, hc⟩

theorem StartsIn.alt (h : e.StartsIn f) (h' : e'.StartsIn f) : StartsIn (.alt e e') f :=
  fun m hm => hm.elim (h m) (h' m)

theorem StartsIn.ne_nil (h : e.StartsIn f) : ¬ e.Matches [] := by
  intro hnil
  obtain ⟨c, m, hm, -⟩ := h [] hnil
  cases hm

theorem EndsIn.ne_nil (h : e.EndsIn f) : ¬ e.Matches [] := by
  intro hnil
  obtain ⟨m, c, hm, -⟩ := h [] hnil
  simp at hm

/-! ## Symbols of a word -/

/-- All symbols of each word are of the class. -/
def Over (e : Regex α) (f : α → Bool) : Prop := ∀ m, e.Matches m → ∀ c ∈ m, f c

/-- Each word has a symbol of the class. -/
def Has (e : Regex α) (f : α → Bool) : Prop := ∀ m, e.Matches m → ∃ c ∈ m, f c

theorem over_eps : Over .eps f := by
  rintro _ rfl c hc
  cases hc

theorem over_char (h : ∀ c, f c → g c) : Over (.char f) g := by
  rintro _ ⟨c, rfl, hc⟩ c' hc'
  rw [List.mem_singleton.mp hc']
  exact h c hc

theorem over_many (h : ∀ c, f c → g c) : Over (.many f) g := fun _ hm c hc => h c (hm c hc)

theorem Over.seq (h : e.Over f) (h' : e'.Over f) : Over (.seq e e') f := by
  rintro _ ⟨m₁, m₂, rfl, h₁, h₂⟩
  exact List.forall_mem_append.mpr ⟨h m₁ h₁, h' m₂ h₂⟩

theorem Over.times (h : e.Over f) (n : ℕ) : Over (times n e) f := by
  induction n with
  | zero => exact over_eps
  | succ n ih => exact h.seq ih

theorem Over.alt (h : e.Over f) (h' : e'.Over f) : Over (.alt e e') f :=
  fun m hm => hm.elim (h m) (h' m)

theorem has_char (h : ∀ c, f c → g c) : Has (.char f) g := by
  rintro _ ⟨c, rfl, hc⟩
  exact ⟨c, List.mem_singleton_self c, h c hc⟩

theorem Has.seq_left (h : e.Has f) : Has (.seq e e') f := by
  rintro _ ⟨m₁, m₂, rfl, h₁, -⟩
  obtain ⟨c, hc, hf⟩ := h m₁ h₁
  exact ⟨c, List.mem_append_left _ hc, hf⟩

theorem Has.seq_right (h : e'.Has f) : Has (.seq e e') f := by
  rintro _ ⟨m₁, m₂, rfl, -, h₂⟩
  obtain ⟨c, hc, hf⟩ := h m₂ h₂
  exact ⟨c, List.mem_append_right _ hc, hf⟩

end Regex

/-! ## Patterns -/

/-- A pattern; an anchored one matches where a line starts. -/
structure Pattern (α : Type*) where
  anchored : Bool
  body : Regex α
  body_ne : ¬ body.Matches []

/-- Whether a line starts behind a text, at whose own start one does or does not. -/
def lineStart (newline : α → Bool) : Bool → List α → Bool
  | start, [] => start
  | _, c :: l => lineStart newline (newline c) l

theorem lineStart_of_ne_nil {newline : α → Bool} {l : List α} (h : l ≠ []) (start start' : Bool) :
    lineStart newline start l = lineStart newline start' l := by
  cases l with
  | nil => exact absurd rfl h
  | cons c l => rfl

theorem lineStart_append {newline : α → Bool} (l l' : List α) (start : Bool) :
    lineStart newline start (l ++ l') = lineStart newline (lineStart newline start l) l' := by
  induction l generalizing start with
  | nil => rfl
  | cons c l ih => exact ih _

namespace Pattern

variable (newline : α → Bool) (p : Pattern α)

/-- The length of the match at the start of a text. -/
def matchLength (start : Bool) (l : List α) : Option ℕ :=
  if p.anchored && !start then none else (p.body.run l).head?.map fun r => l.length - r.length

/-- `p.sub("", l)`, with the number of symbols of the last match that are still to come. -/
def subFrom : ℕ → Bool → List α → List α
  | _, _, [] => []
  | skip + 1, _, c :: l => subFrom skip (newline c) l
  | 0, start, c :: l =>
    match p.matchLength start (c :: l) with
    | some (n + 1) => subFrom n (newline c) l
    | _ => c :: subFrom 0 (newline c) l

def sub (l : List α) : List α := p.subFrom newline 0 true l

/-- A match of the pattern somewhere in a text. -/
def Occurs (start : Bool) (l : List α) : Prop :=
  ∃ a m b, l = a ++ m ++ b ∧ p.body.Matches m ∧ (p.anchored → lineStart newline start a = true)

/-- `sub` on a text with seams; `removed` says whether something was taken out right before it. -/
def subSeamsFrom : ℕ → Bool → Bool → List (α × Bool) → List (α × Bool)
  | _, _, _, [] => []
  | skip + 1, _, _, c :: t => subSeamsFrom skip (newline c.1) true t
  | 0, start, removed, c :: t =>
    match p.matchLength start ((c :: t).map Prod.fst) with
    | some (n + 1) => subSeamsFrom n (newline c.1) true t
    | _ => (c.1, c.2 || removed) :: subSeamsFrom 0 (newline c.1) false t

def subSeams (t : List (α × Bool)) : List (α × Bool) := p.subSeamsFrom newline 0 true false t

/-- A match that runs over no seam. The match of an anchored pattern has none before it either. -/
def Unspliced (start : Bool) (t : List (α × Bool)) : Prop :=
  ∃ a x v b, t = a ++ x :: v ++ b ∧ p.body.Matches (x.1 :: v.map Prod.fst) ∧ (∀ y ∈ v, y.2 = false) ∧
    (p.anchored → x.2 = false ∧ lineStart newline start (a.map Prod.fst) = true)

/-- A match that runs over a seam, or, of an anchored pattern, that stands behind one. -/
def Spliced (start : Bool) (t : List (α × Bool)) : Prop :=
  ∃ a x v b, t = a ++ x :: v ++ b ∧ p.body.Matches (x.1 :: v.map Prod.fst) ∧
    (p.anchored → lineStart newline start (a.map Prod.fst) = true) ∧
    ((∃ y ∈ v, y.2 = true) ∨ (p.anchored = true ∧ x.2 = true))

variable {newline p} {start removed : Bool} {l m b : List α} {t : List (α × Bool)} {skip n : ℕ}

/-- A word that the text starts with is found. -/
theorem exists_matchLength (hm : p.body.Matches m) (hstart : p.anchored → start = true) :
    ∃ n, p.matchLength start (m ++ b) = some (n + 1) := by
  have hanchor : (p.anchored && !start) = false := by
    cases hp : p.anchored with
    | false => rfl
    | true => simp [hstart hp]
  have hrun : b ∈ p.body.run (m ++ b) := Regex.mem_run.mpr ⟨m, hm, rfl⟩
  obtain ⟨r, hr⟩ : ∃ r, (p.body.run (m ++ b)).head? = some r := by
    cases h : p.body.run (m ++ b) with
    | nil => simp [h] at hrun
    | cons r _ => exact ⟨r, rfl⟩
  obtain ⟨m', hm', heq⟩ := Regex.mem_run.mp (List.mem_of_mem_head? hr)
  have hne : m' ≠ [] := by
    rintro rfl
    exact p.body_ne hm'
  have hlength : (m ++ b).length - r.length = m'.length := by rw [heq]; simp
  refine ⟨m'.length - 1, ?_⟩
  have hpos := List.length_pos_iff.mpr hne
  unfold matchLength
  rw [hanchor, if_neg (by simp), hr, Option.map_some, hlength]
  congr 1
  omega

/-- What is found is a word that the text starts with. -/
theorem of_matchLength (h : p.matchLength start l = some n) :
    ∃ m b, l = m ++ b ∧ p.body.Matches m ∧ (p.anchored → start = true) := by
  unfold matchLength at h
  split_ifs at h with hanchor
  obtain ⟨r, hr, -⟩ := Option.map_eq_some_iff.mp h
  obtain ⟨m, hm, heq⟩ := Regex.mem_run.mp (List.mem_of_mem_head? hr)
  refine ⟨m, r, heq, hm, fun hp => ?_⟩
  simpa [hp] using hanchor

/-- Without a match nothing is taken out. -/
theorem subFrom_eq_self (h : ¬ p.Occurs newline start l) : p.subFrom newline 0 start l = l := by
  induction l generalizing start with
  | nil => rfl
  | cons c l ih =>
    have hrest : ¬ p.Occurs newline (newline c) l := by
      rintro ⟨a, m, b, rfl, hm, ha⟩
      exact h ⟨c :: a, m, b, rfl, hm, ha⟩
    unfold subFrom
    cases hlen : p.matchLength start (c :: l) with
    | none => simp only [ih hrest]
    | some n =>
      obtain ⟨m, b, heq, hm, hstart⟩ := of_matchLength hlen
      exact absurd ⟨[], m, b, heq, hm, hstart⟩ h

theorem sub_eq_self (h : ¬ p.Occurs newline true l) : p.sub newline l = l := subFrom_eq_self h

/-! ## Seams -/

theorem map_subSeamsFrom (skip : ℕ) (start removed : Bool) (t : List (α × Bool)) :
    (p.subSeamsFrom newline skip start removed t).map Prod.fst =
      p.subFrom newline skip start (t.map Prod.fst) := by
  induction t generalizing skip start removed with
  | nil => cases skip <;> rfl
  | cons c t ih =>
    cases skip with
    | succ skip => exact ih ..
    | zero =>
      unfold subSeamsFrom
      rw [List.map_cons]
      unfold subFrom
      split
      · exact ih ..
      · rw [List.map_cons, ih]

theorem map_subSeams (t : List (α × Bool)) :
    (p.subSeams newline t).map Prod.fst = p.sub newline (t.map Prod.fst) := map_subSeamsFrom ..

/-- What is left first has a seam before it when something was taken out. -/
theorem head_seam {x : α × Bool} {t' : List (α × Bool)}
    (h : p.subSeamsFrom newline skip start removed t = x :: t') (hremoved : skip ≠ 0 ∨ removed = true) :
    x.2 = true := by
  induction t generalizing skip start removed with
  | nil => cases skip <;> cases h
  | cons c t ih =>
    cases skip with
    | succ skip => exact ih h (.inr rfl)
    | zero =>
      unfold subSeamsFrom at h
      split at h
      · exact ih h (.inr rfl)
      · obtain ⟨rfl, -⟩ := List.cons.inj h
        simp [hremoved.resolve_left (by simp)]

/-- A stretch without a seam is left as it was. -/
theorem of_subSeamsFrom_append {v b : List (α × Bool)} (hv : ∀ y ∈ v, y.2 = false)
    (h : p.subSeamsFrom newline 0 start false t = v ++ b) : ∃ b', t = v ++ b' := by
  induction v generalizing start t with
  | nil => exact ⟨t, rfl⟩
  | cons y v ih =>
    cases t with
    | nil => cases h
    | cons c t =>
      unfold subSeamsFrom at h
      split at h
      · have hseam := head_seam h (.inr rfl)
        simp [hv y (by simp)] at hseam
      · obtain ⟨rfl, htail⟩ := List.cons.inj h
        obtain ⟨b', rfl⟩ := ih (fun y hy => hv y (List.mem_cons_of_mem _ hy)) htail
        exact ⟨b', by simp⟩

/-- Where a stretch that is left without a seam stood: the pattern does not match there, and a line
    starts there if one starts where it stands now. -/
theorem of_subSeamsFrom {a v b : List (α × Bool)} {x : α × Bool} (hv : ∀ y ∈ v, y.2 = false)
    (h : p.subSeamsFrom newline skip start removed t = a ++ x :: v ++ b) :
    ∃ a' x' b', t = a' ++ x' :: v ++ b' ∧ x'.1 = x.1 ∧
      (∀ n, p.matchLength (lineStart newline start (a'.map Prod.fst))
        ((x' :: v ++ b').map Prod.fst) ≠ some (n + 1)) ∧
      (x.2 = false → x'.2 = false ∧
        lineStart newline start (a'.map Prod.fst) = lineStart newline start (a.map Prod.fst)) := by
  induction t generalizing skip start removed a with
  | nil => cases skip <;> simp [subSeamsFrom] at h
  | cons c t ih =>
    -- a symbol that is taken out stands before the stretch
    have htaken : ∀ skip, p.subSeamsFrom newline skip (newline c.1) true t = a ++ x :: v ++ b →
        ∃ a' x' b', c :: t = a' ++ x' :: v ++ b' ∧ x'.1 = x.1 ∧
          (∀ n, p.matchLength (lineStart newline start (a'.map Prod.fst))
            ((x' :: v ++ b').map Prod.fst) ≠ some (n + 1)) ∧
          (x.2 = false → x'.2 = false ∧
            lineStart newline start (a'.map Prod.fst) = lineStart newline start (a.map Prod.fst)) := by
      intro skip h
      obtain ⟨a', x', b', rfl, hx, hno, hline⟩ := ih h
      refine ⟨c :: a', x', b', rfl, hx, hno, fun hfalse => ?_⟩
      have ha : a.map Prod.fst ≠ [] := by
        intro hnil
        rw [List.map_eq_nil_iff.mp hnil] at h
        simp [head_seam h (.inr rfl)] at hfalse
      obtain ⟨hx', hline'⟩ := hline hfalse
      exact ⟨hx', hline'.trans (lineStart_of_ne_nil ha _ _)⟩
    cases skip with
    | succ skip => exact htaken skip h
    | zero =>
      unfold subSeamsFrom at h
      split at h
      next n _ => exact htaken n h
      next hno =>
        cases a with
        | nil =>
          obtain ⟨rfl, htail⟩ := List.cons.inj h
          obtain ⟨b', rfl⟩ := of_subSeamsFrom_append hv htail
          exact ⟨[], c, b', rfl, rfl, hno, fun hfalse => ⟨(Bool.or_eq_false_iff.mp hfalse).1, rfl⟩⟩
        | cons y a =>
          obtain ⟨rfl, htail⟩ := List.cons.inj h
          obtain ⟨a', x', b', rfl, hx, hno', hline⟩ := ih htail
          exact ⟨c :: a', x', b', rfl, hx, hno', hline⟩

/-- After a substitution no match of its pattern is without a seam. -/
theorem subSeams_unspliced (t : List (α × Bool)) : ¬ p.Unspliced newline true (p.subSeams newline t) := by
  rintro ⟨a, x, v, b, h, hm, hv, hanchor⟩
  obtain ⟨a', x', b', -, hx, hno, hline⟩ := of_subSeamsFrom hv h
  have hstart : p.anchored → lineStart newline true (a'.map Prod.fst) = true := by
    intro hp
    obtain ⟨hfalse, hstart⟩ := hanchor hp
    rw [(hline hfalse).2, hstart]
  obtain ⟨n, hn⟩ := exists_matchLength (b := b'.map Prod.fst) hm hstart
  refine hno n ?_
  rw [← hn, List.map_append, List.map_cons, hx]

/-- A match without a seam was there before the substitution. -/
theorem Unspliced.of_subSeams {q : Pattern α} (h : q.Unspliced newline true (p.subSeams newline t)) :
    q.Unspliced newline true t := by
  obtain ⟨a, x, v, b, h, hm, hv, hanchor⟩ := h
  obtain ⟨a', x', b', rfl, hx, -, hline⟩ := of_subSeamsFrom hv h
  refine ⟨a', x', v, b', rfl, hx ▸ hm, hv, fun hq => ?_⟩
  obtain ⟨hfalse, hstart⟩ := hanchor hq
  obtain ⟨hfalse', hstart'⟩ := hline hfalse
  exact ⟨hfalse', hstart'.trans hstart⟩

theorem Unspliced.append {t' : List (α × Bool)} (h : p.Unspliced newline start t) :
    p.Unspliced newline start (t ++ t') := by
  obtain ⟨a, x, v, b, rfl, hm, hv, hanchor⟩ := h
  exact ⟨a, x, v, b ++ t', by simp, hm, hv, hanchor⟩

/-- Substitutions in turn: what is left of the matches of their patterns runs over seams. -/
theorem foldl_subSeams_unspliced {done : List (Pattern α)} (hdone : ∀ q ∈ done, ¬ q.Unspliced newline true t)
    (pats : List (Pattern α)) :
    ∀ q ∈ done ++ pats, ¬ q.Unspliced newline true (pats.foldl (fun t p => p.subSeams newline t) t) := by
  induction pats generalizing done t with
  | nil => simpa using hdone
  | cons p pats ih =>
    have hstep : ∀ q ∈ done ++ [p], ¬ q.Unspliced newline true (p.subSeams newline t) := by
      intro q hq
      rcases List.mem_append.mp hq with hq | hq
      · exact fun h => hdone q hq h.of_subSeams
      · rw [List.mem_singleton.mp hq]
        exact subSeams_unspliced t
    simpa using ih hstep

theorem map_foldl_subSeams (pats : List (Pattern α)) (t : List (α × Bool)) :
    (pats.foldl (fun t p => p.subSeams newline t) t).map Prod.fst =
      pats.foldl (fun l p => p.sub newline l) (t.map Prod.fst) := by
  induction pats generalizing t with
  | nil => rfl
  | cons p pats ih => rw [List.foldl_cons, List.foldl_cons, ih, map_subSeams]

/-- A match runs over a seam, or it does not. -/
theorem occurs_iff : p.Occurs newline start (t.map Prod.fst) ↔
    p.Unspliced newline start t ∨ p.Spliced newline start t := by
  constructor
  · rintro ⟨a, m, b, heq, hm, hanchor⟩
    obtain ⟨am, b', rfl, ham, rfl⟩ := List.map_eq_append_iff.mp heq
    obtain ⟨a', m', rfl, rfl, rfl⟩ := List.map_eq_append_iff.mp ham
    cases m' with
    | nil => exact absurd hm p.body_ne
    | cons x v =>
      by_cases hseam : (∃ y ∈ v, y.2 = true) ∨ (p.anchored = true ∧ x.2 = true)
      · exact .inr ⟨a', x, v, b', rfl, hm, hanchor, hseam⟩
      · obtain ⟨hv, hx⟩ := not_or.mp hseam
        refine .inl ⟨a', x, v, b', rfl, hm, by simpa using hv, fun hp => ⟨by simpa [hp] using hx, hanchor hp⟩⟩
  · rintro (⟨a, x, v, b, rfl, hm, -, hanchor⟩ | ⟨a, x, v, b, rfl, hm, hanchor, -⟩)
    · exact ⟨a.map Prod.fst, _, b.map Prod.fst, by simp, hm, fun hp => (hanchor hp).2⟩
    · exact ⟨a.map Prod.fst, _, b.map Prod.fst, by simp, hm, hanchor⟩

end Pattern

end Nivara.Regexp
