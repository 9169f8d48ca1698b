import Nivara.Lib.Loop

/-!
# What a computation can raise

`Only P x` says that every exception of `x` is one of `P`. It is an equivalence at each
construct of a program: a bind, a `mapM`, and a loop that returns at the first element it
gets a result for.

Results:

* `only_bind`, `only_mapError`: the rules of the monad.
* `only_mapM`, `only_findSomeM?`: a loop raises what the first element raises that it does
  not get past.
* `findSomeM?_eq_none`, `findSomeM?_eq_some`: what a loop that returns has seen.
* `only_findSomeM?_sorted`: in a sorted loop, an element is reached when all before it in
  the order are passed.
-/

namespace Nivara.Raises

variable {ε ε' α β : Type}

/-- Every exception of `x` is one of `P`. -/
def Only (P : ε → Prop) (x : Except ε α) : Prop := ∀ e, x = .error e → P e

variable {P : ε → Prop}

@[simp] theorem only_ok (a : α) : Only P (.ok a : Except ε α) := by
  intro e h
  cases h

@[simp] theorem only_pure (a : α) : Only P (pure a : Except ε α) := only_ok a

@[simp] theorem only_error (e : ε) : Only P (.error e : Except ε α) ↔ P e := by
  constructor
  · intro h
    exact h e rfl
  · intro h e' he
    cases he
    exact h

@[simp] theorem only_bind {x : Except ε α} {f : α → Except ε β} :
    Only P (x >>= f) ↔ Only P x ∧ ∀ a, x = .ok a → Only P (f a) := by
  cases x with
  | error e =>
    change Only P (.error e : Except ε β) ↔ _
    simp
  | ok a =>
    change Only P (f a) ↔ _
    simp

@[simp] theorem only_ite {c : Prop} [Decidable c] {x y : Except ε α} :
    Only P (if c then x else y) ↔ (c → Only P x) ∧ (¬c → Only P y) := by
  split_ifs with h <;> simp [h]

@[simp] theorem only_map {g : α → β} {x : Except ε α} : Only P (g <$> x) ↔ Only P x := by
  cases x <;> simp [Functor.map, Except.map]

@[simp] theorem only_mapError {P : ε' → Prop} {g : ε → ε'} {x : Except ε α} :
    Only P (x.mapError g) ↔ Only (fun e => P (g e)) x := by
  cases x <;> simp [Except.mapError]

theorem mapError_eq_ok {g : ε → ε'} {x : Except ε α} {a : α} : x.mapError g = .ok a ↔ x = .ok a := by
  cases x <;> simp [Except.mapError]

/-! ## Loops -/

theorem exists_bind_eq_ok {f : α → Except ε β} {x : Except ε α} :
    (∃ b, (x >>= f) = .ok b) ↔ ∃ a, x = .ok a ∧ ∃ b, f a = .ok b := by
  cases x with
  | error e => simp [bind, Except.bind]
  | ok a => simp [bind, Except.bind]

theorem exists_bind_pure_eq_ok {f : α → β} {x : Except ε α} :
    (∃ b, (x >>= fun a => pure (f a)) = .ok b) ↔ ∃ a, x = .ok a := by
  rw [exists_bind_eq_ok]
  exact exists_congr fun a => and_iff_left ⟨f a, rfl⟩

theorem mapM_eq_ok {f : α → Except ε β} {l : List α} {out : List β} :
    l.mapM f = .ok out ↔ List.Forall₂ (fun a b => f a = .ok b) l out := by
  constructor
  · exact Loop.forall₂_of_mapM
  · intro h
    induction h with
    | nil => rfl
    | cons hab _ ih =>
      rw [List.mapM_cons, hab, ih]
      rfl

theorem mem_of_mapM {f : α → Except ε β} {l : List α} {out : List β} (h : l.mapM f = .ok out) {b : β} :
    b ∈ out ↔ ∃ a ∈ l, f a = .ok b := by
  have hall := mapM_eq_ok.mp h
  constructor
  · exact Loop.exists_mem_of_forall₂ hall
  · rintro ⟨a, ha, hab⟩
    obtain ⟨c, hc, hac⟩ := Loop.exists_mem_of_forall₂ hall.flip ha
    rw [hab] at hac
    cases hac
    exact hc

theorem exists_mapM_eq_ok {f : α → Except ε β} {l : List α} :
    (∃ out, l.mapM f = .ok out) ↔ ∀ a ∈ l, ∃ b, f a = .ok b := by
  simp only [mapM_eq_ok]
  induction l with
  | nil => simp
  | cons a l ih =>
    simp only [List.forall₂_cons_left_iff, List.forall_mem_cons, ← ih]
    constructor
    · rintro ⟨_, b, rest, hab, hrest, rfl⟩
      exact ⟨⟨b, hab⟩, rest, hrest⟩
    · rintro ⟨⟨b, hab⟩, rest, hrest⟩
      exact ⟨b :: rest, b, rest, hab, hrest, rfl⟩

/-- The first element that does not come through decides. -/
theorem only_mapM {f : α → Except ε β} {l : List α} :
    Only P (l.mapM f) ↔
      ∀ before a after, l = before ++ a :: after → (∀ b ∈ before, ∃ y, f b = .ok y) → Only P (f a) := by
  induction l with
  | nil => simp
  | cons x l ih =>
    rw [List.mapM_cons, only_bind]
    constructor
    · rintro ⟨hx, hrest⟩ before a after hsplit hbefore
      cases before with
      | nil =>
        obtain ⟨rfl, -⟩ := List.cons.inj hsplit
        exact hx
      | cons b before =>
        obtain ⟨rfl, hl⟩ := List.cons.inj hsplit
        obtain ⟨y, hy⟩ := hbefore x List.mem_cons_self
        have htail := (only_bind.mp (hrest y hy)).1
        exact ih.mp htail before a after hl fun c hc => hbefore c (List.mem_cons_of_mem _ hc)
    · intro h
      refine ⟨h [] x l rfl (by simp), ?_⟩
      intro y hy
      simp only [only_bind, only_pure, implies_true, and_true]
      apply ih.mpr
      rintro before a after rfl hbefore
      apply h (x :: before) a after rfl
      intro b hb
      rcases List.mem_cons.mp hb with rfl | hb
      · exact ⟨y, hy⟩
      · exact hbefore b hb

variable {f : α → Except ε (Option β)} {l : List α}

theorem findSomeM?_eq_none : l.findSomeM? f = .ok none ↔ ∀ a ∈ l, f a = .ok none := by
  induction l with
  | nil => simp [pure, Except.pure]
  | cons x l ih =>
    rw [List.findSomeM?_cons, List.forall_mem_cons]
    rcases hx : f x with e | (_ | y)
    · simp [Bind.bind, Except.bind]
    · simpa [Bind.bind, Except.bind] using ih
    · simp [Bind.bind, Except.bind, Pure.pure, Except.pure]

theorem findSomeM?_eq_some {y : β} :
    l.findSomeM? f = .ok (some y) ↔
      ∃ before a after, l = before ++ a :: after ∧ (∀ b ∈ before, f b = .ok none) ∧ f a = .ok (some y) := by
  induction l with
  | nil => simp [pure, Except.pure]
  | cons x l ih =>
    rw [List.findSomeM?_cons]
    constructor
    · intro h
      rcases hx : f x with e | (_ | z)
      · rw [hx] at h
        cases h
      · rw [hx] at h
        obtain ⟨before, a, after, rfl, hbefore, ha⟩ := ih.mp h
        exact ⟨x :: before, a, after, rfl, List.forall_mem_cons.mpr ⟨hx, hbefore⟩, ha⟩
      · rw [hx] at h
        cases h
        exact ⟨[], x, l, rfl, by simp, hx⟩
    · rintro ⟨before, a, after, hsplit, hbefore, ha⟩
      cases before with
      | nil =>
        obtain ⟨rfl, -⟩ := List.cons.inj hsplit
        rw [ha]
        rfl
      | cons b before =>
        obtain ⟨rfl, hl⟩ := List.cons.inj hsplit
        obtain ⟨hb, hbefore⟩ := List.forall_mem_cons.mp hbefore
        rw [hb]
        exact ih.mpr ⟨before, a, after, hl, hbefore, ha⟩

theorem only_findSomeM? :
    Only P (l.findSomeM? f) ↔
      ∀ before a after, l = before ++ a :: after → (∀ b ∈ before, f b = .ok none) → Only P (f a) := by
  induction l with
  | nil => simp
  | cons x l ih =>
    rw [List.findSomeM?_cons, only_bind]
    constructor
    · rintro ⟨hx, hrest⟩ before a after hsplit hbefore
      cases before with
      | nil =>
        obtain ⟨rfl, -⟩ := List.cons.inj hsplit
        exact hx
      | cons b before =>
        obtain ⟨rfl, hl⟩ := List.cons.inj hsplit
        obtain ⟨hb, hbefore⟩ := List.forall_mem_cons.mp hbefore
        exact ih.mp (hrest none hb) before a after hl hbefore
    · intro h
      refine ⟨h [] x l rfl (by simp), ?_⟩
      intro o ho
      cases o with
      | some y => exact only_pure _
      | none =>
        apply ih.mpr
        rintro before a after rfl hbefore
        exact h (x :: before) a after rfl (List.forall_mem_cons.mpr ⟨ho, hbefore⟩)

/-- An element of a sorted list is reached when all that are strictly before it are passed. -/
theorem only_findSomeM?_sorted {r : α → α → Prop} [Std.Antisymm r] (hl : l.Pairwise r) :
    Only P (l.findSomeM? f) ↔
      ∀ a ∈ l, (∀ b ∈ l, r b a → b ≠ a → f b = .ok none) → Only P (f a) := by
  classical
  rw [only_findSomeM?]
  constructor
  · intro h a ha hbefore
    obtain ⟨before, after, hsplit, hfirst⟩ := List.eq_append_cons_of_mem ha
    apply h before a after hsplit
    intro b hb
    rw [hsplit, List.pairwise_append] at hl
    apply hbefore b (hsplit ▸ List.mem_append_left _ hb) (hl.2.2 b hb a List.mem_cons_self)
    rintro rfl
    exact hfirst hb
  · rintro h before a after rfl hbefore
    apply h a (by simp)
    intro b hb hba hne
    rw [List.pairwise_append, List.pairwise_cons] at hl
    rcases List.mem_append.mp hb with hb | hb
    · exact hbefore b hb
    · rcases List.mem_cons.mp hb with rfl | hb
      · exact absurd rfl hne
      · exact absurd (Std.Antisymm.antisymm b a hba (hl.2.1.1 b hb)) hne

end Nivara.Raises
