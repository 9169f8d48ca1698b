import Nivara.Lib.Transition

/-!
# Two copies of a value

Calls that write a value to a store and then publish it, with a mark that says whether there
is one, in any interleaving. Between the two a call is `written`; some calls leave the mark
as it is.

A call owes the store when it has yet to write, or has yet to publish what is stored. It owes
the mark when it has yet to set it. The guards of a step say that a call leaves only what is
in order, or what another call owes.

Results:

* `Step.inv`: every step keeps the copies equal, or owed.
* `inOrder_of_run`: when every call is through, the copies are equal and the mark is right.
-/

namespace Nivara.TwoCopies

open Transition

/-! ## Calls and copies -/

/-- How far a call is. -/
inductive Progress (α : Type*)
  | out
  /-- It has yet to write. -/
  | unwritten (marks : Bool)
  /-- It has yet to publish what it has written. -/
  | written (value : α) (marks : Bool)
  /-- It will only set the mark. -/
  | marking
  deriving DecidableEq

structure Copies (ι α : Type*) where
  stored : α
  published : α
  mark : Bool
  calls : ι → Progress α

variable {ι α : Type*}

namespace Progress

/-- The call has yet to write, or to publish what is stored. -/
def OwesStore (stored : α) : Progress α → Prop
  | .unwritten _ => True
  | .written value _ => value = stored
  | _ => False

/-- The call has yet to set the mark. -/
def OwesMark : Progress α → Prop
  | .unwritten marks => marks = true
  | .written _ marks => marks = true
  | .marking => True
  | .out => False

instance [DecidableEq α] (stored : α) (p : Progress α) : Decidable (p.OwesStore stored) := by
  cases p <;> unfold OwesStore <;> infer_instance

instance (p : Progress α) : Decidable p.OwesMark := by
  cases p <;> unfold OwesMark <;> infer_instance

end Progress

namespace Copies

variable (present : α → Bool) (s : Copies ι α) (i : ι)

/-- Another call owes the store. -/
def StoreOwed : Prop := ∃ j, j ≠ i ∧ (s.calls j).OwesStore s.stored

/-- Another call owes the mark. -/
def MarkOwed : Prop := ∃ j, j ≠ i ∧ (s.calls j).OwesMark

/-- The copies are equal without the call, or another one owes them. -/
def StoreKept : Prop := s.stored = s.published ∨ s.StoreOwed i

/-- The mark is right without the call, or another one owes it. -/
def MarkKept : Prop := s.mark = present s.published ∨ s.MarkOwed i

/-- The copies are equal, and the mark is right. -/
structure InOrder : Prop where
  stored : s.stored = s.published
  mark : s.mark = present s.published

instance [Fintype ι] [DecidableEq ι] [DecidableEq α] : Decidable (s.StoreOwed i) :=
  inferInstanceAs (Decidable (∃ j, j ≠ i ∧ (s.calls j).OwesStore s.stored))

instance [Fintype ι] [DecidableEq ι] : Decidable (s.MarkOwed i) :=
  inferInstanceAs (Decidable (∃ j, j ≠ i ∧ (s.calls j).OwesMark))

instance [Fintype ι] [DecidableEq ι] [DecidableEq α] : Decidable (s.StoreKept i) :=
  inferInstanceAs (Decidable (_ ∨ _))

instance [Fintype ι] [DecidableEq ι] : Decidable (s.MarkKept present i) :=
  inferInstanceAs (Decidable (_ ∨ _))

/-- The copies are equal, or some call owes them; the mark is right, or some call owes it. -/
structure Inv : Prop where
  stored : s.stored = s.published ∨ ∃ j, (s.calls j).OwesStore s.stored
  mark : s.mark = present s.published ∨ ∃ j, (s.calls j).OwesMark

end Copies

/-! ## Steps -/

section Steps

variable [DecidableEq ι] (present : α → Bool) (s : Copies ι α)

/-- A step of call `i`. -/
inductive Step (i : ι) : Copies ι α → Prop
  /-- The call starts, or goes on, to write. It clears the mark only when it will set it. -/
  | plan {marks mark : Bool} (hmarks : (s.calls i).OwesMark → marks = true)
      (hmark : marks = true ∨ mark = s.mark) :
      Step i { s with mark := mark, calls := Function.update s.calls i (.unwritten marks) }
  | write (value : α) {marks : Bool} (h : s.calls i = .unwritten marks) :
      Step i { s with stored := value, calls := Function.update s.calls i (.written value marks) }
  /-- It publishes with the mark, or without. -/
  | publish {value : α} {marks : Bool} (h : s.calls i = .written value marks)
      (hstored : s.stored = value ∨ s.StoreOwed i)
      (hmark : marks = true ∨ s.mark = present value ∨ s.MarkOwed i) :
      Step i { s with
        published := value
        mark := if marks then present value else s.mark
        calls := Function.update s.calls i .out }
  /-- It has nothing to write. -/
  | settle (hstored : s.StoreKept i) : Step i { s with calls := Function.update s.calls i .marking }
  | setMark {mark : Bool} (h : s.calls i = .marking) (hmark : mark = present s.published ∨ s.MarkOwed i) :
      Step i { s with mark := mark, calls := Function.update s.calls i .out }
  /-- It fails. -/
  | abandon (hstored : s.StoreKept i) (hmark : s.MarkKept present i) :
      Step i { s with calls := Function.update s.calls i .out }

variable {present s} {t : Copies ι α} {i : ι} {p : Progress α}

/-- What another call owes is owed wherever the call goes. -/
theorem exists_of_other {Owes : Progress α → Prop} (h : ∃ j, j ≠ i ∧ Owes (s.calls j)) :
    ∃ j, Owes (Function.update s.calls i p j) := by
  obtain ⟨j, hji, hj⟩ := h
  refine ⟨j, ?_⟩
  rwa [Function.update_of_ne hji]

/-- What a call owes it can pass on. -/
theorem exists_update {Owes : Progress α → Prop} (h : ∃ j, Owes (s.calls j)) (hp : Owes (s.calls i) → Owes p) :
    ∃ j, Owes (Function.update s.calls i p j) := by
  obtain ⟨j, hj⟩ := h
  by_cases hji : j = i
  · refine ⟨i, ?_⟩
    rw [Function.update_self]
    exact hp (hji ▸ hj)
  · exact exists_of_other ⟨j, hji, hj⟩

theorem exists_self {Owes : Progress α → Prop} (hp : Owes p) : ∃ j, Owes (Function.update s.calls i p j) :=
  ⟨i, by rwa [Function.update_self]⟩

/-- Every step keeps the copies equal, or owed. -/
theorem Step.inv (h : s.Inv present) (hstep : Step present s i t) : t.Inv present := by
  cases hstep with
  | plan hmarks hmark =>
    refine ⟨.inr (exists_self trivial), ?_⟩
    rcases hmark with hmark | hmark
    · exact .inr (exists_self hmark)
    · exact h.mark.imp hmark.trans fun howed => exists_update howed hmarks
  | write value hi =>
    refine ⟨.inr (exists_self rfl), h.mark.imp id fun howed => exists_update howed fun hmarks => ?_⟩
    rwa [hi] at hmarks
  | @publish value marks hi hstored hmark =>
    refine ⟨hstored.imp id exists_of_other, ?_⟩
    cases marks with
    | true => exact .inl rfl
    | false => exact (hmark.resolve_left (by decide)).imp id exists_of_other
  | settle hstored =>
    refine ⟨hstored.imp id exists_of_other, h.mark.imp id fun howed => exists_update howed fun _ => trivial⟩
  | setMark hi hmark =>
    refine ⟨h.stored.imp id fun howed => exists_update howed fun hstore => ?_, hmark.imp id exists_of_other⟩
    rw [hi] at hstore
    exact hstore.elim
  | abandon hstored hmark => exact ⟨hstored.imp id exists_of_other, hmark.imp id exists_of_other⟩

end Steps

/-! ## Runs -/

variable [DecidableEq ι] {present : α → Bool} {s t : Copies ι α}

omit [DecidableEq ι] in
/-- What is owed nobody owes once every call is through. -/
theorem Copies.Inv.inOrder (h : s.Inv present) (hout : ∀ i, s.calls i = .out) : s.InOrder present where
  stored := h.stored.resolve_right fun ⟨j, hj⟩ => by rw [hout j] at hj; exact hj
  mark := h.mark.resolve_right fun ⟨j, hj⟩ => by rw [hout j] at hj; exact hj

/-- When every call is through, the copies are equal and the mark is right. -/
theorem inOrder_of_run (h : Run (fun s i t => Step present s i t) Unconditional s t) (hs : s.Inv present)
    (hout : ∀ i, t.calls i = .out) : t.InOrder present :=
  (h.invariant hs fun _ _ _ hinv _ hstep => hstep.inv hinv).inOrder hout

end Nivara.TwoCopies
