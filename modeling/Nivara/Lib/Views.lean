import Mathlib

/-!
# Readers of several keys

A store with at most one entry for each key, and readers that take its keys one at a
time while the store changes. The view of a reader is what it has read, and what it
would read now of the other keys.

Results:

* `view_read`: a read leaves the view as it is.
* `view_update_of_not_mem`: so does a change of a key that is not to be read any more.
* `OfOne.delete`: when a key is deleted, a full view whose entries have one origin
  stays such a view, or is no longer full.
-/

namespace Nivara.Views

variable {κ ρ : Type*} [DecidableEq κ] {E : κ → Type*}

/-- The entry of each key, if it has one. -/
abbrev Entries (E : κ → Type*) := ∀ k, Option (E k)

/-- Nothing is stored. -/
def empty : Entries E := fun _ => none

/-- Every key has an entry. -/
def Full (entries : Entries E) : Prop := ∀ k, (entries k).isSome

/-- What a reader has read, and what it would read of the keys in `rest`. -/
def view (store : Entries E) (rest : List κ) (read : Entries E) : Entries E :=
  fun k => if k ∈ rest then store k else read k

/-- All entries have this origin. -/
def OriginIs (origin : ∀ k, E k → ρ) (r : ρ) (entries : Entries E) : Prop :=
  ∀ k, ∀ e ∈ entries k, origin k e = r

/-- When every key has an entry, all entries have the same origin. -/
def OfOne (origin : ∀ k, E k → ρ) (entries : Entries E) : Prop :=
  Full entries → ∃ r, OriginIs origin r entries

variable {origin : ∀ k, E k → ρ} {store read : Entries E} {k : κ} {rest : List κ}

/-- An entry that is there after a key was deleted is that of another key. -/
theorem mem_delete {k' : κ} {e : E k'} (h : e ∈ Function.update store k none k') :
    k' ≠ k ∧ e ∈ store k' := by
  by_cases hk : k' = k
  · subst hk
    rw [Function.update_self] at h
    cases h
  · rw [Function.update_of_ne hk] at h
    exact ⟨hk, h⟩

/-- The reader takes the next key. -/
theorem view_read :
    view store rest (Function.update read k (store k)) = view store (k :: rest) read := by
  funext k'
  unfold view
  by_cases hk : k' = k
  · rw [hk, Function.update_self, ite_self, if_pos List.mem_cons_self]
  · rw [Function.update_of_ne hk]
    simp only [List.mem_cons, hk, false_or]

/-- A key that is not to be read any more is not seen to change. -/
theorem view_update_of_not_mem (hk : k ∉ rest) (e : Option (E k)) :
    view (Function.update store k e) rest read = view store rest read := by
  funext k'
  unfold view
  by_cases hk' : k' ∈ rest
  · have hne : k' ≠ k := fun heq => hk (heq ▸ hk')
    rw [if_pos hk', if_pos hk', Function.update_of_ne hne]
  · rw [if_neg hk', if_neg hk']

theorem view_update_self (hk : k ∈ rest) (e : Option (E k)) :
    view (Function.update store k e) rest read k = e := by
  unfold view
  rw [if_pos hk, Function.update_self]

/-- A deleted key is seen to be missing, or was not to be read any more. -/
theorem OfOne.delete (h : OfOne origin (view store rest read)) :
    OfOne origin (view (Function.update store k none) rest read) := by
  intro hfull
  have hk : k ∉ rest := by
    intro hk
    have hsome := hfull k
    rw [view_update_self hk] at hsome
    cases hsome
  rw [view_update_of_not_mem hk] at hfull ⊢
  exact h hfull

end Nivara.Views
