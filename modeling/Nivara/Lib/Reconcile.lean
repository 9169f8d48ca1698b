import Mathlib

/-!
# Reconciling a book with a report

A `Book` says what is held of each item. `reconcile close reported book` is the
book after a complete report: reported items hold what was reported, every other
item of the book is closed, and nothing else is added.

Results:

* `reconcile_of_reported`, `reconcile_of_not_reported`: what is held of an item after
  the report.
-/

namespace Nivara.Reconcile

variable {ι H : Type*}

/-- What is held of each item. -/
abbrev Book (ι H : Type*) := ι → Option H

/-- The book after a complete report. -/
def reconcile (close : H → H) (reported book : Book ι H) : Book ι H := fun i =>
  match reported i with
  | some h => some h
  | none => (book i).map close

variable {close : H → H} {reported book : Book ι H} {i : ι}

theorem reconcile_of_reported {h : H} (hr : reported i = some h) :
    reconcile close reported book i = some h := by
  simp only [reconcile, hr]

theorem reconcile_of_not_reported (hr : reported i = none) :
    reconcile close reported book i = (book i).map close := by
  simp only [reconcile, hr]

end Nivara.Reconcile
