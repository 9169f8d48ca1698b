import Mathlib

/-!
# The latest of dated rows

The newest row of a table whose rows are dated, as `ORDER BY date DESC LIMIT 1` picks it.

Results:

* `latest_eq_some_iff`: where no two rows have one date, it is the row that no row is newer than.
* `latest_congr`: tables with the same rows have the same newest row.
* `asOf_eq_first_iff`, `asOf_eq_last_iff`: when the first and the last row of a window are the newest
  ones at two times.
-/

namespace Nivara.AsOf

variable {ρ T : Type*} [LinearOrder T] {date : ρ → T} {rows rows' : List ρ} {r r' : ρ}

/-- The newest row. -/
def latest (date : ρ → T) (rows : List ρ) : Option ρ :=
  (rows.insertionSort fun a b => date b ≤ date a).head?

/-- No two rows have one date. -/
def Distinct (date : ρ → T) (rows : List ρ) : Prop :=
  ∀ r ∈ rows, ∀ r' ∈ rows, date r = date r' → r = r'

theorem pairwise_sorted (date : ρ → T) (rows : List ρ) :
    (rows.insertionSort fun a b => date b ≤ date a).Pairwise fun a b => date b ≤ date a := by
  have htotal : Std.Total fun a b : ρ => date b ≤ date a := ⟨fun a b => le_total (date b) (date a)⟩
  have htrans : IsTrans ρ fun a b => date b ≤ date a := ⟨fun _ _ _ hab hbc => hbc.trans hab⟩
  exact List.pairwise_insertionSort _ rows

theorem latest_eq_none_iff : latest date rows = none ↔ rows = [] := by
  unfold latest
  rw [List.head?_eq_none_iff]
  refine ⟨fun h => ?_, fun h => by rw [h, List.insertionSort_nil]⟩
  have hperm := List.perm_insertionSort (fun a b => date b ≤ date a) rows
  rw [h] at hperm
  exact hperm.nil_eq.symm

/-- No row is newer than the newest. -/
theorem latest_spec (h : latest date rows = some r) : r ∈ rows ∧ ∀ r' ∈ rows, date r' ≤ date r := by
  have hperm := List.perm_insertionSort (fun a b => date b ≤ date a) rows
  obtain ⟨rest, hsorted⟩ := List.head?_eq_some_iff.mp h
  have hpairwise := pairwise_sorted date rows
  rw [hsorted] at hperm hpairwise
  refine ⟨hperm.mem_iff.mp List.mem_cons_self, fun r' hr' => ?_⟩
  rcases List.mem_cons.mp (hperm.mem_iff.mpr hr') with rfl | hrest
  · exact le_rfl
  · exact (List.pairwise_cons.mp hpairwise).1 r' hrest

theorem latest_eq_some_iff (hdistinct : Distinct date rows) :
    latest date rows = some r ↔ r ∈ rows ∧ ∀ r' ∈ rows, date r' ≤ date r := by
  refine ⟨latest_spec, fun ⟨hr, hnewest⟩ => ?_⟩
  cases hlatest : latest date rows with
  | none =>
    rw [latest_eq_none_iff.mp hlatest] at hr
    cases hr
  | some r' =>
    obtain ⟨hr', hnewest'⟩ := latest_spec hlatest
    exact congrArg some (hdistinct r' hr' r hr (le_antisymm (hnewest r' hr') (hnewest' r hr)))

theorem latest_congr (hdistinct : Distinct date rows) (h : ∀ r, r ∈ rows ↔ r ∈ rows') :
    latest date rows = latest date rows' := by
  have hdistinct' : Distinct date rows' := fun r hr r' hr' =>
    hdistinct r ((h r).mpr hr) r' ((h r').mpr hr')
  ext r
  rw [latest_eq_some_iff hdistinct, latest_eq_some_iff hdistinct']
  simp only [h]

/-! ## Windows -/

/-- The rows from `start` on and before `stop`. -/
def window (date : ρ → T) (start stop : T) (rows : List ρ) : List ρ :=
  rows.filter fun r => start ≤ date r ∧ date r < stop

/-- The newest row at a time. -/
def asOf (date : ρ → T) (t : T) (rows : List ρ) : Option ρ := latest date (rows.filter fun r => date r ≤ t)

theorem asOf_eq_none_iff {t : T} : asOf date t rows = none ↔ ∀ r ∈ rows, t < date r := by
  unfold asOf
  rw [latest_eq_none_iff, List.filter_eq_nil_iff]
  simp only [decide_eq_true_iff, not_le]

section Window

variable {start stop t : T} (hrows : rows.Pairwise fun a b => date a < date b)
include hrows

theorem distinct_of_sorted : Distinct date rows := by
  have hnodup : (rows.map date).Nodup := List.pairwise_map.mpr (hrows.imp ne_of_lt)
  exact fun r hr r' hr' hdate => List.inj_on_of_nodup_map hnodup hr hr' hdate

theorem asOf_eq_some_iff : asOf date t rows = some r ↔
    (r ∈ rows ∧ date r ≤ t) ∧ ∀ r' ∈ rows, date r' ≤ t → date r' ≤ date r := by
  unfold asOf
  rw [latest_eq_some_iff (distinct_of_sorted (hrows.filter _)), List.mem_filter, decide_eq_true_iff]
  simp only [List.mem_filter, decide_eq_true_iff, and_imp]

theorem head_le (h : rows.head? = some r) : ∀ r' ∈ rows, date r ≤ date r' := by
  obtain ⟨rest, rfl⟩ := List.head?_eq_some_iff.mp h
  intro r' hr'
  rcases List.mem_cons.mp hr' with rfl | hr'
  · exact le_rfl
  · exact ((List.pairwise_cons.mp hrows).1 r' hr').le

theorem le_last (h : rows.getLast? = some r) : ∀ r' ∈ rows, date r' ≤ date r := by
  obtain ⟨rest, rfl⟩ := List.getLast?_eq_some_iff.mp h
  intro r' hr'
  rcases List.mem_append.mp hr' with hr' | hr'
  · exact ((List.pairwise_append.mp hrows).2.2 r' hr' r (List.mem_singleton_self r)).le
  · exact (List.mem_singleton.mp hr') ▸ le_rfl

/-- The first row of a window is the newest one at a time exactly when there is one row from the start of
    the window to that time. -/
theorem asOf_eq_first_iff (hfirst : (window date start stop rows).head? = some r) :
    asOf date t rows = some r ↔ (rows.filter fun x => start ≤ date x ∧ date x ≤ t).length = 1 := by
  have hmem := List.mem_filter.mp (List.mem_of_mem_head? hfirst)
  rw [decide_eq_true_iff] at hmem
  have hleast : ∀ x ∈ rows, start ≤ date x → date x < stop → date r ≤ date x := by
    intro x hx hstart hstop
    exact head_le (hrows.filter _) hfirst x
      (List.mem_filter.mpr ⟨hx, decide_eq_true_iff.mpr ⟨hstart, hstop⟩⟩)
  constructor
  · intro hasOf
    obtain ⟨⟨-, hle⟩, hnewest⟩ := (asOf_eq_some_iff hrows).mp hasOf
    -- no other row: it would be before the first one or after the newest one
    have hall : ∀ x ∈ rows.filter (fun x => start ≤ date x ∧ date x ≤ t), x = r := by
      intro x hx
      obtain ⟨hx, hrange⟩ := List.mem_filter.mp hx
      rw [decide_eq_true_iff] at hrange
      have hxr := hnewest x hx hrange.2
      have hrx := hleast x hx hrange.1 (hxr.trans_lt hmem.2.2)
      exact distinct_of_sorted hrows x hx r hmem.1 (le_antisymm hxr hrx)
    have hin : r ∈ rows.filter (fun x => start ≤ date x ∧ date x ≤ t) :=
      List.mem_filter.mpr ⟨hmem.1, decide_eq_true_iff.mpr ⟨hmem.2.1, hle⟩⟩
    have hsorted := hrows.filter fun x => start ≤ date x ∧ date x ≤ t
    rcases hrange : rows.filter (fun x => start ≤ date x ∧ date x ≤ t) with _ | ⟨x, _ | ⟨y, rest⟩⟩ <;>
      rw [hrange] at hall hin hsorted
    · cases hin
    · rfl
    · have hlt := (List.pairwise_cons.mp hsorted).1 y List.mem_cons_self
      rw [hall x List.mem_cons_self, hall y (List.mem_cons_of_mem _ List.mem_cons_self)] at hlt
      exact absurd hlt (lt_irrefl _)
  · intro hone
    obtain ⟨x, hx⟩ := List.length_eq_one_iff.mp hone
    have honly : ∀ y ∈ rows, start ≤ date y → date y ≤ t → y = x := by
      intro y hy hstart hle
      refine List.mem_singleton.mp (hx ▸ List.mem_filter.mpr ⟨hy, ?_⟩)
      exact decide_eq_true_iff.mpr ⟨hstart, hle⟩
    obtain ⟨hxmem, hxrange⟩ := List.mem_filter.mp (hx ▸ List.mem_singleton_self x)
    rw [decide_eq_true_iff] at hxrange
    have hrt : date r ≤ t := by
      by_contra hlt
      have hstop := (hxrange.2.trans_lt (not_le.mp hlt)).trans hmem.2.2
      exact hlt ((hleast x hxmem hxrange.1 hstop).trans hxrange.2)
    refine (asOf_eq_some_iff hrows).mpr ⟨⟨hmem.1, hrt⟩, fun y hy hle => ?_⟩
    rcases lt_or_ge (date y) start with hbefore | hstart
    · exact hbefore.le.trans hmem.2.1
    · rw [honly y hy hstart hle, honly r hmem.1 hmem.2.1 hrt]

/-- The last row of a window is the newest one at a time exactly when no row tells the time from the end of
    the window. -/
theorem asOf_eq_last_iff (hlast : (window date start stop rows).getLast? = some r) :
    asOf date t rows = some r ↔ ∀ x ∈ rows, date x ≤ t ↔ date x < stop := by
  have hmem := List.mem_filter.mp (List.mem_of_getLast? hlast)
  rw [decide_eq_true_iff] at hmem
  have hgreatest : ∀ x ∈ rows, date x < stop → date x ≤ date r := by
    intro x hx hstop
    rcases lt_or_ge (date x) start with hbefore | hstart
    · exact hbefore.le.trans hmem.2.1
    · exact le_last (hrows.filter _) hlast x
        (List.mem_filter.mpr ⟨hx, decide_eq_true_iff.mpr ⟨hstart, hstop⟩⟩)
  rw [asOf_eq_some_iff hrows]
  constructor
  · rintro ⟨⟨-, hle⟩, hnewest⟩ x hx
    exact ⟨fun hxt => (hnewest x hx hxt).trans_lt hmem.2.2, fun hlt => (hgreatest x hx hlt).trans hle⟩
  · intro hsame
    exact ⟨⟨hmem.1, (hsame r hmem.1).mpr hmem.2.2⟩, fun x hx hle => hgreatest x hx ((hsame x hx).mp hle)⟩

end Window

end Nivara.AsOf
