import Mathlib

/-!
# Pages of an ordered query

`ORDER BY key DESC` with an offset and a limit. The order of rows with equal keys is left open, and
may be another one in each query.

Results:

* `Ordered.position`: the position of a row lies among those of the rows with its key.
* `mem_page_iff`: when these all lie on one page, so does the row, in every order.
* `pages_perm_iff`: the pages together have each row once, whatever the orders, exactly when no
  key has rows on two pages.
-/

namespace Nivara.Paging

variable {α β : Type*} [LinearOrder β] {key : α → β}

/-- A result of the query before its offset and limit. -/
structure Ordered (key : α → β) (rows σ : List α) : Prop where
  perm : σ.Perm rows
  sorted : σ.Pairwise fun a b => key b ≤ key a

/-- Page `p`, counted from 0, of `size` rows each. -/
def page (size : ℕ) (σ : List α) (p : ℕ) : List α := (σ.drop (p * size)).take size

/-- The number of pages. -/
def pageCount (size total : ℕ) : ℕ := (total + size - 1) / size

/-- The pages of the queries `orders`, one after the other. -/
def pages (size total : ℕ) (orders : ℕ → List α) : List α :=
  (List.range (pageCount size total)).flatMap fun p => page size (orders p) p

/-- The rows that come before a row in every order, and those that do not come after it in every. -/
def newer (key : α → β) (rows : List α) (a : α) : ℕ := rows.countP fun b => key a < key b

def notOlder (key : α → β) (rows : List α) (a : α) : ℕ := rows.countP fun b => key a ≤ key b

variable {rows σ : List α} {a : α} {size : ℕ}

/-! ## Positions -/

theorem Ordered.position (h : Ordered key rows σ) {i : ℕ} (hi : σ[i]? = some a) :
    newer key rows a ≤ i ∧ i < notOlder key rows a := by
  obtain ⟨hlt, ha⟩ := List.getElem?_eq_some_iff.mp hi
  have hsplit : σ = σ.take i ++ a :: σ.drop (i + 1) := by
    rw [← ha, ← List.drop_eq_getElem_cons hlt, List.take_append_drop]
  have hsorted := h.sorted
  rw [hsplit] at hsorted
  obtain ⟨-, hafter, hbefore⟩ := List.pairwise_append.mp hsorted
  have hlength : (σ.take i).length = i := List.length_take_of_le hlt.le
  unfold newer notOlder
  rw [← h.perm.countP_eq, ← h.perm.countP_eq, hsplit, List.countP_append, List.countP_append]
  constructor
  · -- neither the row itself nor a later one is newer
    have hzero : (a :: σ.drop (i + 1)).countP (fun b => key a < key b) = 0 := by
      refine List.countP_eq_zero.mpr fun b hb => ?_
      obtain rfl | hb := List.mem_cons.mp hb
      · simp
      · simpa using (List.pairwise_cons.mp hafter).1 b hb
    have hle := List.countP_le_length (p := fun b => decide (key a < key b)) (l := σ.take i)
    omega
  · have hall : (σ.take i).countP (fun b => key a ≤ key b) = i := by
      conv_rhs => rw [← hlength]
      refine List.countP_eq_length.mpr fun b hb => ?_
      simpa using hbefore b hb a (by simp)
    have hpos : 0 < (a :: σ.drop (i + 1)).countP (fun b => key a ≤ key b) :=
      List.countP_pos_iff.mpr ⟨a, by simp, by simp⟩
    omega

theorem mem_page (hsize : 0 < size) {p : ℕ} :
    a ∈ page size σ p ↔ ∃ i, σ[i]? = some a ∧ i / size = p := by
  unfold page
  rw [List.mem_iff_getElem?]
  constructor
  · rintro ⟨j, hj⟩
    rw [List.getElem?_take] at hj
    split_ifs at hj with hlt
    rw [List.getElem?_drop] at hj
    refine ⟨p * size + j, hj, ?_⟩
    rw [mul_comm, Nat.mul_add_div hsize, Nat.div_eq_of_lt hlt, add_zero]
  · rintro ⟨i, hi, rfl⟩
    refine ⟨i % size, ?_⟩
    rw [List.getElem?_take, if_pos (Nat.mod_lt i hsize), List.getElem?_drop, Nat.div_add_mod' i size]
    exact hi

theorem lt_pageCount (hsize : 0 < size) {i total : ℕ} (hi : i < total) :
    i / size < pageCount size total := by
  unfold pageCount
  rw [Nat.div_lt_iff_lt_mul hsize]
  have hceil := Nat.lt_div_mul_add (a := total + size - 1) hsize
  omega

/-- A key whose rows lie on one page. -/
def OnOnePage (key : α → β) (size : ℕ) (rows : List α) (a : α) : Prop :=
  newer key rows a / size = (notOlder key rows a - 1) / size

instance (key : α → β) (size : ℕ) (rows : List α) (a : α) : Decidable (OnOnePage key size rows a) :=
  inferInstanceAs (Decidable (_ = _))

/-- Then a row of this key lies on that page in every order. -/
theorem mem_page_iff (h : Ordered key rows σ) (hsize : 0 < size) (ha : a ∈ rows)
    (hone : OnOnePage key size rows a) {p : ℕ} : a ∈ page size σ p ↔ newer key rows a / size = p := by
  have hpage : ∀ i, σ[i]? = some a → i / size = newer key rows a / size := by
    intro i hi
    obtain ⟨hlo, hhi⟩ := h.position hi
    have hle := Nat.div_le_div_right (c := size) hlo
    have hge := Nat.div_le_div_right (c := size) (Nat.le_sub_one_of_lt hhi)
    unfold OnOnePage at hone
    omega
  rw [mem_page hsize]
  constructor
  · rintro ⟨i, hi, rfl⟩
    exact (hpage i hi).symm
  · rintro rfl
    obtain ⟨i, hi⟩ := List.mem_iff_getElem?.mp (h.perm.mem_iff.mpr ha)
    exact ⟨i, hi, hpage i hi⟩

theorem page_sublist (size : ℕ) (σ : List α) (p : ℕ) : (page size σ p).Sublist σ :=
  (List.take_sublist _ _).trans (List.drop_sublist _ _)

/-- The pages have each row once when each key has its rows on one page. -/
theorem pages_perm (hnodup : rows.Nodup) (hsize : 0 < size) (hone : ∀ a ∈ rows, OnOnePage key size rows a)
    {orders : ℕ → List α} (horders : ∀ p, Ordered key rows (orders p)) :
    (pages size rows.length orders).Perm rows := by
  have hmem : ∀ p, ∀ a ∈ page size (orders p) p, a ∈ rows ∧ newer key rows a / size = p := by
    intro p a ha
    have hrow : a ∈ rows := (horders p).perm.mem_iff.mp ((page_sublist ..).subset ha)
    exact ⟨hrow, (mem_page_iff (horders p) hsize hrow (hone a hrow)).mp ha⟩
  have hpages : (pages size rows.length orders).Nodup := by
    refine List.nodup_flatMap.mpr ⟨fun p _ => ?_, ?_⟩
    · exact ((horders p).perm.nodup_iff.mpr hnodup).sublist (page_sublist ..)
    · refine List.Pairwise.imp ?_ (List.pairwise_lt_range)
      intro p q hpq a hp hq
      exact hpq.ne ((hmem p a hp).2.symm.trans (hmem q a hq).2)
  refine (List.perm_ext_iff_of_nodup hpages hnodup).mpr fun a => ?_
  unfold pages
  rw [List.mem_flatMap]
  constructor
  · rintro ⟨p, -, ha⟩
    exact (hmem p a ha).1
  · intro ha
    obtain ⟨i, hi⟩ := List.mem_iff_getElem?.mp ((horders 0).perm.mem_iff.mpr ha)
    have hlt : newer key rows a < rows.length := by
      obtain ⟨hlo, -⟩ := (horders 0).position hi
      have hi' := (List.getElem?_eq_some_iff.mp hi).1
      rw [(horders 0).perm.length_eq] at hi'
      omega
    refine ⟨newer key rows a / size, List.mem_range.mpr (lt_pageCount hsize hlt), ?_⟩
    exact (mem_page_iff (horders _) hsize ha (hone a ha)).mpr rfl

/-! ## Two orders -/

/-- An order in which a row stands right behind the rows of a set that every order may put first. -/
theorem exists_ordered [DecidableEq α] (ha : a ∈ rows) {first : α → Bool} (hself : first a = false)
    (hnewer : ∀ b, key a < key b → first b = true) (hnotOlder : ∀ b, first b = true → key a ≤ key b) :
    ∃ σ, Ordered key rows σ ∧ σ[rows.countP first]? = some a := by
  let le : α → α → Prop := fun b c => key c ≤ key b
  have hsort : ∀ l : List α, (l.insertionSort le).Pairwise le := fun l =>
    have : Std.Total le := ⟨fun b c => le_total _ _⟩
    have : IsTrans α le := ⟨fun b c d hbc hcd => hcd.trans hbc⟩
    List.pairwise_insertionSort le l
  set before := (rows.filter first).insertionSort le with hbefore
  set after := ((rows.filter fun b => !first b).erase a).insertionSort le with hafter
  have hmemBefore : ∀ b ∈ before, first b = true := fun b hb =>
    (List.mem_filter.mp ((List.mem_insertionSort le).mp hb)).2
  have hmemAfter : ∀ b ∈ after, key b ≤ key a := by
    intro b hb
    have hb := List.mem_of_mem_erase ((List.mem_insertionSort le).mp hb)
    by_contra hlt
    have hfirst := hnewer b (not_le.mp hlt)
    rw [List.mem_filter, hfirst] at hb
    simp at hb
  have hlength : before.length = rows.countP first := by
    rw [hbefore, List.length_insertionSort, List.countP_eq_length_filter]
  refine ⟨before ++ a :: after, ⟨?_, ?_⟩, ?_⟩
  · have hrest : a ∈ rows.filter fun b => !first b := by simp [List.mem_filter, ha, hself]
    have hcons : (a :: after).Perm (rows.filter fun b => !first b) :=
      ((List.perm_insertionSort le _).cons a).trans (List.perm_cons_erase hrest).symm
    exact ((List.perm_insertionSort le _).append hcons).trans (List.filter_append_perm first rows)
  · refine List.pairwise_append.mpr
      ⟨hsort _, List.pairwise_cons.mpr ⟨hmemAfter, hsort _⟩, fun b hb c hc => ?_⟩
    have hab := hnotOlder b (hmemBefore b hb)
    obtain rfl | hc := List.mem_cons.mp hc
    · exact hab
    · exact (hmemAfter c hc).trans hab
  · rw [← hlength, List.getElem?_append_right le_rfl, Nat.sub_self]
    rfl

variable (key) in
/-- A row may be the first of its key, and the last. -/
theorem exists_first_and_last [DecidableEq α] (hnodup : rows.Nodup) (ha : a ∈ rows) :
    (∃ σ, Ordered key rows σ ∧ σ[newer key rows a]? = some a) ∧
      ∃ σ, Ordered key rows σ ∧ σ[notOlder key rows a - 1]? = some a := by
  constructor
  · exact exists_ordered ha (by simp) (fun b hb => by simpa using hb) fun b hb => by
      simpa using (of_decide_eq_true hb).le
  · have hcount : rows.countP (fun b => key a ≤ key b ∧ b ≠ a) = notOlder key rows a - 1 := by
      have herase : (rows.erase a).countP (fun b => key a ≤ key b) = notOlder key rows a - 1 := by
        rw [List.countP_erase, if_pos ⟨ha, by simp⟩]
        rfl
      rw [← herase, hnodup.erase_eq_filter, List.countP_filter]
      refine List.countP_congr fun b _ => ?_
      simp
    rw [← hcount]
    refine exists_ordered ha (by simp) (fun b hb => ?_) fun b hb => ?_
    · have hne : b ≠ a := by
        rintro rfl
        exact lt_irrefl _ hb
      simp [hb.le, hne]
    · exact (of_decide_eq_true hb).1

/-- The pages have each row once, in whatever orders the queries are answered, exactly when no key
    has rows on two pages. -/
theorem pages_perm_iff [DecidableEq α] (hnodup : rows.Nodup) (hsize : 0 < size) :
    (∀ orders : ℕ → List α, (∀ p, Ordered key rows (orders p)) →
        (pages size rows.length orders).Perm rows) ↔
      ∀ a ∈ rows, OnOnePage key size rows a := by
  constructor
  · intro h a ha
    by_contra hone
    obtain ⟨⟨σ, hσ, hfirst⟩, τ, hτ, hlast⟩ := exists_first_and_last key hnodup ha
    set p := newer key rows a / size with hp
    set q := (notOlder key rows a - 1) / size with hq
    -- the page of the first place is asked for in the one order, every other page in the other
    let orders : ℕ → List α := fun j => if j = p then σ else τ
    have horders : ∀ j, Ordered key rows (orders j) := fun j => by
      by_cases hj : j = p
      · simpa [orders, hj] using hσ
      · simpa [orders, hj] using hτ
    have hperm := h orders horders
    have hnodupPages := hperm.nodup_iff.mpr hnodup
    have hmemP : a ∈ page size (orders p) p := by
      refine (mem_page hsize).mpr ⟨_, ?_, rfl⟩
      simpa [orders] using hfirst
    have hne : p ≠ q := hone
    have hmemQ : a ∈ page size (orders q) q := by
      refine (mem_page hsize).mpr ⟨_, ?_, rfl⟩
      simpa [orders, hne.symm] using hlast
    have hbound : ∀ (ρ : List α) (i : ℕ), Ordered key rows ρ → ρ[i]? = some a →
        i / size < pageCount size rows.length := by
      intro ρ i hρ hi
      refine lt_pageCount hsize ?_
      rw [← hρ.perm.length_eq]
      exact (List.getElem?_eq_some_iff.mp hi).1
    obtain ⟨-, hdisjoint⟩ := List.nodup_flatMap.mp hnodupPages
    have hsymm : Std.Symm fun j k => (page size (orders j) j).Disjoint (page size (orders k) k) :=
      ⟨fun _ _ hjk => hjk.symm⟩
    have hp' := List.mem_range.mpr (hbound σ _ hσ hfirst)
    have hq' := List.mem_range.mpr (hbound τ _ hτ hlast)
    exact hdisjoint.forall hp' hq' hne hmemP hmemQ
  · intro hone orders horders
    exact pages_perm hnodup hsize hone horders

end Nivara.Paging
