import Mathlib

/-!
# Rows with a key

Lists of rows under a key function, as a table with a unique constraint is
stored, and lists of reports `(key, value)` in arrival order, as a loop reads
them.

* `modify key k f rows`: the rows with key `k` are replaced by their image.
* `upsert key row rows`: `row` is inserted, or takes the place of the rows with its key.
* `lastFor rs k`: the value the last report for `k` carries.
* `entries ks g`: the keys for which `g` has a value, with their values.

Results:

* `find?_modify`: the row with the key is found and modified.
* `mem_upsert`, `exists_mem_upsert`: the rows after an upsert; no key is lost.
* `filter_key_eq_singleton`, `length_filter_key_le_one`: with distinct keys a row is the
  only one of its key.
* `sum_filter_isSome`: a total over rows, grouped by their key.
* `lastFor_append`, `lastFor_eq_none`, `lastFor_of_mem`: the last report for a key.
* `mem_entries`, `lookup_entries`: what the entries hold.
-/

namespace Nivara.Keyed

variable {α β κ : Type*} [DecidableEq κ]

/-! ## Rows -/

section Rows

variable (key : α → κ)

/-- Replaces the rows with key `k` by their image under `f`. -/
def modify (k : κ) (f : α → α) (rows : List α) : List α :=
  rows.map fun r => if key r = k then f r else r

variable {key} {k : κ} {f : α → α} {rows : List α}

theorem modify_append (rows' : List α) :
    modify key k f (rows ++ rows') = modify key k f rows ++ modify key k f rows' :=
  List.map_append

theorem modify_of_forall_ne (h : ∀ r ∈ rows, key r ≠ k) : modify key k f rows = rows := by
  unfold modify
  conv_rhs => rw [← List.map_id rows]
  exact List.map_congr_left fun r hr => by simp [h r hr]

theorem modify_map (g : β → α) (l : List β) :
    modify key k f (l.map g) = l.map fun b => if key (g b) = k then f (g b) else g b := by
  unfold modify; rw [List.map_map]; rfl

theorem modify_congr {g : α → α} (h : ∀ r ∈ rows, key r = k → f r = g r) :
    modify key k f rows = modify key k g rows := by
  unfold modify
  apply List.map_congr_left
  intro r hr
  by_cases hk : key r = k
  · rw [if_pos hk, if_pos hk, h r hr hk]
  · rw [if_neg hk, if_neg hk]

theorem map_modify (g : α → β) :
    (modify key k f rows).map g = rows.map fun r => g (if key r = k then f r else r) := by
  unfold modify; rw [List.map_map]; rfl

/-- The first row with the key, after a modification that keeps keys. -/
theorem find?_modify (hf : ∀ r, key (f r) = key r) :
    (modify key k f rows).find? (fun r => key r = k) = (rows.find? fun r => key r = k).map f := by
  unfold modify
  induction rows with
  | nil => rfl
  | cons r rows ih =>
    rw [List.map_cons]
    by_cases h : key r = k
    · simp [h, hf]
    · simpa [h] using ih

variable (key) in
/-- `INSERT ... ON CONFLICT (key) DO UPDATE`. -/
def upsert (row : α) (rows : List α) : List α :=
  if rows.any fun r => key r = key row then modify key (key row) (fun _ => row) rows else rows ++ [row]

theorem mem_upsert {row r : α} : r ∈ upsert key row rows ↔ r = row ∨ (r ∈ rows ∧ key r ≠ key row) := by
  unfold upsert
  split_ifs with hany
  · obtain ⟨old, hold, hkey⟩ := List.any_eq_true.mp hany
    have hkey : key old = key row := of_decide_eq_true hkey
    unfold modify
    rw [List.mem_map]
    constructor
    · rintro ⟨a, ha, rfl⟩
      by_cases hk : key a = key row
      · rw [if_pos hk]
        exact .inl rfl
      · rw [if_neg hk]
        exact .inr ⟨ha, hk⟩
    · rintro (rfl | ⟨hr, hk⟩)
      · exact ⟨old, hold, if_pos hkey⟩
      · exact ⟨r, hr, if_neg hk⟩
  · have hnew : ∀ a ∈ rows, key a ≠ key row := fun a ha hk =>
      hany (List.any_eq_true.mpr ⟨a, ha, decide_eq_true hk⟩)
    rw [List.mem_append, List.mem_singleton]
    constructor
    · rintro (hr | rfl)
      · exact .inr ⟨hr, hnew r hr⟩
      · exact .inl rfl
    · rintro (rfl | ⟨hr, -⟩)
      · exact .inr rfl
      · exact .inl hr

/-- A key that is there stays. -/
theorem exists_mem_upsert {row r : α} (hr : r ∈ rows) : ∃ r' ∈ upsert key row rows, key r' = key r := by
  by_cases hk : key r = key row
  · exact ⟨row, mem_upsert.mpr (.inl rfl), hk.symm⟩
  · exact ⟨r, mem_upsert.mpr (.inr ⟨hr, hk⟩), rfl⟩

/-- With distinct keys a row is the only one of its key. -/
theorem filter_key_eq_singleton (h : (rows.map key).Nodup) {a : α} (ha : a ∈ rows) :
    rows.filter (fun r => key r = key a) = [a] := by
  have hnd : (rows.filter fun r => key r = key a).Nodup := h.of_map.filter _
  have hall : ∀ r, r ∈ rows.filter (fun r => key r = key a) ↔ r = a := by
    intro r
    rw [List.mem_filter, decide_eq_true_eq]
    exact ⟨fun ⟨hr, hk⟩ => List.inj_on_of_nodup_map h hr ha hk, by rintro rfl; exact ⟨ha, rfl⟩⟩
  exact List.perm_singleton.mp
    ((List.perm_ext_iff_of_nodup hnd (List.nodup_singleton a)).mpr fun r => by simp [hall])

/-- With distinct keys there is at most one row of a key. -/
theorem length_filter_key_le_one (h : (rows.map key).Nodup) :
    (rows.filter fun r => key r = k).length ≤ 1 := by
  cases hf : rows.filter fun r => key r = k with
  | nil => simp
  | cons a l =>
    have hmem : a ∈ rows.filter fun r => key r = k := hf ▸ List.mem_cons_self
    rw [List.mem_filter, decide_eq_true_eq] at hmem
    rw [← hf, ← hmem.2, filter_key_eq_singleton h hmem.1]
    simp

theorem filter_modify_of_ne {k' : κ} (hf : ∀ r, key (f r) = key r) (hk : k' ≠ k) :
    (modify key k f rows).filter (fun r => key r = k') = rows.filter (fun r => key r = k') := by
  unfold modify
  induction rows with
  | nil => rfl
  | cons r rows ih =>
    rw [List.map_cons, List.filter_cons, List.filter_cons, ih]
    by_cases h : key r = k
    · simp [h, hf, hk.symm]
    · simp [h]

/-- The row with a key, when it is the only one. -/
theorem find?_of_filter_key {a : α} (h : rows.filter (fun r => key r = k) = [a]) :
    rows.find? (fun r => key r = k) = some a := by
  rw [← List.head?_filter, h]; rfl

/-- A total over the rows that have a key is the sum over the keys of the totals of
    each key's rows. -/
theorem sum_filter_isSome {M : Type*} [AddCommGroup M] (g : α → Option κ) (f : α → M)
    {ks : List κ} (hnd : ks.Nodup) (l : List α) (hks : ∀ a ∈ l, ∀ k, g a = some k → k ∈ ks) :
    ((l.filter fun a => (g a).isSome).map f).sum =
      (ks.map fun k => ((l.filter fun a => g a = some k).map f).sum).sum := by
  induction l with
  | nil => simp
  | cons a l ih =>
    have ih := ih fun b hb => hks b (List.mem_cons_of_mem _ hb)
    cases hg : g a with
    | none => simpa [hg] using ih
    | some k₀ =>
      have hone : ks.count k₀ = 1 := List.count_eq_one_of_mem hnd (hks a (by simp) k₀ hg)
      have hsplit : (ks.map fun k => (((a :: l).filter fun a => g a = some k).map f).sum) =
          ks.map fun k => (if k = k₀ then f a else 0) + ((l.filter fun a => g a = some k).map f).sum := by
        apply List.map_congr_left
        intro k _
        by_cases hk : k = k₀
        · simp [hg, hk]
        · simp [hg, hk, Ne.symm hk]
      rw [hsplit, List.sum_map_add, List.sum_map_ite_eq, hone, ← ih]
      simp [hg]

end Rows

/-! ## Reports -/

section Reports

/-- The value the last report for `k` carries. -/
def lastFor (rs : List (κ × β)) (k : κ) : Option β :=
  ((rs.filter fun r => r.1 = k).getLast?).map Prod.snd

variable {rs : List (κ × β)} {k : κ} {b : β}

@[simp] theorem lastFor_nil : lastFor ([] : List (κ × β)) k = none := rfl

theorem lastFor_append (r : κ × β) :
    lastFor (rs ++ [r]) k = if r.1 = k then some r.2 else lastFor rs k := by
  unfold lastFor
  rw [List.filter_append]
  by_cases h : r.1 = k <;> simp [h]

/-- Later reports come first. -/
theorem lastFor_append_list (rs' : List (κ × β)) :
    lastFor (rs ++ rs') k = (lastFor rs' k).or (lastFor rs k) := by
  unfold lastFor
  rw [List.filter_append, List.getLast?_append, Option.map_or]

theorem lastFor_eq_none : lastFor rs k = none ↔ k ∉ rs.map Prod.fst := by
  unfold lastFor
  rw [Option.map_eq_none_iff, List.getLast?_eq_none_iff, List.filter_eq_nil_iff]
  simp only [decide_eq_true_eq, List.mem_map, not_exists, not_and]

theorem mem_of_lastFor (h : lastFor rs k = some b) : (k, b) ∈ rs := by
  unfold lastFor at h
  obtain ⟨r, hr, rfl⟩ := Option.map_eq_some_iff.mp h
  have hmem := List.mem_of_getLast? hr
  rw [List.mem_filter, decide_eq_true_eq] at hmem
  rw [← hmem.2]; exact hmem.1

/-- With distinct keys the only report for a key is the last. -/
theorem lastFor_of_mem (hnd : (rs.map Prod.fst).Nodup) (h : (k, b) ∈ rs) : lastFor rs k = some b := by
  have := filter_key_eq_singleton hnd h
  unfold lastFor
  simp only [this]
  rfl

end Reports

/-! ## The entries of a partial function -/

section Entries

variable {ks : List κ} {g : κ → Option β}

/-- The keys that have a value, with it. -/
def entries (ks : List κ) (g : κ → Option β) : List (κ × β) := ks.filterMap fun k => (g k).map (k, ·)

omit [DecidableEq κ] in
theorem mem_entries {p : κ × β} : p ∈ entries ks g ↔ p.1 ∈ ks ∧ g p.1 = some p.2 := by
  unfold entries
  rw [List.mem_filterMap]
  constructor
  · rintro ⟨k, hk, hp⟩
    obtain ⟨b, hb, rfl⟩ := Option.map_eq_some_iff.mp hp
    exact ⟨hk, hb⟩
  · rintro ⟨hk, hp⟩
    exact ⟨p.1, hk, Option.map_eq_some_iff.mpr ⟨p.2, hp, rfl⟩⟩

theorem lookup_entries (ks : List κ) (g : κ → Option β) (k : κ) :
    (entries ks g).lookup k = if k ∈ ks then g k else none := by
  induction ks with
  | nil => rfl
  | cons a ks ih =>
    unfold entries at ih ⊢
    by_cases hka : k = a
    · subst hka
      cases hg : g k with
      | none =>
        rw [List.filterMap_cons_none (by rw [hg]; rfl), ih, hg]
        simp
      | some b =>
        rw [List.filterMap_cons_some (by rw [hg]; rfl), List.lookup_cons_self]
        simp
    · have hmem : k ∈ a :: ks ↔ k ∈ ks := by simp [hka]
      rw [if_congr hmem rfl rfl, ← ih]
      cases hg : g a with
      | none => rw [List.filterMap_cons_none (by rw [hg]; rfl)]
      | some b => rw [List.filterMap_cons_some (by rw [hg]; rfl), List.lookup_cons, beq_false_of_ne hka]

end Entries

end Nivara.Keyed
