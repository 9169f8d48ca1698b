import Nivara.Lib.Dict

/-!
# Sums by key

The dictionary that a loop fills with `d[k] = d.get(k, 0) + v`.

Results:

* `get_groupSums`: a key has the sum of its values.
* `sum_values_groupSums`: together they are the sum of all values.
* `perm_values_groupSums`: the values of the dictionary are the sums of the keys.
-/

namespace Nivara.GroupSums

variable {α κ M : Type*} [DecidableEq κ] [AddCommGroup M]

/-- `d[k] = d.get(k, 0) + v`. -/
def addTo (d : Dict κ M) (k : κ) (v : M) : Dict κ M := d.assign k ((d.get k).getD 0 + v)

/-- The dictionary after the loop. -/
def groupSums (key : α → κ) (val : α → M) (xs : List α) : Dict κ M :=
  xs.foldl (fun d x => addTo d (key x) (val x)) Dict.empty

/-- The sum of the values of a key. -/
def sumOf (key : α → κ) (val : α → M) (xs : List α) (k : κ) : M :=
  ((xs.filter fun x => key x = k).map val).sum

variable {key : α → κ} {val : α → M} {xs : List α}

theorem groupSums_append_singleton (xs : List α) (x : α) :
    groupSums key val (xs ++ [x]) = addTo (groupSums key val xs) (key x) (val x) := List.foldl_append

theorem sum_values_addTo (d : Dict κ M) (k : κ) (v : M) : (addTo d k v).values.sum = d.values.sum + v := by
  have h := Dict.sum_values_assign (d := d) (k := k) (v := (d.get k).getD 0 + v)
  rw [add_comm ((d.get k).getD 0) v, ← add_assoc, add_right_cancel_iff, add_comm v] at h
  exact h

theorem sumOf_append_singleton (xs : List α) (x : α) (k : κ) :
    sumOf key val (xs ++ [x]) k = sumOf key val xs k + if key x = k then val x else 0 := by
  unfold sumOf
  rw [List.filter_append, List.map_append, List.sum_append]
  by_cases hk : key x = k
  · rw [List.filter_cons_of_pos (by simpa using hk), if_pos hk]
    simp
  · rw [List.filter_cons_of_neg (by simpa using hk), if_neg hk]
    simp

theorem sumOf_of_notMem {k : κ} (h : k ∉ xs.map key) : sumOf key val xs k = 0 := by
  have hfilter : (xs.filter fun x => key x = k) = [] := by
    rw [List.filter_eq_nil_iff]
    intro x hx hk
    exact h (List.mem_map.mpr ⟨x, hx, of_decide_eq_true hk⟩)
  unfold sumOf
  rw [hfilter, List.map_nil, List.sum_nil]

/-- A key has the sum of its values. -/
theorem get_groupSums (xs : List α) (k : κ) :
    (groupSums key val xs).get k = if k ∈ xs.map key then some (sumOf key val xs k) else none := by
  induction xs using List.reverseRecOn generalizing k with
  | nil => rfl
  | append_singleton xs x ih =>
    rw [groupSums_append_singleton, addTo, Dict.get_assign, ih, ih, sumOf_append_singleton, List.map_append,
      List.map_singleton]
    by_cases hk : key x = k
    · subst hk
      rw [if_pos rfl, if_pos (List.mem_append_right _ List.mem_cons_self), if_pos rfl]
      split_ifs with hmem
      · rfl
      · rw [sumOf_of_notMem hmem]
        rfl
    · have hmem : k ∈ xs.map key ++ [key x] ↔ k ∈ xs.map key := by simp [Ne.symm hk]
      rw [if_neg hk, if_neg hk, add_zero]
      exact (if_congr hmem rfl rfl).symm

theorem sum_values_groupSums (xs : List α) : (groupSums key val xs).values.sum = (xs.map val).sum := by
  induction xs using List.reverseRecOn with
  | nil => rfl
  | append_singleton xs x ih =>
    rw [groupSums_append_singleton, sum_values_addTo, ih, List.map_append, List.sum_append,
      List.map_singleton, List.sum_singleton]

/-- The entries are the sums of the keys that occur. -/
theorem mem_items_groupSums {k : κ} {v : M} :
    (k, v) ∈ (groupSums key val xs).items ↔ k ∈ xs.map key ∧ v = sumOf key val xs k := by
  rw [Dict.mem_items_iff, get_groupSums]
  split_ifs with hmem
  · rw [Option.some.injEq, eq_comm, and_iff_right hmem]
  · constructor
    · intro h
      cases h
    · exact fun h => absurd h.1 hmem

/-- What holds of 0 holds of the values when it holds of the sum of every key. -/
theorem forall_values_groupSums {P : M → Prop} (h0 : P 0) :
    (∀ v ∈ (groupSums key val xs).values, P v) ↔ ∀ k, P (sumOf key val xs k) := by
  constructor
  · intro h k
    by_cases hk : k ∈ xs.map key
    · exact h _ (List.mem_map.mpr ⟨_, mem_items_groupSums.mpr ⟨hk, rfl⟩, rfl⟩)
    · exact by rwa [sumOf_of_notMem hk]
  · intro h v hv
    obtain ⟨⟨k, v⟩, he, rfl⟩ := List.mem_map.mp hv
    exact (mem_items_groupSums.mp he).2 ▸ h k

/-- The values are the sums of the keys. -/
theorem perm_values_groupSums (xs : List α) :
    (groupSums key val xs).values.Perm ((xs.map key).dedup.map (sumOf key val xs)) := by
  have hitems :
      (groupSums key val xs).items.Perm ((xs.map key).dedup.map fun k => (k, sumOf key val xs k)) := by
    refine (List.perm_ext_iff_of_nodup ?_ ?_).mpr ?_
    · exact (groupSums key val xs).nodup_keys.of_map
    · exact (List.nodup_dedup _).map fun k k' h => congrArg Prod.fst h
    · rintro ⟨k, v⟩
      refine mem_items_groupSums.trans ⟨?_, fun h => ?_⟩
      · rintro ⟨hk, rfl⟩
        exact List.mem_map.mpr ⟨k, List.mem_dedup.mpr hk, rfl⟩
      · obtain ⟨k', hk', heq⟩ := List.mem_map.mp h
        cases heq
        exact ⟨List.mem_dedup.mp hk', rfl⟩
  have hvalues := hitems.map Prod.snd
  rw [List.map_map] at hvalues
  exact hvalues

end Nivara.GroupSums
