import Nivara.Lib.Keyed

/-!
# Dictionaries

A dictionary as a loop fills it: the entries in insertion order, their keys distinct. An
assignment overwrites the value of a key it knows in its place, and appends any other.

* `overwritten rs`: the writes that a later write of the same key replaces.

Results:

* `get_assign`, `get_ofWrites`: a dictionary holds the last write of each key.
* `assign_of_get`: the write of a value that is there changes nothing.
* `forall_get_ofWrites_iff`: when no write is lost.
* `sum_values_ofWrites`: the values are those of all writes, less the overwritten ones.
-/

namespace Nivara

open Keyed (lastFor)

/-- The entries of a dictionary. -/
@[ext]
structure Dict (κ β : Type*) where
  items : List (κ × β)
  nodup_keys : (items.map Prod.fst).Nodup
  deriving DecidableEq

namespace Dict

variable {κ β : Type*} [DecidableEq κ]

/-! ## Assignments -/

/-- `items` after `d[k] = v`. -/
def assignItems (k : κ) (v : β) : List (κ × β) → List (κ × β)
  | [] => [(k, v)]
  | e :: l => if e.1 = k then (k, v) :: l else e :: assignItems k v l

theorem map_fst_assignItems (k : κ) (v : β) (l : List (κ × β)) :
    (assignItems k v l).map Prod.fst =
      if k ∈ l.map Prod.fst then l.map Prod.fst else l.map Prod.fst ++ [k] := by
  induction l with
  | nil => rfl
  | cons e l ih =>
    unfold assignItems
    by_cases he : e.1 = k
    · simp [he]
    · rw [if_neg he, List.map_cons, ih]
      have hk : k ∈ (e :: l).map Prod.fst ↔ k ∈ l.map Prod.fst := by simp [Ne.symm he]
      by_cases hl : k ∈ l.map Prod.fst
      · rw [if_pos hl, if_pos (hk.mpr hl), List.map_cons]
      · rw [if_neg hl, if_neg (hk.not.mpr hl), List.map_cons, List.cons_append]

theorem nodup_assignItems (k : κ) (v : β) {l : List (κ × β)} (h : (l.map Prod.fst).Nodup) :
    ((assignItems k v l).map Prod.fst).Nodup := by
  rw [map_fst_assignItems]
  split_ifs with hk
  · exact h
  · exact List.nodup_append.mpr
      ⟨h, by simp, by rintro a ha b hb rfl; exact hk (List.mem_singleton.mp hb ▸ ha)⟩

/-- `{}`. -/
def empty : Dict κ β := ⟨[], List.nodup_nil⟩

/-- `d[k] = v`. -/
def assign (k : κ) (v : β) (d : Dict κ β) : Dict κ β :=
  ⟨assignItems k v d.items, nodup_assignItems k v d.nodup_keys⟩

/-- `d.get(k)`. -/
def get (d : Dict κ β) (k : κ) : Option β := (d.items.find? fun e => e.1 = k).map Prod.snd

/-- `d.values()`. -/
def values (d : Dict κ β) : List β := d.items.map Prod.snd

/-- The dictionary after the writes of a loop. -/
def ofWrites (rs : List (κ × β)) : Dict κ β := rs.foldl (fun d r => d.assign r.1 r.2) empty

/-- The writes whose key a later one writes. -/
def overwritten : List (κ × β) → List (κ × β)
  | [] => []
  | r :: rs => if r.1 ∈ rs.map Prod.fst then r :: overwritten rs else overwritten rs

example : ofWrites [("A", 1), ("B", 2), ("A", 3)] = ⟨[("A", 3), ("B", 2)], by decide⟩ := by decide

variable {d : Dict κ β} {k k' : κ} {v : β} {rs : List (κ × β)}

@[simp] theorem get_empty : (empty : Dict κ β).get k = none := rfl

theorem get_assign : (d.assign k v).get k' = if k = k' then some v else d.get k' := by
  unfold get assign
  dsimp only
  generalize d.items = l
  induction l with
  | nil => by_cases h : k = k' <;> simp [assignItems, h]
  | cons e l ih =>
    unfold assignItems
    by_cases he : e.1 = k
    · rw [if_pos he]
      by_cases h : k = k'
      · simp [h]
      · simp [h, he]
    · rw [if_neg he, List.find?_cons, List.find?_cons]
      by_cases hk : e.1 = k'
      · simp [hk, show k ≠ k' from fun h => he (hk.trans h.symm)]
      · simpa [hk] using ih

theorem mem_items_iff {e : κ × β} : e ∈ d.items ↔ d.get e.1 = some e.2 := by
  unfold get
  constructor
  · intro he
    have hfilter := Keyed.filter_key_eq_singleton d.nodup_keys he
    rw [Keyed.find?_of_filter_key hfilter, Option.map_some]
  · intro h
    obtain ⟨e', he', hsnd⟩ := Option.map_eq_some_iff.mp h
    have hfst : e'.1 = e.1 := by simpa using List.find?_some he'
    have heq : e' = e := Prod.ext hfst hsnd
    exact heq ▸ List.mem_of_find?_eq_some he'

theorem mem_values_of_get (h : d.get k = some v) : v ∈ d.values := by
  obtain ⟨e, he, rfl⟩ := Option.map_eq_some_iff.mp h
  exact List.mem_map_of_mem (List.mem_of_find?_eq_some he)

/-- A write of the value that the key has. -/
theorem assign_of_get (h : d.get k = some v) : d.assign k v = d := by
  apply Dict.ext
  unfold get at h
  unfold assign
  dsimp only
  generalize d.items = l at h
  induction l with
  | nil => cases h
  | cons e l ih =>
    unfold assignItems
    rw [List.find?_cons] at h
    by_cases he : e.1 = k
    · rw [if_pos he]
      have hv : e.2 = v := by simpa [he] using h
      rw [← he, ← hv]
    · rw [if_neg he, ih (by simpa [he] using h)]

/-- A comprehension over the entries that keeps the keys. -/
def mapValues (f : κ → β → β) (d : Dict κ β) : Dict κ β :=
  ⟨d.items.map fun e => (e.1, f e.1 e.2), by
    rw [List.map_map]
    exact d.nodup_keys⟩

theorem get_mapValues (f : κ → β → β) (d : Dict κ β) (k : κ) :
    (d.mapValues f).get k = (d.get k).map (f k) := by
  unfold get mapValues
  dsimp only
  induction d.items with
  | nil => rfl
  | cons e l ih =>
    rw [List.map_cons, List.find?_cons, List.find?_cons]
    by_cases he : e.1 = k
    · simp [he]
    · simpa [he] using ih

/-! ## Loops of assignments -/

@[simp] theorem ofWrites_nil : ofWrites ([] : List (κ × β)) = empty := rfl

theorem ofWrites_append_singleton (r : κ × β) : ofWrites (rs ++ [r]) = (ofWrites rs).assign r.1 r.2 := by
  unfold ofWrites
  rw [List.foldl_append]
  rfl

theorem ofWrites_append (rs' : List (κ × β)) :
    ofWrites (rs ++ rs') = rs'.foldl (fun d r => d.assign r.1 r.2) (ofWrites rs) := by
  unfold ofWrites
  rw [List.foldl_append]

/-- A dictionary holds the last write of each key. -/
theorem get_ofWrites : (ofWrites rs).get k = lastFor rs k := by
  induction rs using List.reverseRecOn with
  | nil => rfl
  | append_singleton rs r ih => rw [ofWrites_append_singleton, get_assign, Keyed.lastFor_append, ih]

/-- No write is lost exactly when the writes of one key agree. -/
theorem forall_get_ofWrites_iff :
    (∀ r ∈ rs, (ofWrites rs).get r.1 = some r.2) ↔ rs.Pairwise fun a b => a.1 = b.1 → a.2 = b.2 := by
  constructor
  · intro h
    refine List.Pairwise.imp_of_mem (R := fun _ _ => True) (fun {a b} ha hb _ hkey => ?_)
      (List.pairwise_of_forall fun _ _ => trivial)
    exact Option.some.inj ((h a ha).symm.trans ((congrArg _ hkey).trans (h b hb)))
  · intro h
    induction rs using List.reverseRecOn with
    | nil => simp
    | append_singleton rs r ih =>
      obtain ⟨hrs, -, hlast⟩ := List.pairwise_append.mp h
      intro a ha
      rw [ofWrites_append_singleton, get_assign]
      rcases List.mem_append.mp ha with ha | ha
      · by_cases hkey : r.1 = a.1
        · rw [if_pos hkey, hlast a ha r (List.mem_singleton_self r) hkey.symm]
        · rw [if_neg hkey, ih hrs a ha]
      · rw [List.mem_singleton.mp ha, if_pos rfl]

/-- What is overwritten does not depend on the values. -/
theorem overwritten_map {γ : Type*} (f : β → γ) (rs : List (κ × β)) :
    overwritten (rs.map fun r => (r.1, f r.2)) = (overwritten rs).map fun r => (r.1, f r.2) := by
  induction rs with
  | nil => rfl
  | cons r rs ih =>
    have hkeys : (rs.map fun r => (r.1, f r.2)).map Prod.fst = rs.map Prod.fst := by
      rw [List.map_map]
      rfl
    rw [List.map_cons, overwritten, overwritten, hkeys, ih]
    split_ifs
    · rw [List.map_cons]
    · rfl

/-- The second of two equal writes changes nothing, when none between them has their key. -/
theorem ofWrites_repeated {a b : List (κ × β)} (hb : k ∉ b.map Prod.fst) (c : List (κ × β)) :
    ofWrites (a ++ (k, v) :: b ++ (k, v) :: c) = ofWrites (a ++ (k, v) :: b ++ c) := by
  have hget : (ofWrites (a ++ (k, v) :: b)).get k = some v := by
    have hsplit : a ++ (k, v) :: b = (a ++ [(k, v)]) ++ b := by simp
    rw [get_ofWrites, hsplit, Keyed.lastFor_append_list, Keyed.lastFor_eq_none.mpr hb, Keyed.lastFor_append]
    simp
  rw [ofWrites_append, List.foldl_cons, assign_of_get hget, ← ofWrites_append]

section Sum

variable {M : Type*} [AddCommGroup M] {d : Dict κ M} {v : M} {rs : List (κ × M)}

theorem sum_values_assign : (d.assign k v).values.sum + (d.get k).getD 0 = d.values.sum + v := by
  unfold assign get values
  dsimp only
  generalize d.items = l
  induction l with
  | nil => simp [assignItems]
  | cons e l ih =>
    unfold assignItems
    by_cases he : e.1 = k
    · have hfound : (e :: l).find? (fun e => e.1 = k) = some e := List.find?_cons_of_pos (by simpa using he)
      rw [hfound, if_pos he, List.map_cons, List.map_cons, List.sum_cons, List.sum_cons, Option.map_some,
        Option.getD_some]
      abel
    · have hrest : (e :: l).find? (fun e => e.1 = k) = l.find? fun e => e.1 = k :=
        List.find?_cons_of_neg (by simpa using he)
      rw [hrest, if_neg he, List.map_cons, List.map_cons, List.sum_cons, List.sum_cons, add_assoc, ih,
        add_assoc]

theorem sum_overwritten_append (r : κ × M) :
    ((overwritten (rs ++ [r])).map Prod.snd).sum =
      ((overwritten rs).map Prod.snd).sum + (lastFor rs r.1).getD 0 := by
  induction rs with
  | nil => simp [overwritten]
  | cons e rs ih =>
    have hlast : lastFor (e :: rs) r.1 = (lastFor rs r.1).or (if e.1 = r.1 then some e.2 else none) := by
      have happend : lastFor ([] ++ [e] ++ rs) r.1 = (lastFor rs r.1).or (lastFor ([] ++ [e]) r.1) :=
        Keyed.lastFor_append_list rs
      rw [Keyed.lastFor_append, Keyed.lastFor_nil] at happend
      exact happend
    rw [List.cons_append, overwritten, overwritten, hlast]
    by_cases he : e.1 ∈ rs.map Prod.fst
    · have hsnoc : e.1 ∈ (rs ++ [r]).map Prod.fst := by
        rw [List.map_append]
        exact List.mem_append_left _ he
      rw [if_pos he, if_pos hsnoc, List.map_cons, List.map_cons, List.sum_cons, List.sum_cons, ih,
        add_assoc]
      by_cases hr : e.1 = r.1
      · rw [hr] at he
        obtain ⟨v, hv⟩ := Option.ne_none_iff_exists'.mp (mt Keyed.lastFor_eq_none.mp (not_not.mpr he))
        simp [hv]
      · simp [hr]
    · rw [if_neg he]
      by_cases hr : e.1 = r.1
      · have hnone : lastFor rs r.1 = none := Keyed.lastFor_eq_none.mpr (hr ▸ he)
        rw [hnone] at ih
        rw [if_pos (by simp [hr]), List.map_cons, List.sum_cons, ih, hnone]
        simp [hr, add_comm]
      · have hsnoc : e.1 ∉ (rs ++ [r]).map Prod.fst := by simpa [hr] using he
        rw [if_neg hsnoc, ih]
        simp [hr]

/-- The values of a dictionary: all that was written, less what was overwritten. -/
theorem sum_values_ofWrites :
    (ofWrites rs).values.sum + ((overwritten rs).map Prod.snd).sum = (rs.map Prod.snd).sum := by
  induction rs using List.reverseRecOn with
  | nil => simp [overwritten, values, empty]
  | append_singleton rs r ih =>
    have hassign := sum_values_assign (d := ofWrites rs) (k := r.1) (v := r.2)
    rw [get_ofWrites] at hassign
    rw [ofWrites_append_singleton, sum_overwritten_append, List.map_append, List.sum_append, ← ih]
    calc ((ofWrites rs).assign r.1 r.2).values.sum +
          (((overwritten rs).map Prod.snd).sum + (lastFor rs r.1).getD 0)
        = (((ofWrites rs).assign r.1 r.2).values.sum + (lastFor rs r.1).getD 0) +
            ((overwritten rs).map Prod.snd).sum := by abel
      _ = (ofWrites rs).values.sum + r.2 + ((overwritten rs).map Prod.snd).sum := by rw [hassign]
      _ = (ofWrites rs).values.sum + ((overwritten rs).map Prod.snd).sum + ([r].map Prod.snd).sum := by
        simp only [List.map_cons, List.map_nil, List.sum_cons, List.sum_nil]
        abel

end Sum

end Dict

end Nivara
