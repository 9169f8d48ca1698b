import Nivara.Lib.AsOf

/-!
# Frames over one index

Series of dated values as the columns of a frame over a common index, the gaps filled with the value
before them.

Results:

* `forwardFill_eq`: a filled column has at each time the newest value up to then.
* `valueAt_mem`, `valueAt_last`: that is a value of the series, and from its last time on the last one.
* `transpose_map`: the rows of columns that are functions over the index.
-/

namespace Nivara.Frames

open AsOf (Distinct distinct_of_sorted latest latest_eq_some_iff latest_spec)

/-! ## Columns -/

section Index

variable {T K : Type*} [LinearOrder T] {s : List (T × K)} {ts : List T} {t : T}

/-- The value of a series at the last of its times that is not after `t`. -/
def valueAt (s : List (T × K)) (t : T) : Option K :=
  (latest Prod.fst (s.filter fun e => e.1 ≤ t)).map Prod.snd

/-- The value at a time is that of the series then, or what is carried from before. -/
theorem valueAt_step (hdistinct : Distinct Prod.fst s) (before : T → Prop) [DecidablePred before]
    (hbefore : ∀ e ∈ s, e.1 ≤ t ↔ e.1 = t ∨ before e.1) :
    valueAt s t = ((s.find? fun e => e.1 = t).map Prod.snd).or
      ((latest Prod.fst (s.filter fun e => before e.1)).map Prod.snd) := by
  unfold valueAt
  cases hfind : s.find? fun e => e.1 = t with
  | none =>
    have hne : ∀ e ∈ s, e.1 ≠ t := by simpa using List.find?_eq_none.mp hfind
    have hfilter : (s.filter fun e => e.1 ≤ t) = s.filter fun e => before e.1 := by
      refine List.filter_congr fun e he => decide_eq_decide.mpr ?_
      rw [hbefore e he, or_iff_right (hne e he)]
    rw [hfilter]
    rfl
  | some e =>
    have he := List.mem_of_find?_eq_some hfind
    have ht : e.1 = t := by simpa using List.find?_some hfind
    have hsub : Distinct Prod.fst (s.filter fun e => e.1 ≤ t) := fun r hr r' hr' =>
      hdistinct r (List.mem_of_mem_filter hr) r' (List.mem_of_mem_filter hr')
    have hlatest : latest Prod.fst (s.filter fun e => e.1 ≤ t) = some e := by
      rw [latest_eq_some_iff hsub]
      refine ⟨List.mem_filter.mpr ⟨he, by simp [ht]⟩, fun r hr => ?_⟩
      have hle : r.1 ≤ t := by simpa using (List.mem_filter.mp hr).2
      exact ht ▸ hle
    rw [hlatest]
    rfl

/-- Values carried forward along an index. -/
theorem tail_scanl_or (hdistinct : Distinct Prod.fst s) (hts : ts.Pairwise (· < ·))
    (hcover : ∀ e ∈ s, e.1 ∈ ts ∨ ∀ t ∈ ts, e.1 < t) :
    ((ts.map fun t => (s.find? fun e => e.1 = t).map Prod.snd).scanl (fun carried x => x.or carried)
      ((latest Prod.fst (s.filter fun e => ∀ t ∈ ts, e.1 < t)).map Prod.snd)).tail =
        ts.map (valueAt s) := by
  induction ts with
  | nil => rfl
  | cons t ts ih =>
    obtain ⟨hlt, hts⟩ := List.pairwise_cons.mp hts
    have hsplit : ∀ e ∈ s, e.1 ≤ t ↔ ∀ u ∈ ts, e.1 < u := by
      intro e he
      refine ⟨fun hle u hu => hle.trans_lt (hlt u hu), fun hall => ?_⟩
      rcases hcover e he with hmem | hbefore
      · rcases List.mem_cons.mp hmem with rfl | hmem
        · exact le_rfl
        · exact absurd (hall _ hmem) (lt_irrefl _)
      · exact (hbefore t List.mem_cons_self).le
    have hcover' : ∀ e ∈ s, e.1 ∈ ts ∨ ∀ u ∈ ts, e.1 < u := by
      intro e he
      rcases hcover e he with hmem | hbefore
      · rcases List.mem_cons.mp hmem with rfl | hmem
        · exact .inr hlt
        · exact .inl hmem
      · exact .inr fun u hu => hbefore u (List.mem_cons_of_mem _ hu)
    have hstep : valueAt s t = ((s.find? fun e => e.1 = t).map Prod.snd).or
        ((latest Prod.fst (s.filter fun e => ∀ u ∈ t :: ts, e.1 < u)).map Prod.snd) := by
      refine valueAt_step hdistinct (fun v => ∀ u ∈ t :: ts, v < u) fun e he => ?_
      rw [List.forall_mem_cons, ← hsplit e he]
      exact ⟨fun hle => hle.eq_or_lt.imp_right fun h => ⟨h, hle⟩, fun h => h.elim Eq.le And.right⟩
    have hcarried : (s.filter fun e => e.1 ≤ t) = s.filter fun e => ∀ u ∈ ts, e.1 < u :=
      List.filter_congr fun e he => decide_eq_decide.mpr (hsplit e he)
    have hnext : valueAt s t = (latest Prod.fst (s.filter fun e => ∀ u ∈ ts, e.1 < u)).map Prod.snd := by
      rw [← hcarried]
      rfl
    rw [List.map_cons, List.scanl_cons, List.tail_cons, ← hstep, List.map_cons]
    have htail := ih hts hcover'
    rw [← hnext] at htail
    rw [← htail]
    cases ts with
    | nil => rfl
    | cons u ts => rw [List.map_cons, List.scanl_cons, List.tail_cons]

/-- The values of an index that has all times of the series. -/
theorem forwardFill_eq (hdistinct : Distinct Prod.fst s) (hts : ts.Pairwise (· < ·))
    (hmem : ∀ e ∈ s, e.1 ∈ ts) :
    ((ts.map fun t => (s.find? fun e => e.1 = t).map Prod.snd).scanl (fun carried x => x.or carried)
      none).tail =
      ts.map (valueAt s) := by
  have hnone : (s.filter fun e => ∀ t ∈ ts, e.1 < t) = [] := by
    rw [List.filter_eq_nil_iff]
    intro e he hall
    have hlt := of_decide_eq_true hall e.1 (hmem e he)
    exact lt_irrefl _ hlt
  have hfill := tail_scanl_or hdistinct hts fun e he => .inl (hmem e he)
  rw [hnone] at hfill
  exact hfill

/-- A value is one of the series. -/
theorem valueAt_mem {x : K} (h : valueAt s t = some x) : x ∈ s.map Prod.snd := by
  obtain ⟨e, he, rfl⟩ := Option.map_eq_some_iff.mp h
  exact List.mem_map_of_mem (List.mem_of_mem_filter (latest_spec he).1)

theorem le_getLast (hts : ts.Pairwise (· < ·)) (hne : ts ≠ []) : ∀ t ∈ ts, t ≤ ts.getLast hne := by
  intro t ht
  rw [← List.dropLast_append_getLast hne] at ht hts
  rcases List.mem_append.mp ht with hmem | hmem
  · exact ((List.pairwise_append.mp hts).2.2 t hmem _ List.mem_cons_self).le
  · exact (List.mem_singleton.mp hmem).le

/-- From the last time of a series on, it has its last value. -/
theorem valueAt_last (hs : s.Pairwise (·.1 < ·.1)) (hne : s ≠ []) (hle : ∀ e ∈ s, e.1 ≤ t) :
    valueAt s t = some (s.getLast hne).2 := by
  have hdistinct : Distinct Prod.fst s := distinct_of_sorted hs
  have hfilter : (s.filter fun e => e.1 ≤ t) = s := List.filter_eq_self.mpr fun e he =>
    decide_eq_true (hle e he)
  have hlast : latest Prod.fst s = some (s.getLast hne) := by
    rw [latest_eq_some_iff hdistinct]
    refine ⟨List.getLast_mem hne, fun e he => ?_⟩
    have htime := le_getLast (List.pairwise_map.mpr hs) (by simpa using hne) e.1 (List.mem_map_of_mem he)
    rwa [List.getLast_map] at htime
  unfold valueAt
  rw [hfilter, hlast]
  rfl

end Index

/-! ## Rows -/

section Rows

variable {α ι σ : Type*}

theorem run_mapM_pop (c : List α) (rows : List (List α)) (h : rows.length = c.length) :
    (rows.mapM List.transpose.pop : StateM (List α) (List (List α))) c =
      (List.zipWith List.cons c rows, []) := by
  induction rows generalizing c with
  | nil =>
    cases c with
    | nil => rfl
    | cons _ _ => cases h
  | cons row rows ih =>
    cases c with
    | nil => cases h
    | cons a c =>
      have hrest := ih c (Nat.succ.inj h)
      rw [List.mapM_cons]
      change ((fun p : List (List α) × List α => ((a :: row) :: p.1, p.2))
        ((rows.mapM List.transpose.pop : StateM (List α) (List (List α))) c)) = _
      rw [hrest]
      rfl

theorem toList_foldl_push (c : List α) (acc : Array (List α)) :
    (c.foldl (fun arr a => arr.push [a]) acc).toList = acc.toList ++ c.map fun a => [a] := by
  induction c generalizing acc with
  | nil => simp
  | cons a c ih =>
    rw [List.foldl_cons, ih, Array.toList_push, List.append_assoc, List.map_cons, List.singleton_append]

/-- A column in front of rows, one for each of its values. -/
theorem toList_transpose_go {c : List α} {acc : Array (List α)} (h : acc.toList.length = c.length) :
    (List.transpose.go c acc).toList = List.zipWith List.cons c acc.toList := by
  have hrun : (acc.mapM List.transpose.pop : StateM (List α) (Array (List α))) c =
      ((List.zipWith List.cons c acc.toList).toArray, []) := by
    rw [Array.mapM_eq_mapM_toList]
    change Prod.map List.toArray id
      ((acc.toList.mapM List.transpose.pop : StateM (List α) (List (List α))) c) = _
    rw [run_mapM_pop c acc.toList h]
    rfl
  unfold List.transpose.go
  rw [hrun]
  rfl

theorem transpose_cons {c : List α} {cs : List (List α)} (h : (List.transpose cs).length = c.length) :
    List.transpose (c :: cs) = List.zipWith List.cons c (List.transpose cs) :=
  toList_transpose_go h

theorem transpose_singleton (c : List α) : List.transpose [c] = c.map fun a => [a] := by
  have hrun : ((#[] : Array (List α)).mapM List.transpose.pop : StateM (List α) (Array (List α))) c =
      (#[], c) := by
    rw [Array.mapM_empty]
    rfl
  change (List.transpose.go c #[]).toList = _
  unfold List.transpose.go
  rw [hrun]
  exact (toList_foldl_push c #[]).trans (List.nil_append _)

/-- The rows of columns over one index. -/
theorem transpose_map (f : σ → ι → α) (index : List ι) {ss : List σ} (hss : ss ≠ []) :
    List.transpose (ss.map fun s => index.map (f s)) = index.map fun t => ss.map fun s => f s t := by
  induction ss with
  | nil => exact absurd rfl hss
  | cons s ss ih =>
    by_cases hnil : ss = []
    · subst hnil
      rw [List.map_singleton, transpose_singleton, List.map_map]
      rfl
    · rw [List.map_cons, transpose_cons (by rw [ih hnil, List.length_map, List.length_map]), ih hnil,
        List.zipWith_map, List.zipWith_self]
      rfl

end Rows

end Nivara.Frames
