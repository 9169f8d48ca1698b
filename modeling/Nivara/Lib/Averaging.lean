import Nivara.Lib.Blend
import Nivara.Lib.Keyed

/-!
# Averages of the scores there are

The weighted mean of scores of which any may be missing, over the weights of those that are there.

Results:

* `exists_le_average`, `exists_average_le`, `average_mono`: such a mean lies between two of the scores,
  and is monotone in them.
* `averaging_of_eq`: so is what a monotone function makes of it.
-/

namespace Nivara.Blend

variable {κ S K : Type*} [Field K]

/-- The weighted mean of the scores there are. -/
def average (w : κ → K) (val : S → K) (ks : List κ) (scores : κ → Option S) : K :=
  let scored := Keyed.entries ks scores
  blend (fun p => w p.1) (fun p => val p.2) scored / total (fun p => w p.1) scored

/-- A score is there. -/
def Available (scores : κ → Option S) : Prop := ∃ k s, scores k = some s

variable {w : κ → K} {val : S → K} {ks : List κ} {scores scores' : κ → Option S}

theorem entries_ne_nil (hks : ∀ k, k ∈ ks) (h : Available scores) : Keyed.entries ks scores ≠ [] := by
  obtain ⟨k, s, hs⟩ := h
  have hmem : (k, s) ∈ Keyed.entries ks scores := Keyed.mem_entries.mpr ⟨hks k, hs⟩
  exact List.ne_nil_of_mem hmem

/-- The mean with the weights divided by their total. -/
theorem average_eq (w : κ → K) (val : S → K) (ks : List κ) (scores : κ → Option S) :
    average w val ks scores =
      blend (renormalize (fun p => w p.1) (Keyed.entries ks scores)) (fun p => val p.2)
        (Keyed.entries ks scores) := by
  have hinv : renormalize (fun p : κ × S => w p.1) (Keyed.entries ks scores) =
      fun p => w p.1 * (total (fun p => w p.1) (Keyed.entries ks scores))⁻¹ :=
    funext fun p => div_eq_mul_inv _ _
  rw [hinv, blend_mul_right, ← div_eq_mul_inv]
  rfl

/-- Scores that are related key by key are so as entries. -/
theorem forall₂_entries {R : S → S → Prop} (h : ∀ k ∈ ks, Option.Rel R (scores k) (scores' k)) :
    List.Forall₂ (fun p p' => p.1 = p'.1 ∧ R p.2 p'.2) (Keyed.entries ks scores)
      (Keyed.entries ks scores') := by
  induction ks with
  | nil => exact .nil
  | cons k ks ih =>
    have htail := ih fun k hk => h k (List.mem_cons_of_mem _ hk)
    unfold Keyed.entries at htail ⊢
    cases hs : scores k with
    | none =>
      have hs' : scores' k = none := by
        have hrel := h k List.mem_cons_self
        rw [hs] at hrel
        cases hrel' : scores' k with
        | none => rfl
        | some s' => rw [hrel'] at hrel; cases hrel
      rw [List.filterMap_cons_none (by rw [hs]; rfl), List.filterMap_cons_none (by rw [hs']; rfl)]
      exact htail
    | some s =>
      obtain ⟨s', hs', hR⟩ : ∃ s', scores' k = some s' ∧ R s s' := by
        have hrel := h k List.mem_cons_self
        rw [hs] at hrel
        cases hrel' : scores' k with
        | none => rw [hrel'] at hrel; cases hrel
        | some s' => rw [hrel'] at hrel; cases hrel with | some hR => exact ⟨s', rfl, hR⟩
      rw [List.filterMap_cons_some (by rw [hs]; rfl), List.filterMap_cons_some (by rw [hs']; rfl)]
      exact .cons ⟨rfl, hR⟩ htail

variable [LinearOrder K] [IsStrictOrderedRing K]

section Bounds

variable (val) (hw : ∀ k, 0 < w k) (hks : ∀ k, k ∈ ks) (h : Available scores)

include hw hks h

theorem renormalized_entries :
    (∀ p ∈ Keyed.entries ks scores, 0 ≤ renormalize (fun p => w p.1) (Keyed.entries ks scores) p) ∧
      total (renormalize (fun p => w p.1) (Keyed.entries ks scores)) (Keyed.entries ks scores) = 1 := by
  have hpos : 0 < total (fun p : κ × S => w p.1) (Keyed.entries ks scores) :=
    total_pos (fun p _ => hw p.1) (entries_ne_nil hks h)
  exact ⟨fun p _ => renormalize_nonneg (fun q _ => (hw q.1).le) (hw p.1).le, total_renormalize hpos.ne'⟩

/-- Some score is at most the mean. -/
theorem exists_le_average : ∃ k s, scores k = some s ∧ val s ≤ average w val ks scores := by
  obtain ⟨hnonneg, htotal⟩ := renormalized_entries hw hks h
  obtain ⟨p, hp, -, hle⟩ := exists_le_blend (v := fun p => val p.2) hnonneg htotal
  exact ⟨p.1, p.2, (Keyed.mem_entries.mp hp).2, average_eq w val ks scores ▸ hle⟩

/-- Some score is at least the mean. -/
theorem exists_average_le : ∃ k s, scores k = some s ∧ average w val ks scores ≤ val s := by
  obtain ⟨hnonneg, htotal⟩ := renormalized_entries hw hks h
  obtain ⟨p, hp, -, hle⟩ := exists_blend_le (v := fun p => val p.2) hnonneg htotal
  exact ⟨p.1, p.2, (Keyed.mem_entries.mp hp).2, average_eq w val ks scores ▸ hle⟩

end Bounds

/-- Higher scores have a higher mean. -/
theorem average_mono (hw : ∀ k, 0 ≤ w k)
    (h : ∀ k ∈ ks, Option.Rel (fun s s' => val s ≤ val s') (scores k) (scores' k)) :
    average w val ks scores ≤ average w val ks scores' := by
  have hentries := forall₂_entries h
  have htotal : total (fun p => w p.1) (Keyed.entries ks scores) =
      total (fun p => w p.1) (Keyed.entries ks scores') := by
    unfold total
    congr 1
    exact List.forall₂_eq_eq_eq ▸ List.rel_map (fun p p' hp => congrArg w hp.1) hentries
  have hblend : blend (fun p => w p.1) (fun p => val p.2) (Keyed.entries ks scores) ≤
      blend (fun p => w p.1) (fun p => val p.2) (Keyed.entries ks scores') :=
    blend_le_blend (hentries.imp fun p p' hp => ⟨hw p.1, congrArg w hp.1, hp.2⟩)
  unfold average
  dsimp only
  rw [htotal]
  exact div_le_div_of_nonneg_right hblend (total_nonneg fun p _ => hw p.1)

/-! ## Overall scores -/

variable [LinearOrder S] [DecidableEq κ]

/-- An overall score of the scores that are there. `rnd` is the last rounding, and the scores of the
    components are `InRange`. -/
structure Averaging (InRange : S → Prop) (rnd : S → S) (overall : (κ → Option S) → Option S) : Prop where
  /-- It lies between the lowest and the highest of them. -/
  between : ∀ scores, (∀ k s, scores k = some s → InRange s) → Available scores →
    ∃ o, overall scores = some o ∧ (∃ k s, scores k = some s ∧ rnd s ≤ o) ∧
      ∃ k s, scores k = some s ∧ o ≤ rnd s
  /-- It is the score that all of them have. -/
  equal : ∀ scores v, InRange v → Available scores → (∀ k s, scores k = some s → s = v) →
    overall scores = some (rnd v)
  /-- A score that is raised does not lower it. -/
  raise : ∀ scores k s s', scores k = some s → s ≤ s' →
    ∃ o o', overall scores = some o ∧ overall (Function.update scores k (some s')) = some o' ∧ o ≤ o'

/-- What a monotone function makes of the mean. -/
theorem averaging_of_eq {InRange : S → Prop} {rnd : S → S} {overall : (κ → Option S) → Option S}
    {post : K → S} (hw : ∀ k, 0 < w k) (hks : ∀ k, k ∈ ks) (hval : Monotone val) (hpost : Monotone post)
    (hrnd : ∀ s, InRange s → post (val s) = rnd s)
    (h : ∀ scores, Available scores → overall scores = some (post (average w val ks scores))) :
    Averaging InRange rnd overall where
  between := by
    intro scores hrange havailable
    obtain ⟨k, s, hs, hle⟩ := exists_le_average val hw hks havailable
    obtain ⟨k', s', hs', hge⟩ := exists_average_le val hw hks havailable
    refine ⟨_, h scores havailable, ⟨k, s, hs, ?_⟩, k', s', hs', ?_⟩
    · exact hrnd s (hrange k s hs) ▸ hpost hle
    · exact hrnd s' (hrange k' s' hs') ▸ hpost hge
  equal := by
    intro scores v hv havailable heq
    obtain ⟨k, s, hs, hle⟩ := exists_le_average val hw hks havailable
    obtain ⟨k', s', hs', hge⟩ := exists_average_le val hw hks havailable
    rw [heq k s hs] at hle
    rw [heq k' s' hs'] at hge
    rw [h scores havailable, le_antisymm hge hle, hrnd v hv]
  raise := by
    intro scores k s s' hs hle
    refine ⟨_, _, h scores ⟨k, s, hs⟩, h _ ⟨k, s', Function.update_self ..⟩, hpost ?_⟩
    refine average_mono (fun k => (hw k).le) fun j _ => ?_
    by_cases hj : j = k
    · subst hj
      rw [hs, Function.update_self]
      exact .some (hval hle)
    · rw [Function.update_of_ne hj]
      cases scores j with
      | none => exact .none
      | some _ => exact .some le_rfl

end Nivara.Blend
