import Nivara.Lib.Transition

/-!
# Publications and subscribers

A log of publications, each on a topic, and subscribers that come, take what reaches
them and go. A `Feed` is a view of such a system: for each subscriber its topic, how long
the log was when it came, what it has received and what is on the way to it.

`Feed.Step` says what one step may do. A subscriber that loses something is marked.

Results:

* `Feed.Inv.step`: what a subscriber has received and what is on the way to it is made of
  the publications on its topic since it came, in their order; all of them, when it is
  subscribed and has lost nothing.
* `feed_of_run`: the same for whole runs of a transition system.
-/

namespace Nivara.PubSub

open Transition

variable {κ ι ν : Type*}

/-! ## The subscribers of each topic -/

abbrev Subscribers (κ ι : Type*) := κ → List ι

namespace Subscribers

variable [DecidableEq κ]

def add (k : κ) (i : ι) (s : Subscribers κ ι) : Subscribers κ ι := Function.update s k (i :: s k)

def remove [DecidableEq ι] (k : κ) (i : ι) (s : Subscribers κ ι) : Subscribers κ ι :=
  Function.update s k ((s k).erase i)

variable {s : Subscribers κ ι} {k k' : κ} {i j : ι}

theorem mem_add : j ∈ add k i s k' ↔ (j = i ∧ k' = k) ∨ j ∈ s k' := by
  by_cases hk : k' = k
  · rw [hk, add, Function.update_self, List.mem_cons]
    simp
  · rw [add, Function.update_of_ne hk]
    simp [hk]

theorem nodup_add (h : ∀ k, (s k).Nodup) (hi : i ∉ s k) (k' : κ) : (add k i s k').Nodup := by
  by_cases hk : k' = k
  · rw [hk, add, Function.update_self]
    exact (h k).cons hi
  · rw [add, Function.update_of_ne hk]
    exact h k'

variable [DecidableEq ι]

theorem mem_remove (h : ∀ k, (s k).Nodup) : j ∈ remove k i s k' ↔ j ∈ s k' ∧ ¬ (j = i ∧ k' = k) := by
  by_cases hk : k' = k
  · rw [hk, remove, Function.update_self, (h k).mem_erase_iff]
    simp [and_comm]
  · rw [remove, Function.update_of_ne hk]
    simp [hk]

theorem nodup_remove (h : ∀ k, (s k).Nodup) (k' : κ) : (remove k i s k').Nodup := by
  by_cases hk : k' = k
  · rw [hk, remove, Function.update_self]
    exact (h k).erase i
  · rw [remove, Function.update_of_ne hk]
    exact h k'

end Subscribers

/-! ## Feeds -/

structure Feed (κ ι ν : Type*) where
  /-- Every publication, the oldest first. -/
  published : List (κ × ν)
  /-- The topic of a subscriber, and the length of the log when it came. -/
  joined : ι → Option (κ × ℕ)
  /-- It is subscribed now. -/
  live : ι → Bool
  /-- Something on the way to it was lost. -/
  lossy : ι → Bool
  received : ι → List ν
  /-- What is on the way to it. -/
  backlog : ι → List ν

section

variable [DecidableEq κ]

/-- The publications on a topic. -/
def onTopic (k : κ) (l : List (κ × ν)) : List ν := (l.filter fun e => e.1 = k).map Prod.snd

/-- The publications on a topic after the first `n`. -/
def since (l : List (κ × ν)) (k : κ) (n : ℕ) : List ν := onTopic k (l.drop n)

@[simp] theorem onTopic_nil (k : κ) : onTopic k ([] : List (κ × ν)) = [] := rfl

@[simp] theorem onTopic_append (k : κ) (l l' : List (κ × ν)) :
    onTopic k (l ++ l') = onTopic k l ++ onTopic k l' := by
  simp [onTopic]

theorem onTopic_singleton_self (k : κ) (v : ν) : onTopic k [(k, v)] = [v] := by
  simp [onTopic]

theorem onTopic_singleton_of_ne {k k' : κ} (h : k' ≠ k) (v : ν) : onTopic k [(k', v)] = [] := by
  simp [onTopic, h]

theorem since_length (l : List (κ × ν)) (k : κ) : since l k l.length = [] := by
  simp [since]

theorem since_append {l : List (κ × ν)} {n : ℕ} (h : n ≤ l.length) (k : κ) (l' : List (κ × ν)) :
    since (l ++ l') k n = since l k n ++ onTopic k l' := by
  rw [since, List.drop_append_of_le_length h, onTopic_append]
  rfl

end

namespace Feed

variable (F F' : Feed κ ι ν)

/-- What a subscriber has received and is still to receive. -/
def account (i : ι) : List ν := F.received i ++ F.backlog i

variable [DecidableEq κ]

/-- What one step, in which `new` is published, does to a subscriber. -/
inductive Move (new : List (κ × ν)) (i : ι) : Prop
  | join (k : κ) (h : F'.joined i = some (k, F'.published.length)) (ha : F'.account i = [])
  /-- It is subscribed, and what is published on its topic comes its way. -/
  | stay (k : κ) (n : ℕ) (h : F.joined i = some (k, n)) (h' : F'.joined i = some (k, n))
      (hlive : F.live i = true) (hlossy : F'.lossy i = F.lossy i)
      (ha : F'.account i = F.account i ++ onTopic k new)
  /-- It is not subscribed, and what was on the way need not reach it. -/
  | off (h : F'.joined i = F.joined i) (hlive : F'.live i = false) (hlossy : F'.lossy i = F.lossy i)
      (ha : F'.account i <+: F.account i)
  | lose (k : κ) (n : ℕ) (h : F.joined i = some (k, n)) (h' : F'.joined i = some (k, n))
      (hlossy : F'.lossy i = true) (ha : (F'.account i).Sublist (F.account i ++ onTopic k new))

/-- Nothing happens to a subscriber. -/
theorem Move.keep {F F' : Feed κ ι ν} {i : ι} (hlive : F.live i = true → F.joined i ≠ none)
    (hj : F'.joined i = F.joined i) (hl : F'.live i = F.live i) (hlossy : F'.lossy i = F.lossy i)
    (ha : F'.account i = F.account i) : Move F F' [] i := by
  by_cases hon : F.live i = true
  · obtain ⟨⟨k, n⟩, hkn⟩ := Option.ne_none_iff_exists'.mp (hlive hon)
    refine .stay k n hkn (hj.trans hkn) hon hlossy ?_
    rw [ha, onTopic_nil, List.append_nil]
  · refine .off hj ?_ hlossy (ha ▸ List.prefix_refl _)
    rw [hl]
    exact Bool.eq_false_iff.mpr hon

/-- What one step may do. -/
structure Step (new : List (κ × ν)) : Prop where
  published : F'.published = F.published ++ new
  move : ∀ i, Move F F' new i

/-- A subscriber is given publications on its topic since it came, in their order, and misses
    none as long as nothing is lost. -/
structure Serves (i : ι) : Prop where
  absent : F.joined i = none → F.account i = []
  bound : ∀ k n, F.joined i = some (k, n) → n ≤ F.published.length
  ordered : ∀ k n, F.joined i = some (k, n) → (F.account i).Sublist (since F.published k n)
  initial : ∀ k n, F.joined i = some (k, n) → F.lossy i = false →
    F.account i <+: since F.published k n
  complete : ∀ k n, F.joined i = some (k, n) → F.lossy i = false → F.live i = true →
    F.account i = since F.published k n

def Inv : Prop := ∀ i, F.Serves i

variable {F F'} {new : List (κ × ν)} {i : ι}

/-- A subscriber that is not there. -/
theorem serves_of_none (hj : F.joined i = none) (ha : F.account i = []) : F.Serves i := by
  have hno : ∀ k n, F.joined i ≠ some (k, n) := by simp [hj]
  exact ⟨fun _ => ha, fun k n h => absurd h (hno k n), fun k n h => absurd h (hno k n),
    fun k n h => absurd h (hno k n), fun k n h => absurd h (hno k n)⟩

/-- One that is. -/
theorem serves_of_some {k : κ} {n : ℕ} (hj : F.joined i = some (k, n)) (hn : n ≤ F.published.length)
    (hs : (F.account i).Sublist (since F.published k n))
    (hp : F.lossy i = false → F.account i <+: since F.published k n)
    (hc : F.lossy i = false → F.live i = true → F.account i = since F.published k n) : F.Serves i := by
  have heq : ∀ k' n', F.joined i = some (k', n') → k = k' ∧ n = n' := by simp [hj]
  refine ⟨fun h => absurd (hj.symm.trans h) (Option.some_ne_none _), fun k' n' h => ?_, fun k' n' h => ?_,
    fun k' n' h => ?_, fun k' n' h => ?_⟩ <;> obtain ⟨rfl, rfl⟩ := heq k' n' h
  · exact hn
  · exact hs
  · exact hp
  · exact hc

/-- The log grows by what is published. -/
theorem Step.grow (hstep : F.Step F' new) {n : ℕ} (hn : n ≤ F.published.length) (k : κ) :
    n ≤ F'.published.length ∧ since F'.published k n = since F.published k n ++ onTopic k new := by
  rw [hstep.published, since_append hn, List.length_append]
  exact ⟨by omega, rfl⟩

theorem Inv.step (h : F.Inv) (hstep : F.Step F' new) : F'.Inv := by
  intro i
  cases hstep.move i with
  | join k h' ha =>
    refine serves_of_some h' le_rfl ?_ (fun _ => ?_) fun _ _ => ?_ <;> rw [ha, since_length]
  | stay k n hj h' hlive hlossy ha =>
    obtain ⟨hn, hgrow⟩ := hstep.grow ((h i).bound k n hj) k
    have hwhole : F'.lossy i = false → F'.account i = since F'.published k n := fun hl => by
      rw [ha, hgrow, (h i).complete k n hj (hlossy ▸ hl) hlive]
    refine serves_of_some h' hn ?_ (fun hl => hwhole hl ▸ List.prefix_refl _) fun hl _ => hwhole hl
    rw [ha, hgrow]
    exact ((h i).ordered k n hj).append_right _
  | off hj hlive hlossy ha =>
    rcases hjoined : F.joined i with _ | ⟨k, n⟩
    · rw [(h i).absent hjoined] at ha
      exact serves_of_none (hj.trans hjoined) (List.prefix_nil.mp ha)
    · obtain ⟨hn, hgrow⟩ := hstep.grow ((h i).bound k n hjoined) k
      refine serves_of_some (hj.trans hjoined) hn ?_ (fun hl => ?_) fun _ hl => ?_
      · rw [hgrow]
        exact (ha.sublist.trans ((h i).ordered k n hjoined)).trans (List.sublist_append_left ..)
      · rw [hgrow]
        exact (ha.trans ((h i).initial k n hjoined (hlossy ▸ hl))).trans (List.prefix_append ..)
      · rw [hlive] at hl
        cases hl
  | lose k n hj h' hlossy ha =>
    obtain ⟨hn, hgrow⟩ := hstep.grow ((h i).bound k n hj) k
    refine serves_of_some h' hn ?_ (fun hl => ?_) fun hl _ => ?_
    · rw [hgrow]
      exact ha.trans (((h i).ordered k n hj).append_right _)
    · rw [hlossy] at hl
      cases hl
    · rw [hlossy] at hl
      cases hl

end Feed

/-! ## Runs -/

/-- A transition system with a view as a feed, each of whose steps is one of the feed. -/
theorem feed_of_run [DecidableEq κ] {σ α : Type*} {step : σ → α → σ → Prop} {cond : σ → α → Prop}
    {view : σ → Feed κ ι ν} {I : σ → Prop} {s t : σ} (hrun : Run step cond s t) (hI : I s)
    (hfeed : (view s).Inv)
    (hstep : ∀ s a t, I s → cond s a → step s a t → I t ∧ ∃ new, (view s).Step (view t) new) :
    I t ∧ (view t).Inv := by
  apply hrun.invariant (I := fun s => I s ∧ (view s).Inv) ⟨hI, hfeed⟩
  intro s a t hs hc hst
  obtain ⟨ht, new, hnew⟩ := hstep s a t hs.1 hc hst
  exact ⟨ht, hs.2.step hnew⟩

end Nivara.PubSub
