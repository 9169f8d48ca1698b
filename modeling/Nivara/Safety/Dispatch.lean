import Nivara.Safety.Pagination

/-!
# Pushes of a risk-guardian run

`run_risk_guardian_once` and `run_all` (`safety/risk_guardian.py`, lines 361–441) with the dispatcher
(`notifications/base.py`) and its one channel (`notifications/push.py`): the pushes go out inside the
transaction that stores their notifications, and the commit is the last step. No live alert is
published by a run.

* A statement on the database returns, raises, or the run stops at it: its task is cancelled or its
  process ends. Behind a statement that raised the transaction is lost: no other succeeds in it, and
  its commit stores nothing.
* A push is delivered or not, whatever the answer of Expo that the channel sees.

Results:

* `loop_spec`: what the dispatch loop leaves of the transaction, and whether it pushes anything.
* `pushesDurable_iff`: when every push is about a notification that is stored.
* `failedCommit_pushes`: a push before a commit that fails.
-/

namespace Nivara.Safety

/-! ## Model -/

/-- What becomes of a statement. -/
inductive Statement (α : Type)
  | returns (value : α)
  | raises
  | stops
  deriving DecidableEq

/-- What the channel makes of the answer to its POST: success, anything else that it or the
    dispatcher catches, or the run stops while it waits. -/
inductive Answer
  | accepted
  | refused
  | stops
  deriving DecidableEq

/-- What happens to the dispatch of one notification. -/
structure DispatchFate where
  /-- `_active_tokens`, with the flush before it -/
  tokens : Statement (List String)
  delivered : Bool
  answer : Answer
  now : ℤ

/-- What a run meets. -/
structure RunWorld where
  volatility : Statement (List AlertEvent)
  earnings : Statement (List AlertEvent)
  macroAlerts : Statement (List AlertEvent)
  now : ℤ
  newId : ℕ → UUID
  insert : Statement Unit
  /-- by the position of the notification -/
  dispatch : ℕ → DispatchFate
  /-- the last flush and `COMMIT` take effect -/
  commits : Bool

/-- A run in its dispatch loop. -/
structure Dispatching where
  rows : List Notification
  pushes : List UUID
  lost : Bool
  stopped : Bool

/-- `AlertDispatcher.dispatch` with `ExpoPushChannel.send`. -/
def Dispatching.dispatch (s : Dispatching) (n : Notification) (f : DispatchFate) : Dispatching :=
  if s.stopped then s
  -- the statement raises, which the dispatcher catches
  else if s.lost then { s with rows := s.rows ++ [n] }
  else
    match f.tokens with
    | .stops => { s with stopped := true }
    | .raises => { s with rows := s.rows ++ [n], lost := true }
    | .returns [] => { s with rows := s.rows ++ [n] }
    | .returns (_ :: _) =>
      let s := { s with pushes := if f.delivered then s.pushes ++ [n.id] else s.pushes }
      match f.answer with
      | .accepted => { s with rows := s.rows ++ [{ n with sentAt := some (n.sentAt.getD f.now) }] }
      | .refused => { s with rows := s.rows ++ [n] }
      | .stops => { s with stopped := true }

/-- What a run leaves behind: the pushes that were delivered and the rows that are committed. -/
structure RunOutcome where
  pushes : List UUID
  notifications : List Notification
  deriving DecidableEq

/-- `persist_alerts` with its flush, of what the detectors find. -/
def RunWorld.persisted (w : RunWorld) : Option (List Notification) :=
  match w.volatility, w.earnings, w.macroAlerts with
  | .returns volatility, .returns earnings, .returns macroAlerts =>
    let rows := persistAlerts w.now w.newId (volatility ++ earnings ++ macroAlerts)
    if rows ≠ [] ∧ w.insert ≠ .returns () then none else some rows
  | _, _, _ => none

/-- The loop of `run_all`. -/
def RunWorld.loop (w : RunWorld) (rows : List Notification) : Dispatching :=
  rows.zipIdx.foldl (fun s p => s.dispatch p.1 (w.dispatch p.2)) ⟨[], [], false, false⟩

/-- `run_risk_guardian_once`. -/
def runRiskGuardianOnce (w : RunWorld) : RunOutcome :=
  match w.persisted with
  | none => ⟨[], []⟩
  | some rows =>
    let s := w.loop rows
    ⟨s.pushes, if s.stopped ∨ s.lost ∨ !w.commits then [] else s.rows⟩

/-- Every push is about a notification that is stored. -/
def PushesDurable (w : RunWorld) : Prop :=
  ∀ id ∈ (runRiskGuardianOnce w).pushes, ∃ n ∈ (runRiskGuardianOnce w).notifications, n.id = id

/-! ## The dispatch loop -/

/-- The statement returns and the run does not stop. -/
def DispatchFate.Survives (f : DispatchFate) : Prop :=
  f.tokens = .returns [] ∨ ∃ token tokens, f.tokens = .returns (token :: tokens) ∧ f.answer ≠ .stops

/-- There is a device, and the push is delivered to it. -/
def DispatchFate.Delivers (f : DispatchFate) : Prop :=
  (∃ token tokens, f.tokens = .returns (token :: tokens)) ∧ f.delivered = true

/-- Some push is delivered: all dispatches before it survive. -/
def SomePush : List DispatchFate → Prop
  | [] => False
  | f :: fates => f.Delivers ∨ f.Survives ∧ SomePush fates

variable {s t : Dispatching} {n : Notification} {f : DispatchFate}

/-- A loop that has not stopped, in a transaction that is not lost. -/
def Dispatching.Intact (s : Dispatching) : Prop := s.stopped = false ∧ s.lost = false

/-- What one dispatch does to an intact loop. -/
structure Dispatched (s t : Dispatching) (n : Notification) (f : DispatchFate) : Prop where
  intact : t.Intact ↔ f.Survives
  pushes : t.pushes = s.pushes ∧ ¬f.Delivers ∨ t.pushes = s.pushes ++ [n.id] ∧ f.Delivers
  rows : t.Intact → t.rows.map Notification.id = s.rows.map Notification.id ++ [n.id]

theorem dispatch_spec (h : s.Intact) : Dispatched s (s.dispatch n f) n f := by
  obtain ⟨hstopped, hlost⟩ := h
  obtain ⟨tokens, delivered, answer, now⟩ := f
  unfold Dispatching.dispatch
  simp only [hstopped, hlost, Bool.false_eq_true, if_false]
  cases tokens with
  | stops => constructor <;> simp [Dispatching.Intact, DispatchFate.Survives, DispatchFate.Delivers]
  | raises => constructor <;> simp [Dispatching.Intact, DispatchFate.Survives, DispatchFate.Delivers]
  | returns tokens =>
    cases tokens with
    | nil => constructor <;> simp [Dispatching.Intact, DispatchFate.Survives, DispatchFate.Delivers, *]
    | cons token tokens =>
      cases answer <;> cases delivered <;> constructor <;>
        simp [Dispatching.Intact, DispatchFate.Survives, DispatchFate.Delivers, *]

/-- It pushes the notification or nothing. -/
theorem Dispatched.ids {id : UUID} (h : Dispatched s t n f) (hid : id ∈ t.pushes) : id ∈ s.pushes ∨ id = n.id := by
  obtain ⟨hpushes, -⟩ | ⟨hpushes, -⟩ := h.pushes
  · exact .inl (hpushes ▸ hid)
  · rwa [hpushes, List.mem_append, List.mem_singleton] at hid

theorem Dispatched.extends_pushes (h : Dispatched s t n f) : s.pushes.length ≤ t.pushes.length := by
  obtain ⟨hpushes, -⟩ | ⟨hpushes, -⟩ := h.pushes <;> simp [hpushes]

/-- Behind a statement that raised, or a stop, nothing is pushed any more. -/
theorem dispatch_of_not_intact (h : ¬s.Intact) :
    ¬(s.dispatch n f).Intact ∧ (s.dispatch n f).pushes = s.pushes := by
  unfold Dispatching.Intact at h
  unfold Dispatching.dispatch
  by_cases hstopped : s.stopped = true
  · rw [if_pos hstopped]
    exact ⟨h, rfl⟩
  · have hlost : s.lost = true := by
      by_contra hlost
      exact h ⟨Bool.eq_false_of_not_eq_true hstopped, Bool.eq_false_of_not_eq_true hlost⟩
    rw [if_neg hstopped, if_pos hlost]
    exact ⟨h, rfl⟩

/-- The loop over notifications and what happens to them. -/
def Dispatching.dispatchAll (s : Dispatching) (l : List (Notification × DispatchFate)) : Dispatching :=
  l.foldl (fun s p => s.dispatch p.1 p.2) s

theorem dispatchAll_of_not_intact {l : List (Notification × DispatchFate)} (h : ¬s.Intact) :
    ¬(s.dispatchAll l).Intact ∧ (s.dispatchAll l).pushes = s.pushes := by
  induction l generalizing s with
  | nil => exact ⟨h, rfl⟩
  | cons p l ih =>
    obtain ⟨hstep, hpushes⟩ := dispatch_of_not_intact (n := p.1) (f := p.2) h
    obtain ⟨hrest, hrestPushes⟩ := ih hstep
    exact ⟨hrest, hrestPushes.trans hpushes⟩

/-- What the loop leaves of an intact transaction, and what it pushes. -/
structure LoopSpec (s t : Dispatching) (l : List (Notification × DispatchFate)) : Prop where
  intact : t.Intact ↔ ∀ p ∈ l, p.2.Survives
  pushes : t.pushes = s.pushes ↔ ¬SomePush (l.map Prod.snd)
  ids : ∀ id ∈ t.pushes, id ∈ s.pushes ∨ id ∈ l.map fun p => p.1.id
  rows : t.Intact → t.rows.map Notification.id = s.rows.map Notification.id ++ l.map fun p => p.1.id
  extends_pushes : s.pushes.length ≤ t.pushes.length

theorem loop_spec {l : List (Notification × DispatchFate)} (h : s.Intact) :
    LoopSpec s (s.dispatchAll l) l := by
  induction l generalizing s with
  | nil => exact ⟨by simp [Dispatching.dispatchAll, h], by simp [Dispatching.dispatchAll, SomePush],
      fun id hid => .inl hid, fun _ => by simp [Dispatching.dispatchAll], le_rfl⟩
  | cons p l ih =>
    have hstep := dispatch_spec (n := p.1) (f := p.2) h
    have hsome : SomePush ((p :: l).map Prod.snd) ↔
        p.2.Delivers ∨ p.2.Survives ∧ SomePush (l.map Prod.snd) := Iff.rfl
    show LoopSpec s ((s.dispatch p.1 p.2).dispatchAll l) (p :: l)
    by_cases hsurvives : p.2.Survives
    · have hintact := hstep.intact.mpr hsurvives
      have hrest := ih hintact
      refine ⟨?_, ?_, fun id hid => ?_, fun ht => ?_, ?_⟩
      · rw [hrest.intact, List.forall_mem_cons]
        simp [hsurvives]
      · rw [hsome]
        obtain ⟨hpushes, hdelivers⟩ | ⟨hpushes, hdelivers⟩ := hstep.pushes
        · rw [← hpushes, hrest.pushes]
          simp [hdelivers, hsurvives]
        · have hlength := hrest.extends_pushes
          refine iff_of_false (fun heq => ?_) (not_not.mpr (.inl hdelivers))
          rw [heq, hpushes, List.length_append, List.length_singleton] at hlength
          omega
      · obtain hid | hid := hrest.ids id hid
        · exact (hstep.ids hid).imp_right fun heq => by simp [heq]
        · exact .inr (List.mem_cons_of_mem _ hid)
      · rw [hrest.rows ht, hstep.rows hintact]
        simp
      · exact hstep.extends_pushes.trans hrest.extends_pushes
    · have hlost := mt hstep.intact.mp hsurvives
      obtain ⟨hrest, hpushesRest⟩ := dispatchAll_of_not_intact (l := l) hlost
      refine ⟨iff_of_false hrest fun hall => hsurvives (hall p (by simp)), ?_, fun id hid => ?_,
        fun ht => absurd ht hrest, ?_⟩
      · rw [hsome, hpushesRest]
        obtain ⟨hpushes, hdelivers⟩ | ⟨hpushes, hdelivers⟩ := hstep.pushes
        · simp [hpushes, hdelivers, hsurvives]
        · simp [hpushes, hdelivers]
      · rw [hpushesRest] at hid
        exact (hstep.ids hid).imp_right fun heq => by simp [heq]
      · rw [hpushesRest]
        exact hstep.extends_pushes

/-! ## Main result -/

/-- What happens to the dispatches of a run that gets to them. -/
def RunWorld.fates (w : RunWorld) (rows : List Notification) : List DispatchFate :=
  rows.zipIdx.map fun p => w.dispatch p.2

/-- Every push of a run is about a stored notification exactly when the run stores nothing to push
    about, or delivers no push, or survives all its dispatches and commits. -/
theorem pushesDurable_iff (w : RunWorld) :
    PushesDurable w ↔
      ∀ rows, w.persisted = some rows →
        ¬SomePush (w.fates rows) ∨ (∀ f ∈ w.fates rows, f.Survives) ∧ w.commits = true := by
  unfold PushesDurable runRiskGuardianOnce
  cases hpersisted : w.persisted with
  | none => simp
  | some rows =>
    have hloop := loop_spec (s := ⟨[], [], false, false⟩)
      (l := rows.zipIdx.map fun p => (p.1, w.dispatch p.2)) ⟨rfl, rfl⟩
    have heq : Dispatching.dispatchAll ⟨[], [], false, false⟩
        (rows.zipIdx.map fun p => (p.1, w.dispatch p.2)) = w.loop rows := List.foldl_map ..
    have hfates : ((rows.zipIdx.map fun p => (p.1, w.dispatch p.2)).map Prod.snd) = w.fates rows :=
      List.map_map ..
    have hids : ((rows.zipIdx.map fun p => (p.1, w.dispatch p.2)).map fun p => p.1.id) =
        rows.zipIdx.map fun p => p.1.id := List.map_map ..
    rw [heq] at hloop
    have hsurvive : (∀ f ∈ w.fates rows, f.Survives) ↔ (w.loop rows).Intact := by
      rw [hloop.intact, ← hfates, List.forall_mem_map]
    have hnoPush : ¬SomePush (w.fates rows) ↔ (w.loop rows).pushes = [] := by
      rw [← hfates]
      exact hloop.pushes.symm
    simp only [Option.some.injEq, forall_eq', hsurvive, hnoPush]
    set t := w.loop rows with ht
    by_cases hgood : t.Intact ∧ w.commits = true
    · refine iff_of_true (fun id hid => ?_) (.inr hgood)
      obtain ⟨hstopped, hlost⟩ := hgood.1
      have hmem : id ∈ t.rows.map Notification.id := by
        rw [hloop.rows hgood.1]
        obtain hid | hid := hloop.ids id hid
        · exact absurd hid (List.not_mem_nil)
        · exact List.mem_append_right _ hid
      simpa [hstopped, hlost, hgood.2] using hmem
    · have hnothing : t.stopped = true ∨ t.lost = true ∨ (!w.commits) = true := by
        by_contra hnone
        simp only [not_or, Bool.not_eq_true, Bool.not_eq_false'] at hnone
        exact hgood ⟨⟨hnone.1, hnone.2.1⟩, hnone.2.2⟩
      rw [or_iff_left hgood]
      simp only [if_pos hnothing, List.not_mem_nil, false_and, exists_false]
      exact List.eq_nil_iff_forall_not_mem.symm

/-- One alert, one device; the push is delivered, and the commit fails. -/
def failedCommit : RunWorld where
  volatility := .returns []
  earnings := .returns [⟨7, "system", "Earnings in 1 days: AAPL", "", .earnings "AAPL" "2026-01-06" 1⟩]
  macroAlerts := .returns []
  now := 0
  newId i := i
  insert := .returns ()
  dispatch _ := ⟨.returns ["ExponentPushToken[x]"], true, .accepted, 1⟩
  commits := false

theorem failedCommit_pushes :
    ¬PushesDurable failedCommit ∧ runRiskGuardianOnce failedCommit = ⟨[0], []⟩ := by
  have hrun : runRiskGuardianOnce failedCommit = ⟨[0], []⟩ := by decide +kernel
  refine ⟨fun h => ?_, hrun⟩
  obtain ⟨n, hn, -⟩ := h 0 (by simp [hrun])
  rw [hrun] at hn
  cases hn

end Nivara.Safety
