import Mathlib

/-!
# A session and its transaction

The session of an object mapper over one table with a unique key, and over whatever else its caller
writes. Added rows wait in the session until a flush executes them in the open transaction. A flush that
violates the key undoes the whole transaction.

* A row without a key conflicts with no other.
* The caller's own writes are not refused.

Results:

* `taken_of_lost`: a row that has lost its race finds its key taken.
* `kept_of_openWrites`, `kept_iff_of_undone`: when the caller's writes are still there.
-/

namespace Nivara.UnitOfWork

variable {ρ κ ω : Type*} [DecidableEq κ]

/-! ## Sessions -/

inductive Write (ρ ω : Type*)
  | insert (row : ρ)
  | update (row : ρ)
  | other (write : ω)

structure OrmSession (ρ ω : Type*) where
  /-- The committed rows of the table. -/
  committed : List ρ
  /-- What the caller has committed. -/
  saved : List (Write ρ ω)
  /-- What is executed in the open transaction. -/
  written : List (Write ρ ω)
  /-- What waits for a flush. -/
  pending : List ω

/-- The session after a call. It is inactive between a flush that has failed and a rollback. -/
inductive After (ρ ω : Type*)
  | active (s : OrmSession ρ ω)
  | inactive (s : OrmSession ρ ω)

/-- The key is taken. -/
def Taken (key : ρ → Option κ) (rows : List ρ) (row : ρ) : Prop :=
  ∃ r ∈ rows, key r = key row ∧ (key row).isSome

instance (key : ρ → Option κ) (rows : List ρ) (row : ρ) : Decidable (Taken key rows row) :=
  inferInstanceAs (Decidable (∃ r ∈ rows, _))

def apply (key : ρ → Option κ) (rows : List ρ) : Write ρ ω → List ρ
  | .insert row => rows ++ [row]
  | .update row => rows.map fun r => if key r = key row ∧ (key row).isSome then row else r
  | .other _ => rows

namespace OrmSession

variable (key : ρ → Option κ) (s : OrmSession ρ ω)

/-- The rows that a statement of the session sees. -/
def visible : List ρ := s.written.foldl (apply key) s.committed

/-- The row with the key of another one. -/
def select (row : ρ) : Option ρ := (s.visible key).find? fun r => key r = key row ∧ (key row).isSome

/-- Other transactions commit. -/
def arrive (rows : List ρ) : OrmSession ρ ω := { s with committed := s.committed ++ rows }

/-- The writes that the caller has not committed. -/
def openWrites : List (Write ρ ω) := s.written ++ s.pending.map .other

/-- `session.flush()`. -/
def flush : OrmSession ρ ω := { s with written := s.openWrites, pending := [] }

/-- `session.rollback()`. -/
def rollback : OrmSession ρ ω := { s with written := [], pending := [] }

/-- `session.commit()`. -/
def commit : OrmSession ρ ω where
  committed := s.flush.visible key
  saved := s.saved ++ s.flush.written
  written := []
  pending := []

/-- `session.add(row)` and `session.flush()`. -/
def addAndFlush (row : ρ) : Except (OrmSession ρ ω) (OrmSession ρ ω) :=
  if Taken key (s.visible key) row then .error s.rollback
  else .ok { s.flush with written := s.flush.written ++ [.insert row] }

/-- A changed row, and `session.flush()`. -/
def updateAndFlush (row : ρ) : OrmSession ρ ω := { s.flush with written := s.flush.written ++ [.update row] }

/-- `INSERT … ON CONFLICT DO NOTHING`; whether the row is inserted. -/
def insertOrNothing (row : ρ) : Bool × OrmSession ρ ω :=
  if Taken key (s.visible key) row then (false, s)
  else (true, { s with written := s.written ++ [.insert row] })

/-- `INSERT … ON CONFLICT DO UPDATE`. -/
def upsert (row : ρ) : OrmSession ρ ω :=
  { s with written := s.written ++ [if Taken key (s.visible key) row then .update row else .insert row] }

/-! ## Races -/

/-- No row with the key is seen, and then another transaction commits one. -/
def Lost (race : List ρ) (row : ρ) : Prop := ¬ Taken key (s.visible key) row ∧ Taken key race row

end OrmSession

/-- What the caller has saved when it commits after a call. An inactive session refuses to commit. -/
def After.saved (key : ρ → Option κ) : After ρ ω → List (Write ρ ω)
  | .active s => (s.commit key).saved
  | .inactive s => s.saved

/-- The open writes of the caller are saved when it commits after a call. -/
def Kept (key : ρ → Option κ) (s : OrmSession ρ ω) (after : After ρ ω) : Prop :=
  (s.saved ++ s.openWrites).Sublist (after.saved key)

variable {key : ρ → Option κ} {s : OrmSession ρ ω} {rows race : List ρ} {row : ρ}

theorem taken_apply (h : Taken key rows row) (w : Write ρ ω) : Taken key (apply key rows w) row := by
  obtain ⟨r, hr, hkey, hsome⟩ := h
  cases w with
  | insert row' => exact ⟨r, List.mem_append_left _ hr, hkey, hsome⟩
  | update row' =>
    refine ⟨_, List.mem_map_of_mem hr, ?_, hsome⟩
    split_ifs with hsame
    · exact hsame.1.symm.trans hkey
    · exact hkey
  | other w => exact ⟨r, hr, hkey, hsome⟩

/-- No write of the transaction makes a key free again. -/
theorem taken_visible (h : Taken key s.committed row) : Taken key (s.visible key) row := by
  unfold OrmSession.visible
  generalize s.committed = rows at h
  induction s.written generalizing rows with
  | nil => exact h
  | cons w written ih => exact ih (apply key rows w) (taken_apply h w)

omit [DecidableEq κ] in
theorem Taken.append (h : Taken key race row) : Taken key (rows ++ race) row := by
  obtain ⟨r, hr, hkey⟩ := h
  exact ⟨r, List.mem_append_right _ hr, hkey⟩

/-- A row that has lost its race finds its key taken. -/
theorem taken_of_lost (h : s.Lost key race row) : Taken key ((s.arrive race).visible key) row :=
  taken_visible h.2.append

theorem insertOrNothing_of_lost (h : s.Lost key race row) :
    (s.arrive race).insertOrNothing key row = (false, s.arrive race) :=
  if_pos (taken_of_lost h)

theorem addAndFlush_of_lost (h : s.Lost key race row) :
    (s.arrive race).addAndFlush key row = .error (s.arrive race).rollback :=
  if_pos (taken_of_lost h)

theorem taken_flush_of_lost (h : s.Lost key race row) : Taken key ((s.arrive race).flush.visible key) row :=
  taken_visible h.2.append

theorem taken_rollback_of_lost (h : s.Lost key race row) :
    Taken key ((s.arrive race).rollback.rollback.visible key) row :=
  taken_visible h.2.append

theorem isSome_select_iff : (s.select key row).isSome ↔ Taken key (s.visible key) row := by
  unfold OrmSession.select Taken
  rw [List.find?_isSome]
  simp only [decide_eq_true_iff]

/-- A select of a taken key finds a row. -/
theorem exists_select (h : Taken key (s.visible key) row) :
    ∃ r, s.select key row = some r ∧ key r = key row := by
  obtain ⟨r, hr⟩ := Option.isSome_iff_exists.mp (isSome_select_iff.mpr h)
  have hfound := List.find?_some hr
  rw [decide_eq_true_iff] at hfound
  exact ⟨r, hr, hfound.1⟩

theorem select_of_lost (h : s.Lost key race row) : s.select key row = none := by
  rw [← Option.not_isSome_iff_eq_none, isSome_select_iff]
  exact h.1

/-- What is open stays to be saved when more is written. -/
theorem kept_of_openWrites {t : OrmSession ρ ω} (hsaved : t.saved = s.saved)
    (hopen : s.openWrites.Sublist t.openWrites) : Kept key s (.active t) := by
  change (s.saved ++ s.openWrites).Sublist (t.saved ++ t.openWrites)
  rw [hsaved]
  exact hopen.append_left _

/-- A session whose writes are undone keeps them only when there were none. -/
theorem kept_iff_of_undone {after : After ρ ω} (h : after.saved key = s.saved) :
    Kept key s after ↔ s.openWrites = [] := by
  unfold Kept
  rw [h]
  constructor
  · intro hsub
    have hlength := hsub.length_le
    rw [List.length_append] at hlength
    exact List.eq_nil_of_length_eq_zero (by omega)
  · intro hnil
    rw [hnil, List.append_nil]

omit [DecidableEq κ] in
theorem openWrites_flush (t : OrmSession ρ ω) : t.flush.openWrites = t.openWrites := by
  unfold OrmSession.flush OrmSession.openWrites
  rw [List.map_nil, List.append_nil]

theorem saved_rollback (t : OrmSession ρ ω) : (After.active t.rollback).saved key = t.saved := by
  unfold After.saved OrmSession.commit OrmSession.flush OrmSession.openWrites OrmSession.rollback
  simp

end Nivara.UnitOfWork
