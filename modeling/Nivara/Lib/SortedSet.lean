import Mathlib

/-!
# Sorted sets

A set of members, each with a score, and the Redis commands on it. A command is
atomic. A `ZSet` is the scores as a function; `Entries` are the members with their
scores as a list, for the commands that count them.

Results:

* `zremrangebyscore_eq_some`: a trim keeps the scores above the cutoff.
* `zaddNx_of_mem`, `zaddNx_of_ne`: what an addition leaves as it is.
* `Entries.mem_zadd_of_ne`, `Entries.mem_removeByScore`: the same for `Entries`.
* `Entries.oldestScore_eq_none`: only the empty set has no oldest score.
-/

namespace Nivara.SortedSet

variable {μ σ : Type*}

/-- The score of each member of the set. -/
abbrev ZSet (μ σ : Type*) := μ → Option σ

/-- `ZREMRANGEBYSCORE key -inf cutoff`. -/
def zremrangebyscore [LinearOrder σ] (cutoff : σ) (z : ZSet μ σ) : ZSet μ σ :=
  fun m => (z m).filter fun score => cutoff < score

/-- `ZADD key NX score member`: the set, and whether the member is new. -/
def zaddNx [DecidableEq μ] (member : μ) (score : σ) (z : ZSet μ σ) : ZSet μ σ × Bool :=
  match z member with
  | none => (Function.update z member (some score), true)
  | some _ => (z, false)

/-- `ZADD key score member`: a member that is there gets the new score. -/
def zadd [DecidableEq μ] (member : μ) (score : σ) (z : ZSet μ σ) : ZSet μ σ :=
  Function.update z member (some score)

/-- `EXPIRE key seconds`: a time to live that is not positive deletes the key. -/
def expire (seconds : ℤ) (z : ZSet μ σ) : ZSet μ σ := if 0 < seconds then z else fun _ => none

variable {z : ZSet μ σ} {m member : μ} {score cutoff : σ}

theorem zremrangebyscore_eq_some [LinearOrder σ] :
    zremrangebyscore cutoff z m = some score ↔ z m = some score ∧ cutoff < score := by
  unfold zremrangebyscore
  rw [Option.filter_eq_some_iff, decide_eq_true_iff]

theorem zremrangebyscore_of_lt [LinearOrder σ] (h : z m = some score) (hlt : cutoff < score) :
    zremrangebyscore cutoff z m = some score := zremrangebyscore_eq_some.mpr ⟨h, hlt⟩

theorem zaddNx_of_mem [DecidableEq μ] (h : z member = some score) (score' : σ) :
    zaddNx member score' z = (z, false) := by
  unfold zaddNx
  rw [h]

theorem zaddNx_of_not_mem [DecidableEq μ] (h : z member = none) (score : σ) :
    zaddNx member score z = (Function.update z member (some score), true) := by
  unfold zaddNx
  rw [h]

theorem zaddNx_of_ne [DecidableEq μ] (h : m ≠ member) (score : σ) :
    (zaddNx member score z).1 m = z m := by
  unfold zaddNx
  cases z member with
  | none => exact Function.update_of_ne h ..
  | some v => rfl

/-! ## Entries -/

/-- The members with their scores, none of them twice. -/
abbrev Entries (μ σ : Type*) := List (μ × σ)

namespace Entries

/-- `ZREMRANGEBYSCORE key min max`. -/
def removeByScore [LinearOrder σ] (min max : σ) (z : Entries μ σ) : Entries μ σ :=
  z.filter fun e => ¬ (min ≤ e.2 ∧ e.2 ≤ max)

/-- `ZCARD key`. -/
def zcard (z : Entries μ σ) : ℕ := z.length

/-- `ZADD key score member`. -/
def zadd [DecidableEq μ] (member : μ) (score : σ) (z : Entries μ σ) : Entries μ σ :=
  (member, score) :: z.filter fun e => e.1 ≠ member

/-- The score that `ZRANGE key 0 0 WITHSCORES` returns. -/
def oldestScore [LinearOrder σ] (z : Entries μ σ) : Option σ := (z.map Prod.snd).min?

variable {z : Entries μ σ} {e : μ × σ}

theorem mem_removeByScore [LinearOrder σ] {min max : σ} :
    e ∈ z.removeByScore min max ↔ e ∈ z ∧ ¬ (min ≤ e.2 ∧ e.2 ≤ max) := by
  unfold removeByScore
  rw [List.mem_filter, decide_eq_true_iff]

theorem mem_zadd_of_ne [DecidableEq μ] {member : μ} (score : σ) (he : e ∈ z) (hne : e.1 ≠ member) :
    e ∈ z.zadd member score :=
  List.mem_cons_of_mem _ (List.mem_filter.mpr ⟨he, decide_eq_true hne⟩)

theorem eq_or_mem_of_mem_zadd [DecidableEq μ] {member : μ} {score : σ} (he : e ∈ z.zadd member score) :
    e = (member, score) ∨ e ∈ z :=
  (List.mem_cons.mp he).imp_right List.mem_of_mem_filter

theorem oldestScore_eq_none [LinearOrder σ] : z.oldestScore = none ↔ z = [] := by
  unfold oldestScore
  rw [List.min?_eq_none_iff, List.map_eq_nil_iff]

end Entries

end Nivara.SortedSet
