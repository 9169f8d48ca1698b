import Mathlib

/-!
# Keys with a time to live

A store of keys, each with a value and the time at which it is gone, and the Redis
commands on it. A command is atomic and takes the time at which it runs.

Results:

* `getKey_eq_some_iff`: a key exists until its deadline.
* `setNxEx_of_live`, `setNxEx_of_gone`: a key that exists is not set again.
* `getKey_setEx`, `eq_of_getKey_setEx`: a key that is set has its value until it is gone.
* `exists_deadline_setNxEx`: the deadline of a key never goes back.
* `getKey_of_le`, `getKey_delete_self`, `getKey_update_of_ne`: what time and the other
  commands do to a key.
-/

namespace Nivara.ExpiringKeys

variable {κ ν τ : Type*} [DecidableEq κ]

/-- The value of each key, and when the key is gone. -/
abbrev Store (κ ν τ : Type*) := κ → Option (ν × τ)

section Commands

variable [LinearOrder τ] (now : τ)

/-- `GET key`. -/
def getKey (key : κ) (s : Store κ ν τ) : Option ν :=
  ((s key).filter fun e => now < e.2).map Prod.fst

/-- `SET key value NX EX ttl`: the store, and whether the key was set. -/
def setNxEx [Add τ] (key : κ) (value : ν) (ttl : τ) (s : Store κ ν τ) : Store κ ν τ × Bool :=
  match getKey now key s with
  | none => (Function.update s key (some (value, now + ttl)), true)
  | some _ => (s, false)

/-- `SET key value EX ttl`. -/
def setEx [Add τ] (key : κ) (value : ν) (ttl : τ) (s : Store κ ν τ) : Store κ ν τ :=
  Function.update s key (some (value, now + ttl))

/-- `DEL key`. -/
def delete (key : κ) (s : Store κ ν τ) : Store κ ν τ := Function.update s key none

/-- `GETDEL key`. -/
def getdel (key : κ) (s : Store κ ν τ) : Option ν × Store κ ν τ := (getKey now key s, delete key s)

end Commands

variable [LinearOrder τ] {now : τ} {key : κ} {value : ν} {ttl deadline : τ} {s : Store κ ν τ}

omit [DecidableEq κ] in
theorem getKey_eq_some_iff {v : ν} :
    getKey now key s = some v ↔ ∃ deadline, s key = some (v, deadline) ∧ now < deadline := by
  simp [getKey, Option.map_eq_some_iff, Option.filter_eq_some_iff]

omit [DecidableEq κ] in
theorem get_of_lt {v : ν} (hs : s key = some (v, deadline)) (h : now < deadline) :
    getKey now key s = some v := getKey_eq_some_iff.mpr ⟨deadline, hs, h⟩

omit [DecidableEq κ] in
/-- A key that does not exist has run out if it was set. -/
theorem deadline_le_of_get {v : ν} (h : getKey now key s = none) (hs : s key = some (v, deadline)) :
    deadline ≤ now := by
  by_contra hlt
  rw [get_of_lt hs (not_le.mp hlt)] at h
  cases h

omit [DecidableEq κ] in
/-- A key that exists later exists now. -/
theorem getKey_of_le {now' : τ} {v : ν} (hle : now ≤ now') (h : getKey now' key s = some v) :
    getKey now key s = some v := by
  obtain ⟨deadline, hs, hlt⟩ := getKey_eq_some_iff.mp h
  exact get_of_lt hs (hle.trans_lt hlt)

@[simp] theorem getKey_delete_self : getKey now key (delete key s) = none := by
  unfold getKey delete
  rw [Function.update_self]
  rfl

theorem getKey_update_of_ne {key' : κ} (h : key' ≠ key) (e : Option (ν × τ)) :
    getKey now key' (Function.update s key e) = getKey now key' s := by
  unfold getKey
  rw [Function.update_of_ne h]

variable [Add τ]

theorem getKey_setEx (httl : now < now + ttl) (value : ν) :
    getKey now key (setEx now key value ttl s) = some value :=
  get_of_lt (Function.update_self ..) httl

theorem eq_of_getKey_setEx {now' : τ} {v : ν} (h : getKey now' key (setEx now key value ttl s) = some v) :
    v = value := by
  obtain ⟨deadline, hs, -⟩ := getKey_eq_some_iff.mp h
  rw [setEx, Function.update_self] at hs
  exact (Prod.mk.inj (Option.some.inj hs)).1.symm

theorem setNxEx_of_gone (h : getKey now key s = none) (value : ν) (ttl : τ) :
    setNxEx now key value ttl s = (Function.update s key (some (value, now + ttl)), true) := by
  unfold setNxEx
  rw [h]

theorem setNxEx_of_live {v : ν} (h : getKey now key s = some v) (value : ν) (ttl : τ) :
    setNxEx now key value ttl s = (s, false) := by
  unfold setNxEx
  rw [h]

variable (key value) in
/-- A key that was set keeps a deadline that is not earlier, also when it has run out and
    is set again. -/
theorem exists_deadline_setNxEx {key' : κ} {v : ν} (httl : now ≤ now + ttl)
    (h : s key' = some (v, deadline)) :
    ∃ v' d', (setNxEx now key value ttl s).1 key' = some (v', d') ∧ deadline ≤ d' := by
  cases hget : getKey now key s with
  | none =>
    rw [setNxEx_of_gone hget]
    by_cases hkey : key' = key
    · rw [hkey] at h ⊢
      exact ⟨value, now + ttl, Function.update_self .., (deadline_le_of_get hget h).trans httl⟩
    · exact ⟨v, deadline, (Function.update_of_ne hkey ..).trans h, le_refl _⟩
  | some w =>
    rw [setNxEx_of_live hget]
    exact ⟨v, deadline, h, le_refl _⟩

end Nivara.ExpiringKeys
