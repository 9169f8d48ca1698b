import Nivara.Safety.ValidateAction
import Nivara.Lib.Transition

/-!
# Requests to the kill switch that fail on the way

`POST` and `DELETE /api/safety/kill-switch` (`api/safety.py`, lines 50–85), over
`KillSwitchService.activate` and `deactivate` (`safety/kill_switch.py`, lines 36–55) and
`AuditService.record`. The switch is written to Redis first; the audit row is added, flushed and
committed after it, and `get_session` rolls the transaction back if a step raises.

* A request fails at one point at most. A Redis command and a commit can raise with or without having
  taken effect (the connection breaks before, or after).
* `FailSafe` is what a barrier before the orders has to keep: a request that fails does not take it
  away, and the audit log knows every change.

Results:

* `serve_eq`: what is left in the two stores, for each point of failure.
* `failSafe_serve_iff`: the requests that are fail-safe.
* `isActive_eq_lastAudited_of_run`: over runs of such requests, the switch is what the audit log says.
-/

namespace Nivara.Safety

open Transition

/-! ## Model of the code -/

/-- A row of `audit_log` about the switch; `active` is its `event_data`. -/
structure SwitchEvent where
  userId : UUID
  eventType : String
  active : Bool
  deriving DecidableEq

def eventKillSwitchActivated : String := "safety.kill_switch_activated"

def eventKillSwitchDeactivated : String := "safety.kill_switch_deactivated"

/-- The two stores. -/
structure SwitchStores where
  /-- `safety:kill_switch:{user_id}`. -/
  killSwitch : UUID → Option String
  /-- The rows that are committed. -/
  auditLog : List SwitchEvent

/-- `KillSwitchService.is_active`. -/
def SwitchStores.isActive (s : SwitchStores) (userId : UUID) : Bool := (s.killSwitch userId).isSome

/-- The stores, and the rows of a transaction. -/
structure SwitchSession extends SwitchStores where
  added : List SwitchEvent

/-- Where a request fails. -/
inductive FailurePoint
  | redis (applied : Bool)
  | insert
  | flush
  | commit (applied : Bool)
  deriving DecidableEq

/-- An exception leaves the stores as they are at that point. -/
abbrev SwitchM := EStateM FailurePoint SwitchSession

variable (failure : Option FailurePoint)

/-- `SET` or, for `none`, `DEL` of the key. -/
def redisWrite (userId : UUID) (value : Option String) : SwitchM Unit := do
  let write := modify fun s => { s with killSwitch := Function.update s.killSwitch userId value }
  match failure with
  | some (.redis applied) =>
    if applied then write
    throw (.redis applied)
  | _ => write

/-- `AuditService.record`. -/
def recordSwitch (entry : SwitchEvent) : SwitchM Unit := do
  if failure = some .insert then throw .insert
  modify fun s => { s with added := s.added ++ [entry] }
  if failure = some .flush then throw .flush

/-- `session.commit()`. -/
def commitSwitch : SwitchM Unit := do
  let commit := modify fun s => { s with auditLog := s.auditLog ++ s.added, added := [] }
  match failure with
  | some (.commit applied) =>
    if applied then commit
    throw (.commit applied)
  | _ => commit

/-- `KillSwitchService.activate`. -/
def activate (userId : UUID) : SwitchM Unit := do
  redisWrite failure userId (some "1")
  recordSwitch failure ⟨userId, eventKillSwitchActivated, true⟩

/-- `KillSwitchService.deactivate`. -/
def deactivate (userId : UUID) : SwitchM Unit := do
  redisWrite failure userId none
  recordSwitch failure ⟨userId, eventKillSwitchDeactivated, false⟩

structure KillSwitchResponse where
  active : Bool
  deriving DecidableEq

/-- `activate_kill_switch`. -/
def activateKillSwitch (userId : UUID) : SwitchM KillSwitchResponse := do
  activate failure userId
  commitSwitch failure
  return ⟨true⟩

/-- `deactivate_kill_switch`. -/
def deactivateKillSwitch (userId : UUID) : SwitchM KillSwitchResponse := do
  deactivate failure userId
  commitSwitch failure
  return ⟨false⟩

inductive SwitchRequest
  | activate (userId : UUID)
  | deactivate (userId : UUID)
  deriving DecidableEq

/-- A request with its own session. No response is a request that has failed, and then the transaction
    is rolled back. -/
def serve (r : SwitchRequest) (s : SwitchStores) : Option KillSwitchResponse × SwitchStores :=
  let handler := match r with
    | .activate userId => activateKillSwitch failure userId
    | .deactivate userId => deactivateKillSwitch failure userId
  match handler.run ⟨s, []⟩ with
  | .ok response t => (some response, t.toSwitchStores)
  | .error _ t => (none, t.toSwitchStores)

/-! ## What a request leaves -/

namespace SwitchRequest

def userId : SwitchRequest → UUID
  | activate userId => userId
  | deactivate userId => userId

/-- What the switch is to be. -/
def active : SwitchRequest → Bool
  | activate _ => true
  | deactivate _ => false

def value : SwitchRequest → Option String
  | activate _ => some "1"
  | deactivate _ => none

def event : SwitchRequest → SwitchEvent
  | activate userId => ⟨userId, eventKillSwitchActivated, true⟩
  | deactivate userId => ⟨userId, eventKillSwitchDeactivated, false⟩

theorem isSome_value (r : SwitchRequest) : r.value.isSome = r.active := by cases r <;> rfl

theorem event_userId (r : SwitchRequest) : r.event.userId = r.userId := by cases r <;> rfl

theorem event_active (r : SwitchRequest) : r.event.active = r.active := by cases r <;> rfl

end SwitchRequest

/-- The stores with the switch as the request wants it. -/
def SwitchStores.switched (s : SwitchStores) (r : SwitchRequest) : SwitchStores :=
  { s with killSwitch := Function.update s.killSwitch r.userId r.value }

/-- And with the row of the request. -/
def SwitchStores.audited (s : SwitchStores) (r : SwitchRequest) : SwitchStores :=
  { s with auditLog := s.auditLog ++ [r.event] }

/-- Redis keeps what was written to it, and the table does not. -/
theorem serve_eq (r : SwitchRequest) (s : SwitchStores) :
    serve failure r s =
      match failure with
      | none => (some ⟨r.active⟩, (s.switched r).audited r)
      | some (.redis false) => (none, s)
      | some (.commit true) => (none, (s.switched r).audited r)
      | some _ => (none, s.switched r) := by
  rcases r with userId | userId <;> rcases failure with _ | (⟨_ | _⟩ | _ | _ | ⟨_ | _⟩) <;> rfl

theorem isActive_switched (s : SwitchStores) (r : SwitchRequest) (userId : UUID) :
    (s.switched r).isActive userId = if userId = r.userId then r.active else s.isActive userId := by
  unfold SwitchStores.isActive SwitchStores.switched
  dsimp only
  rw [Function.update_apply]
  split_ifs
  · exact r.isSome_value
  · rfl

theorem isActive_audited (s : SwitchStores) (r : SwitchRequest) (userId : UUID) :
    (s.audited r).isActive userId = s.isActive userId := rfl

/-! ## Fail-safe requests -/

/-- A request to deactivate that fails leaves an active switch active, and a switch that has changed has
    a row that says so. -/
structure FailSafe (r : SwitchRequest) (s : SwitchStores) (response : Option KillSwitchResponse)
    (t : SwitchStores) : Prop where
  stays_active : ∀ userId, r = .deactivate userId → response = none → s.isActive userId → t.isActive userId
  audited : ∀ userId, t.isActive userId ≠ s.isActive userId →
    ∃ entry, t.auditLog = s.auditLog ++ [entry] ∧ entry.userId = userId ∧ entry.active = t.isActive userId

/-- Nothing fails, or Redis before it has done anything; or else the switch is as wanted already, but that
    a commit which took effect is enough for the switch to be activated. -/
def FailsSafely (r : SwitchRequest) (s : SwitchStores) : Prop :=
  match failure with
  | none => True
  | some (.redis false) => True
  | some (.commit true) => r.active ∨ s.isActive r.userId = false
  | some _ => s.isActive r.userId = r.active

instance (r : SwitchRequest) (s : SwitchStores) : Decidable (FailsSafely failure r s) := by
  unfold FailsSafely
  split <;> infer_instance

/-- A change is audited where the row is there. -/
theorem changed_audited {r : SwitchRequest} {s : SwitchStores} {userId : UUID}
    (h : ((s.switched r).audited r).isActive userId ≠ s.isActive userId) :
    ∃ entry, ((s.switched r).audited r).auditLog = s.auditLog ++ [entry] ∧ entry.userId = userId ∧
      entry.active = ((s.switched r).audited r).isActive userId := by
  rw [isActive_audited, isActive_switched] at h ⊢
  by_cases huser : userId = r.userId
  · refine ⟨r.event, rfl, r.event_userId.trans huser.symm, ?_⟩
    rw [if_pos huser, r.event_active]
  · rw [if_neg huser] at h
    exact absurd rfl h

/-- Without a row, the switch must have been as wanted. -/
theorem failSafe_switched_iff (r : SwitchRequest) (s : SwitchStores) :
    FailSafe r s none (s.switched r) ↔ s.isActive r.userId = r.active := by
  constructor
  · intro h
    by_contra hchanged
    have hswitched : (s.switched r).isActive r.userId ≠ s.isActive r.userId := by
      rw [isActive_switched, if_pos rfl]
      exact Ne.symm hchanged
    obtain ⟨entry, hlog, _⟩ := h.audited r.userId hswitched
    exact absurd (List.append_right_eq_self.mp hlog.symm) (List.cons_ne_nil _ _)
  · intro hsame
    have hactive (userId : UUID) : (s.switched r).isActive userId = s.isActive userId := by
      rw [isActive_switched]
      split_ifs with huser
      · rw [huser, hsame]
      · rfl
    exact ⟨fun userId _ _ h => (hactive userId).trans h, fun userId h => absurd (hactive userId) h⟩

/-- With the row, only a request to deactivate can still be at fault. -/
theorem failSafe_audited_iff (r : SwitchRequest) (s : SwitchStores) :
    FailSafe r s none ((s.switched r).audited r) ↔ r.active ∨ s.isActive r.userId = false := by
  constructor
  · intro h
    cases r with
    | activate userId => exact .inl rfl
    | deactivate userId =>
      by_contra hactive
      have hstays := h.stays_active userId rfl rfl
        (by simpa [SwitchRequest.active, SwitchRequest.userId] using hactive)
      have huser : userId = (SwitchRequest.deactivate userId).userId := rfl
      rw [isActive_audited, isActive_switched, if_pos huser] at hstays
      cases hstays
  · intro h
    refine ⟨?_, fun userId => changed_audited⟩
    rintro userId rfl - hactive
    rcases h with h | h
    · cases h
    · exact absurd (hactive.symm.trans h) (by decide)

/-- For every state of the switch, every request and every point of failure. -/
theorem failSafe_serve_iff (r : SwitchRequest) (s : SwitchStores) :
    FailSafe r s (serve failure r s).1 (serve failure r s).2 ↔ FailsSafely failure r s := by
  rw [serve_eq]
  rcases failure with _ | (⟨_ | _⟩ | _ | _ | ⟨_ | _⟩)
  case none => exact iff_of_true ⟨nofun, fun userId => changed_audited⟩ trivial
  case redis.false => exact iff_of_true ⟨fun _ _ _ h => h, fun _ h => absurd rfl h⟩ trivial
  case commit.true => exact failSafe_audited_iff r s
  all_goals exact failSafe_switched_iff r s

/-- The switch of user 1 is on. -/
def switchedOn : SwitchStores := ⟨fun userId => if userId = 1 then some "1" else none, []⟩

/-- A request to deactivate whose audit row cannot be flushed: it fails, and the switch is off. -/
theorem deactivate_flush_failed :
    ¬ FailSafe (.deactivate 1) switchedOn (serve (some .flush) (.deactivate 1) switchedOn).1
      (serve (some .flush) (.deactivate 1) switchedOn).2 :=
  fun h => absurd (h.stays_active 1 rfl rfl (by decide)) (by decide)

/-! ## Runs -/

/-- The switch as the rows of a user have it. -/
def lastAudited (auditLog : List SwitchEvent) (userId : UUID) : Bool :=
  ((auditLog.filter (·.userId = userId)).getLast?.map (·.active)).getD false

theorem lastAudited_append (auditLog : List SwitchEvent) (entry : SwitchEvent) (userId : UUID) :
    lastAudited (auditLog ++ [entry]) userId =
      if userId = entry.userId then entry.active else lastAudited auditLog userId := by
  unfold lastAudited
  rw [List.filter_append, List.filter_singleton]
  by_cases huser : userId = entry.userId
  · simp [huser]
  · simp [huser, Ne.symm huser]

/-- One request after another, each with a point of failure of its own, all of them fail-safe: the switch of
    every user is what the user's last row says. -/
theorem isActive_eq_lastAudited_of_run {start s : SwitchStores}
    (hstart : ∀ userId, start.isActive userId = lastAudited start.auditLog userId)
    (hrun : Run (fun s l t => (serve l.1 l.2 s).2 = t)
      (fun s (l : Option FailurePoint × SwitchRequest) => FailsSafely l.1 l.2 s) start s) :
    ∀ userId, s.isActive userId = lastAudited s.auditLog userId := by
  refine hrun.invariant (I := fun s => ∀ userId, s.isActive userId = lastAudited s.auditLog userId)
    hstart ?_
  rintro s ⟨failure, r⟩ t hagree hsafe rfl userId
  have haudited : ((s.switched r).audited r).isActive userId =
      lastAudited ((s.switched r).audited r).auditLog userId := by
    rw [isActive_audited, isActive_switched, SwitchStores.audited, lastAudited_append, r.event_userId,
      r.event_active, hagree userId]
    rfl
  have hswitched (hsame : s.isActive r.userId = r.active) :
      (s.switched r).isActive userId = lastAudited (s.switched r).auditLog userId := by
    show _ = lastAudited s.auditLog userId
    rw [isActive_switched, ← hagree userId]
    split_ifs with huser
    · rw [huser, hsame]
    · rfl
  dsimp only at hsafe ⊢
  rw [serve_eq]
  rcases failure with _ | (⟨_ | _⟩ | _ | _ | ⟨_ | _⟩)
  case none => exact haudited
  case redis.false => exact hagree userId
  case commit.true => exact haudited
  all_goals exact hswitched hsafe

end Nivara.Safety
