import Nivara.Lib.Keyed
import Nivara.Lib.Transition
import Nivara.Safety.Pagination

/-!
# Devices and their push tokens

`register_device` (`api/devices.py`, lines 27-63), each statement a step of its own, and
`ExpoPushChannel.send` (`notifications/push.py`, lines 38-105) on the table it leaves.

* `expo_push_token` is unique, and an insert of a token that is there raises.
* The `UPDATE` of a flush sets the attributes that differ from what the session has loaded, and
  `last_seen_at` always. It is one step with its commit.
* What Expo answers is an input. `registered` is history.

Results:

* `effect_of_step`: what a step can do to the table.
* `Table.step`: each token is in the table once, active, and under a user who registered it.
* `ownedBy_iff`: exactly when a commit leaves the device with the user who registers it.
* `devices_of_run`: whose devices a notification is pushed to.
-/

namespace Nivara.Notifications

open Safety Transition
open Keyed (lastFor map_modify lastFor_append)

/-! ## Model -/

inductive Platform
  | ios
  | android
  deriving DecidableEq

/-- A row of `device_tokens`. -/
structure DeviceToken where
  id : UUID
  userId : UUID
  expoPushToken : String
  platform : Platform
  isActive : Bool
  createdAt : ℤ
  lastSeenAt : ℤ
  deriving DecidableEq

/-- `DeviceRegisterIn`. -/
structure DeviceRegisterIn where
  expoPushToken : String
  platform : Platform
  deriving DecidableEq

/-- A call of `register_device`, by what it does next. -/
inductive Registration
  /-- The `SELECT`. -/
  | select (userId : UUID) (payload : DeviceRegisterIn)
  /-- The `UPDATE` of the row it has loaded, and the commit. -/
  | update (userId : UUID) (payload : DeviceRegisterIn) (existing : DeviceToken)
  /-- The `INSERT`, and the commit. -/
  | insert (userId : UUID) (payload : DeviceRegisterIn)
  /-- `session.refresh`. -/
  | refresh (id : UUID)
  | returned (device : DeviceToken)
  /-- An `IntegrityError`. -/
  | raised
  deriving DecidableEq

/-- The value of an attribute in the row: that of the session, when it differs from what was loaded. -/
def flushed {α : Type} [DecidableEq α] (loaded assigned stored : α) : α :=
  if assigned = loaded then stored else assigned

/-- The `UPDATE`. -/
def DeviceToken.updated (existing : DeviceToken) (userId : UUID) (payload : DeviceRegisterIn) (now : ℤ)
    (row : DeviceToken) : DeviceToken :=
  { row with
    userId := flushed existing.userId userId row.userId
    platform := flushed existing.platform payload.platform row.platform
    isActive := flushed existing.isActive true row.isActive
    lastSeenAt := now }

structure DeviceState (ι : Type) where
  rows : List DeviceToken
  calls : ι → Option Registration
  /-- The registrations that were committed: the token and the user. -/
  registered : List (String × UUID)

inductive DeviceLabel (ι : Type)
  | start (i : ι) (userId : UUID) (payload : DeviceRegisterIn)
  /-- `now()` of the transaction, and `uuid4()`. -/
  | advance (i : ι) (now : ℤ) (newId : UUID)

variable {ι : Type}

namespace DeviceState

section

variable [DecidableEq ι]

def goto (s : DeviceState ι) (i : ι) (c : Registration) : DeviceState ι :=
  { s with calls := Function.update s.calls i (some c) }

/-- The row of a token. -/
def find (s : DeviceState ι) (token : String) : Option DeviceToken :=
  s.rows.find? fun r => r.expoPushToken = token

/-- The new row of a token, and the step of the call. -/
def committed (s : DeviceState ι) (i : ι) (userId : UUID) (token : String) (id : UUID)
    (rows : List DeviceToken) : DeviceState ι :=
  { s with rows := rows, registered := s.registered ++ [(token, userId)] }.goto i (.refresh id)

/-- One step of the system. -/
def step (s : DeviceState ι) : DeviceLabel ι → Option (DeviceState ι)
  | .start i userId payload =>
    match s.calls i with
    | none => some (s.goto i (.select userId payload))
    | some _ => none
  | .advance i now newId =>
    match s.calls i with
    | some (.select userId payload) =>
      match s.find payload.expoPushToken with
      | some existing => some (s.goto i (.update userId payload existing))
      | none => some (s.goto i (.insert userId payload))
    | some (.update userId payload existing) =>
      some (s.committed i userId payload.expoPushToken existing.id
        (Keyed.modify DeviceToken.id existing.id (existing.updated userId payload now) s.rows))
    | some (.insert userId payload) =>
      match s.find payload.expoPushToken with
      | some _ => some (s.goto i .raised)
      | none =>
        some (s.committed i userId payload.expoPushToken newId
          (s.rows ++ [⟨newId, userId, payload.expoPushToken, payload.platform, true, now, now⟩]))
    | some (.refresh id) =>
      match s.rows.find? fun r => r.id = id with
      | some device => some (s.goto i (.returned device))
      | none => some (s.goto i .raised)
    | _ => none

end

/-- An id that is generated is a new one. -/
def FreshIds (s : DeviceState ι) : DeviceLabel ι → Prop
  | .start .. => True
  | .advance _ _ newId => ∀ r ∈ s.rows, r.id ≠ newId

/-- The row is the one the call has loaded, or its user is written. -/
def Current (s : DeviceState ι) : DeviceLabel ι → Prop
  | .start .. => True
  | .advance i _ _ =>
    match s.calls i with
    | some (.update userId _ existing) =>
      userId ≠ existing.userId ∨ ∀ r ∈ s.rows, r.id = existing.id → r.userId = userId
    | _ => True

def initial : DeviceState ι := ⟨[], fun _ => none, []⟩

/-- The device of the token is registered for the user. -/
def OwnedBy (s : DeviceState ι) (token : String) (userId : UUID) : Prop :=
  ∃ r ∈ s.rows, r.expoPushToken = token ∧ r.userId = userId

end DeviceState

/-! ### `ExpoPushChannel` -/

/-- A message of the batch; `sound` is always `default`. -/
structure PushMessage where
  to_ : String
  title : String
  body : String
  data : AlertPayload
  sound : String
  deriving DecidableEq

/-- `_active_tokens`. -/
def activeTokens (rows : List DeviceToken) (userId : UUID) : List String :=
  (rows.filter fun r => r.userId = userId ∧ r.isActive = true).map DeviceToken.expoPushToken

/-- `_build_messages`. -/
def buildMessages (notification : Notification) (tokens : List String) : List PushMessage :=
  tokens.map fun token => ⟨token, notification.title, notification.body, notification.payload, "default"⟩

/-- The body of a response: no JSON, or whether it is a dictionary with errors. -/
inductive ExpoBody
  | notJson
  | json (errors : Bool)
  deriving DecidableEq

/-- What comes of the POST. -/
inductive ExpoReply
  | httpError
  | response (statusCode : ℕ) (body : ExpoBody)
  deriving DecidableEq

/-- `send`: the batch that is posted, if any, and the result. -/
def expoPushSend (post : List PushMessage → ExpoReply) (rows : List DeviceToken)
    (notification : Notification) :
    Option (List PushMessage) × Bool :=
  let tokens := activeTokens rows notification.userId
  if tokens = [] then (none, false)
  else
    let messages := buildMessages notification tokens
    match post messages with
    | .httpError => (some messages, false)
    | .response statusCode body => (some messages, statusCode = 200 ∧ body = .json false)

/-! ## Steps -/

namespace DeviceState

variable {s t : DeviceState ι}

@[simp] theorem updated_id (existing row : DeviceToken) (userId : UUID) (payload : DeviceRegisterIn)
  (now : ℤ) :
    (existing.updated userId payload now row).id = row.id := rfl

@[simp] theorem updated_expoPushToken (existing row : DeviceToken) (userId : UUID)
  (payload : DeviceRegisterIn)
    (now : ℤ) : (existing.updated userId payload now row).expoPushToken = row.expoPushToken := rfl

theorem updated_userId (existing row : DeviceToken) (userId : UUID) (payload : DeviceRegisterIn) (now : ℤ) :
    (existing.updated userId payload now row).userId =
      if userId = existing.userId then row.userId else userId := rfl

theorem updated_isActive {existing row : DeviceToken} (h : row.isActive = true) (userId : UUID)
    (payload : DeviceRegisterIn) (now : ℤ) : (existing.updated userId payload now row).isActive = true := by
  show flushed existing.isActive true row.isActive = true
  unfold flushed
  split_ifs
  · exact h
  · rfl

/-- A modification that keeps a column. -/
theorem map_modify_of_eq {β : Type} {f : DeviceToken → DeviceToken} {g : DeviceToken → β}
    (hf : ∀ r, g (f r) = g r) (id : UUID) (rows : List DeviceToken) :
    (Keyed.modify DeviceToken.id id f rows).map g = rows.map g := by
  rw [map_modify]
  apply List.map_congr_left
  intro r _
  split_ifs
  · exact hf r
  · rfl

theorem mem_modify {f : DeviceToken → DeviceToken} {id : UUID} {rows : List DeviceToken} {r : DeviceToken} :
    r ∈ Keyed.modify DeviceToken.id id f rows ↔ (∃ row ∈ rows, row.id = id ∧ r = f row) ∨
      (r ∈ rows ∧ r.id ≠ id) := by
  unfold Keyed.modify
  rw [List.mem_map]
  constructor
  · rintro ⟨row, hrow, rfl⟩
    by_cases hid : row.id = id
    · exact .inl ⟨row, hrow, hid, if_pos hid⟩
    · rw [if_neg hid]
      exact .inr ⟨hrow, hid⟩
  · rintro (⟨row, hrow, hid, rfl⟩ | ⟨hr, hid⟩)
    · exact ⟨row, hrow, if_pos hid⟩
    · exact ⟨r, hr, if_neg hid⟩

variable [DecidableEq ι]

/-- What a step can do to the table. -/
inductive Effect (s : DeviceState ι) : DeviceLabel ι → DeviceState ι → Prop
  /-- Nothing; a call that goes on to its `UPDATE` has found the row. -/
  | silent {l : DeviceLabel ι} (i : ι) (c : Registration)
      (hc : ∀ userId payload existing, c = .update userId payload existing →
        existing ∈ s.rows ∧ existing.expoPushToken = payload.expoPushToken) : Effect s l (s.goto i c)
  | update {i : ι} {userId : UUID} {payload : DeviceRegisterIn} {existing : DeviceToken} (now : ℤ)
    (newId : UUID)
      (hi : s.calls i = some (.update userId payload existing)) :
      Effect s (.advance i now newId) (s.committed i userId payload.expoPushToken existing.id
        (Keyed.modify DeviceToken.id existing.id (existing.updated userId payload now) s.rows))
  | insert {i : ι} {userId : UUID} {payload : DeviceRegisterIn} (now : ℤ) (newId : UUID)
      (hi : s.calls i = some (.insert userId payload)) (hnew : s.find payload.expoPushToken = none) :
      Effect s (.advance i now newId) (s.committed i userId payload.expoPushToken newId
        (s.rows ++ [⟨newId, userId, payload.expoPushToken, payload.platform, true, now, now⟩]))

theorem effect_of_step {l : DeviceLabel ι} (h : s.step l = some t) : s.Effect l t := by
  cases l with
  | start i userId payload =>
    simp only [step] at h
    split at h
    · cases h
      exact .silent i _ (by simp)
    · cases h
  | advance i now newId =>
    simp only [step] at h
    split at h
    · rename_i userId payload hi
      split at h
      · rename_i existing hfind
        cases h
        refine .silent i _ ?_
        rintro _ _ _ ⟨⟩
        exact ⟨List.mem_of_find?_eq_some hfind, of_decide_eq_true (List.find?_some hfind :)⟩
      · cases h
        exact .silent i _ (by simp)
    · rename_i userId payload existing hi
      cases h
      exact .update now newId hi
    · rename_i userId payload hi
      split at h
      · cases h
        exact .silent i _ (by simp)
      · rename_i hfind
        cases h
        exact .insert now newId hi hfind
    · split at h
      · cases h
        exact .silent i _ (by simp)
      · cases h
        exact .silent i _ (by simp)
    · cases h

/-- The table: each token and each id is there once, each device is active and under a user who
    registered it, no device is lost, and a call that is to update has loaded one of them. -/
structure Table (s : DeviceState ι) : Prop where
  ids : (s.rows.map DeviceToken.id).Nodup
  tokens : (s.rows.map DeviceToken.expoPushToken).Nodup
  active : ∀ r ∈ s.rows, r.isActive = true
  registered : ∀ r ∈ s.rows, (r.expoPushToken, r.userId) ∈ s.registered
  kept : ∀ token userId, (token, userId) ∈ s.registered → ∃ r ∈ s.rows, r.expoPushToken = token
  loaded : ∀ i userId payload existing, s.calls i = some (.update userId payload existing) →
    ∃ r ∈ s.rows, r.id = existing.id ∧ r.expoPushToken = payload.expoPushToken

/-- The calls after a step of one of them. -/
theorem calls_goto {i j : ι} {c : Registration} {c' : Option Registration} (h : (s.goto i c).calls j = c') :
    (j = i ∧ some c = c') ∨ s.calls j = c' := by
  change Function.update s.calls i (some c) j = c' at h
  by_cases hji : j = i
  · subst hji
    rw [Function.update_self] at h
    exact .inl ⟨rfl, h⟩
  · rw [Function.update_of_ne hji] at h
    exact .inr h

theorem Table.step (ht : s.Table) {l : DeviceLabel ι} (hfresh : s.FreshIds l) (h : s.Effect l t) :
    t.Table := by
  cases h with
  | silent i c hc =>
    refine ⟨ht.ids, ht.tokens, ht.active, ht.registered, ht.kept, fun j userId payload existing hj => ?_⟩
    rcases calls_goto hj with ⟨-, hcall⟩ | hold
    · obtain ⟨hmem, htoken⟩ := hc userId payload existing (Option.some.inj hcall)
      exact ⟨existing, hmem, rfl, htoken⟩
    · exact ht.loaded j userId payload existing hold
  | @update i userId payload existing now newId hi =>
    obtain ⟨row, hrow, hid, htoken⟩ := ht.loaded i userId payload existing hi
    have hids := map_modify_of_eq (updated_id existing · userId payload now) existing.id s.rows
    have htokens :=
      map_modify_of_eq (updated_expoPushToken existing · userId payload now) existing.id s.rows
    have hcolumn : ∀ token, (∃ r ∈ s.rows, r.expoPushToken = token) →
        ∃ r ∈ Keyed.modify DeviceToken.id existing.id (existing.updated userId payload now) s.rows,
          r.expoPushToken = token := by
      intro token htok
      rw [← List.mem_map] at htok ⊢
      rwa [htokens]
    refine ⟨?_, ?_, fun r hr => ?_, fun r hr => ?_, fun token u hmem => ?_, fun j u p e hj => ?_⟩
    · exact hids.symm ▸ ht.ids
    · exact htokens.symm ▸ ht.tokens
    · rcases mem_modify.mp hr with ⟨old, hold, -, rfl⟩ | ⟨hold, -⟩
      · exact updated_isActive (ht.active old hold) ..
      · exact ht.active r hold
    · rcases mem_modify.mp hr with ⟨old, hold, holdId, rfl⟩ | ⟨hold, -⟩
      · obtain rfl : old = row := List.inj_on_of_nodup_map ht.ids hold hrow (holdId.trans hid.symm)
        rw [updated_expoPushToken, updated_userId]
        split_ifs with hsame
        · exact List.mem_append_left _ (ht.registered old hold)
        · rw [htoken]
          exact List.mem_append_right _ List.mem_cons_self
      · exact List.mem_append_left _ (ht.registered r hold)
    · apply hcolumn
      rcases List.mem_append.mp hmem with hold | hnew
      · exact ht.kept token u hold
      · obtain ⟨rfl, rfl⟩ := Prod.mk.inj (List.mem_singleton.mp hnew)
        exact ⟨row, hrow, htoken⟩
    · rcases calls_goto hj with ⟨-, hcall⟩ | hold
      · cases hcall
      · obtain ⟨r, hr, hrid, hrtoken⟩ := ht.loaded j u p e hold
        by_cases hmod : r.id = existing.id
        · exact ⟨_, mem_modify.mpr (.inl ⟨r, hr, hmod, rfl⟩), hrid, hrtoken⟩
        · exact ⟨r, mem_modify.mpr (.inr ⟨hr, hmod⟩), hrid, hrtoken⟩
  | @insert i userId payload now newId hi hnew =>
    have hnone : ∀ r ∈ s.rows, r.expoPushToken ≠ payload.expoPushToken := fun r hr => by
      simpa using List.find?_eq_none.mp hnew r hr
    refine ⟨?_, ?_, fun r hr => ?_, fun r hr => ?_, fun token u hmem => ?_, fun j u p e hj => ?_⟩
    · show ((s.rows ++ _).map DeviceToken.id).Nodup
      rw [List.map_append, List.nodup_append]
      refine ⟨ht.ids, by simp, fun a ha b hb => ?_⟩
      obtain ⟨r, hr, rfl⟩ := List.mem_map.mp ha
      rw [List.map_singleton, List.mem_singleton] at hb
      rw [hb]
      exact hfresh r hr
    · show ((s.rows ++ _).map DeviceToken.expoPushToken).Nodup
      rw [List.map_append, List.nodup_append]
      refine ⟨ht.tokens, by simp, fun a ha b hb => ?_⟩
      obtain ⟨r, hr, rfl⟩ := List.mem_map.mp ha
      rw [List.map_singleton, List.mem_singleton] at hb
      rw [hb]
      exact hnone r hr
    · rcases List.mem_append.mp hr with hold | hlast
      · exact ht.active r hold
      · rw [List.mem_singleton.mp hlast]
    · rcases List.mem_append.mp hr with hold | hlast
      · exact List.mem_append_left _ (ht.registered r hold)
      · rw [List.mem_singleton.mp hlast]
        exact List.mem_append_right _ List.mem_cons_self
    · rcases List.mem_append.mp hmem with hold | hlast
      · obtain ⟨r, hr, hrtoken⟩ := ht.kept token u hold
        exact ⟨r, List.mem_append_left _ hr, hrtoken⟩
      · obtain ⟨rfl, rfl⟩ := Prod.mk.inj (List.mem_singleton.mp hlast)
        exact ⟨_, List.mem_append_right _ List.mem_cons_self, rfl⟩
    · rcases calls_goto hj with ⟨-, hcall⟩ | hold
      · cases hcall
      · obtain ⟨r, hr, hrest⟩ := ht.loaded j u p e hold
        exact ⟨r, List.mem_append_left _ hr, hrest⟩

/-! ## Whose device -/

/-- Each device is that of the last user who registered it. -/
def Owned (s : DeviceState ι) : Prop :=
  ∀ token userId, s.OwnedBy token userId ↔ lastFor s.registered token = some userId

omit [DecidableEq ι] in
/-- A device has one user. -/
theorem Table.ownedBy_iff (ht : s.Table) {r : DeviceToken} (hr : r ∈ s.rows) (userId : UUID) :
    s.OwnedBy r.expoPushToken userId ↔ r.userId = userId := by
  constructor
  · rintro ⟨r', hr', htoken, rfl⟩
    rw [List.inj_on_of_nodup_map ht.tokens hr' hr htoken]
  · rintro rfl
    exact ⟨r, hr, rfl, rfl⟩

/-- A commit leaves the device with the user who registers it exactly when the row is current. -/
theorem ownedBy_committed_iff (ht : s.Table) {i : ι} {userId : UUID} {payload : DeviceRegisterIn}
    {existing : DeviceToken} (now : ℤ) (newId : UUID)
      (hi : s.calls i = some (.update userId payload existing)) :
    (s.committed i userId payload.expoPushToken existing.id
        (Keyed.modify DeviceToken.id existing.id (existing.updated userId payload now) s.rows)).OwnedBy
      payload.expoPushToken userId ↔ s.Current (.advance i now newId) := by
  obtain ⟨row, hrow, hid, htoken⟩ := ht.loaded i userId payload existing hi
  have hsame : ∀ r ∈ s.rows, r.expoPushToken = payload.expoPushToken ∨ r.id = existing.id → r = row := by
    rintro r hr (h | h)
    · exact List.inj_on_of_nodup_map ht.tokens hr hrow (h.trans htoken.symm)
    · exact List.inj_on_of_nodup_map ht.ids hr hrow (h.trans hid.symm)
  simp only [Current, hi]
  constructor
  · rintro ⟨r, hr, hrtoken, hruser⟩
    rcases mem_modify.mp hr with ⟨old, hold, holdId, rfl⟩ | ⟨hold, hne⟩
    · obtain rfl := hsame old hold (.inr holdId)
      rw [updated_userId] at hruser
      split_ifs at hruser with huser
      · refine .inr fun r hr hrid => ?_
        rw [hsame r hr (.inr hrid), hruser]
      · exact .inl huser
    · exact absurd (hsame r hold (.inl hrtoken) ▸ hid) hne
  · intro hcurrent
    refine ⟨_, mem_modify.mpr (.inl ⟨row, hrow, hid, rfl⟩), htoken, ?_⟩
    rw [updated_userId]
    split_ifs with huser
    · exact (hcurrent.resolve_left (not_not.mpr huser)) row hrow hid
    · rfl

theorem Owned.step (ho : s.Owned) (ht : s.Table) {l : DeviceLabel ι} (hcurrent : s.Current l)
    (ht' : t.Table) (h : s.Effect l t) : t.Owned := by
  cases h with
  | silent => exact ho
  | @update i userId payload existing now newId hi =>
    intro token u
    have hnew := (ownedBy_committed_iff ht now newId hi).mpr hcurrent
    show _ ↔ lastFor (s.registered ++ [(payload.expoPushToken, userId)]) token = some u
    rw [lastFor_append]
    split_ifs with htoken
    · obtain ⟨r, hr, hrtoken, hruser⟩ := hnew
      have hiff := ht'.ownedBy_iff hr u
      rw [hrtoken, hruser] at hiff
      rw [← htoken, Option.some.injEq]
      exact hiff
    · rw [← ho token u]
      obtain ⟨row, hrow, hid, hrow'⟩ := ht.loaded i userId payload existing hi
      constructor
      · rintro ⟨r, hr, rfl, rfl⟩
        rcases mem_modify.mp hr with ⟨old, hold, holdId, rfl⟩ | ⟨hold, -⟩
        · obtain rfl := List.inj_on_of_nodup_map ht.ids hold hrow (holdId.trans hid.symm)
          exact absurd hrow'.symm htoken
        · exact ⟨r, hold, rfl, rfl⟩
      · rintro ⟨r, hr, rfl, rfl⟩
        refine ⟨r, mem_modify.mpr (.inr ⟨hr, fun hrid => ?_⟩), rfl, rfl⟩
        obtain rfl := List.inj_on_of_nodup_map ht.ids hr hrow (hrid.trans hid.symm)
        exact htoken hrow'.symm
  | @insert i userId payload now newId hi hnew =>
    intro token u
    show _ ↔ lastFor (s.registered ++ [(payload.expoPushToken, userId)]) token = some u
    rw [lastFor_append]
    split_ifs with htoken
    · have hlast :
        (⟨newId, userId, payload.expoPushToken, payload.platform, true, now, now⟩ : DeviceToken) ∈
          s.rows ++ [⟨newId, userId, payload.expoPushToken, payload.platform, true, now, now⟩] :=
        List.mem_append_right _ List.mem_cons_self
      rw [← htoken, Option.some.injEq]
      exact ht'.ownedBy_iff hlast u
    · rw [← ho token u]
      constructor
      · rintro ⟨r, hr, rfl, rfl⟩
        rcases List.mem_append.mp hr with hold | hlast
        · exact ⟨r, hold, rfl, rfl⟩
        · rw [List.mem_singleton.mp hlast] at htoken
          exact absurd rfl htoken
      · rintro ⟨r, hr, rfl, rfl⟩
        exact ⟨r, List.mem_append_left _ hr, rfl, rfl⟩

omit [DecidableEq ι] in
/-- The tokens of a user are those of their devices, each once. -/
theorem Table.activeTokens_spec (ht : s.Table) (userId : UUID) :
    (activeTokens s.rows userId).Nodup ∧
      ∀ token, token ∈ activeTokens s.rows userId ↔ s.OwnedBy token userId := by
  refine ⟨ht.tokens.sublist (List.filter_sublist.map _), fun token => ?_⟩
  unfold activeTokens OwnedBy
  rw [List.mem_map]
  constructor
  · rintro ⟨r, hr, rfl⟩
    obtain ⟨hmem, hcond⟩ := List.mem_filter.mp hr
    exact ⟨r, hmem, rfl, (of_decide_eq_true hcond).1⟩
  · rintro ⟨r, hr, rfl, huser⟩
    exact ⟨r, List.mem_filter.mpr ⟨hr, decide_eq_true ⟨huser, ht.active r hr⟩⟩, rfl⟩

omit [DecidableEq ι] in
theorem initial_table : (initial : DeviceState ι).Table where
  ids := List.nodup_nil
  tokens := List.nodup_nil
  active := by simp [initial]
  registered := by simp [initial]
  kept := by simp [initial]
  loaded := by simp [initial]

omit [DecidableEq ι] in
theorem initial_owned : (initial : DeviceState ι).Owned := by
  intro token userId
  simp [OwnedBy, initial]

end DeviceState

/-! ## Pushes -/

theorem map_to_buildMessages (n : Notification) (tokens : List String) :
    (buildMessages n tokens).map PushMessage.to_ = tokens := by
  unfold buildMessages
  rw [List.map_map]
  exact List.map_id tokens

/-- What is posted, and when the channel reports success. -/
theorem expoPushSend_eq (post : List PushMessage → ExpoReply) (rows : List DeviceToken) (n : Notification) :
    ((expoPushSend post rows n).1.getD []).map PushMessage.to_ = activeTokens rows n.userId ∧
      (∀ m ∈ (expoPushSend post rows n).1.getD [], m = ⟨m.to_, n.title, n.body, n.payload, "default"⟩) ∧
      ((expoPushSend post rows n).2 = true ↔
        activeTokens rows n.userId ≠ [] ∧
          post (buildMessages n (activeTokens rows n.userId)) = .response 200 (.json false)) := by
  unfold expoPushSend
  by_cases hnone : activeTokens rows n.userId = []
  · simp [hnone]
  · simp only [hnone, if_false]
    cases hpost : post (buildMessages n (activeTokens rows n.userId)) with
    | httpError =>
      refine ⟨map_to_buildMessages n _, fun m hm => ?_, by simp⟩
      obtain ⟨token, -, rfl⟩ := List.mem_map.mp hm
      rfl
    | response statusCode body =>
      refine ⟨map_to_buildMessages n _, fun m hm => ?_, by simp [hnone]⟩
      obtain ⟨token, -, rfl⟩ := List.mem_map.mp hm
      rfl

variable [DecidableEq ι]

/-- In every interleaving of registrations, where generated ids are new ones: a push goes to devices
    that its user has registered, once to each, and to no device of another user; a commit gives the
    device to its user exactly when the row is current; and when all commits are like that, a push goes
    to exactly the devices that its user was the last to register. -/
theorem devices_of_run (post : List PushMessage → ExpoReply) {s : DeviceState ι}
    (hrun : Run (fun s l t => DeviceState.step s l = some t) DeviceState.FreshIds DeviceState.initial s) :
    (∀ n, (((expoPushSend post s.rows n).1.getD []).map PushMessage.to_).Nodup ∧
      ∀ m ∈ (expoPushSend post s.rows n).1.getD [], (m.to_, n.userId) ∈ s.registered ∧
        ∀ userId, userId ≠ n.userId → m.to_ ∉ activeTokens s.rows userId) ∧
    (∀ i now newId t, s.step (.advance i now newId) = some t →
      ∀ userId payload existing, s.calls i = some (.update userId payload existing) →
        (t.OwnedBy payload.expoPushToken userId ↔ s.Current (.advance i now newId))) ∧
    (Run (fun s l t => DeviceState.step s l = some t) (fun s l => s.FreshIds l ∧ s.Current l)
        DeviceState.initial s →
      ∀ n token, token ∈ ((expoPushSend post s.rows n).1.getD []).map PushMessage.to_ ↔
        lastFor s.registered token = some n.userId) := by
  have ht : s.Table := hrun.invariant DeviceState.initial_table
    fun _ _ _ ht hfresh hstep => ht.step hfresh (DeviceState.effect_of_step hstep)
  refine ⟨fun n => ?_, fun i now newId t hstep userId payload existing hi => ?_, fun hcurrent n token => ?_⟩
  · obtain ⟨hto, -, -⟩ := expoPushSend_eq post s.rows n
    obtain ⟨hnodup, hmem⟩ := ht.activeTokens_spec n.userId
    refine ⟨hto ▸ hnodup, fun m hm => ?_⟩
    have htoken : m.to_ ∈ activeTokens s.rows n.userId := hto ▸ List.mem_map_of_mem hm
    obtain ⟨r, hr, hrtoken, hruser⟩ := (hmem m.to_).mp htoken
    refine ⟨hruser ▸ hrtoken ▸ ht.registered r hr, fun userId hne hother => ?_⟩
    obtain ⟨r', hr', hrtoken', hruser'⟩ := ((ht.activeTokens_spec userId).2 m.to_).mp hother
    obtain rfl := List.inj_on_of_nodup_map ht.tokens hr hr' (hrtoken.trans hrtoken'.symm)
    exact hne (hruser'.symm.trans hruser)
  · simp only [DeviceState.step, hi] at hstep
    cases hstep
    exact DeviceState.ownedBy_committed_iff ht now newId hi
  · have hstep : ∀ (s : DeviceState ι) (l : DeviceLabel ι) (t : DeviceState ι), s.Table ∧ s.Owned →
        s.FreshIds l ∧ s.Current l → s.step l = some t → t.Table ∧ t.Owned := by
      rintro s l t ⟨ht, ho⟩ ⟨hfresh, hcur⟩ hstep
      have heffect := DeviceState.effect_of_step hstep
      have ht' := ht.step hfresh heffect
      exact ⟨ht', ho.step ht hcur ht' heffect⟩
    have howned := hcurrent.invariant ⟨DeviceState.initial_table, DeviceState.initial_owned⟩ hstep
    rw [(expoPushSend_eq post s.rows n).1, (ht.activeTokens_spec n.userId).2, howned.2]

instance (s : DeviceState ι) : (l : DeviceLabel ι) → Decidable (s.FreshIds l)
  | .start .. => isTrue trivial
  | .advance _ _ newId => inferInstanceAs (Decidable (∀ r ∈ s.rows, r.id ≠ newId))

/-- Expo takes the batch. -/
def expoTakes (_ : List PushMessage) : ExpoReply := .response 200 (.json false)

/-- A phone that changes hands: while its first user registers it again, the second one does. -/
def phoneChangesHands : List (DeviceLabel (Fin 3)) :=
  [.start 0 1 ⟨"phone", .ios⟩, .advance 0 10 7, .advance 0 11 7, .advance 0 12 8,
    .start 1 1 ⟨"phone", .ios⟩,
    .advance 1 20 9, .start 2 2 ⟨"phone", .ios⟩, .advance 2 21 9, .advance 2 22 9, .advance 1 23 9]

theorem devices_of_run_sample : ∃ s : DeviceState (Fin 3),
    phoneChangesHands.foldlM (fun (s : DeviceState (Fin 3)) l => if s.FreshIds l then s.step l else none)
      DeviceState.initial = some s ∧
    (∀ n, (((expoPushSend expoTakes s.rows n).1.getD []).map PushMessage.to_).Nodup ∧
      ∀ m ∈ (expoPushSend expoTakes s.rows n).1.getD [], (m.to_, n.userId) ∈ s.registered ∧
        ∀ userId, userId ≠ n.userId → m.to_ ∉ activeTokens s.rows userId) ∧
    (∀ i now newId t, s.step (.advance i now newId) = some t →
      ∀ userId payload existing, s.calls i = some (.update userId payload existing) →
        (t.OwnedBy payload.expoPushToken userId ↔ s.Current (.advance i now newId))) ∧
    (Run (fun s l t => DeviceState.step s l = some t) (fun s l => s.FreshIds l ∧ s.Current l)
        DeviceState.initial s →
      ∀ n token, token ∈ ((expoPushSend expoTakes s.rows n).1.getD []).map PushMessage.to_ ↔
        lastFor s.registered token = some n.userId) := by
  obtain ⟨s, hs⟩ := Option.isSome_iff_exists.mp (show (phoneChangesHands.foldlM
    (fun (s : DeviceState (Fin 3)) l => if s.FreshIds l then s.step l else none)
      DeviceState.initial).isSome by decide +kernel)
  exact ⟨s, hs, devices_of_run expoTakes (Run.of_foldlM_guarded _ hs)⟩

end Nivara.Notifications
