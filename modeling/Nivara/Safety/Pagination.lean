import Nivara.Lib.Paging
import Nivara.Safety.RiskGuardian

/-!
# Pages of notifications and of the audit log

`list_notifications` (`api/notifications.py`, lines 33–75), `AuditLogQuery.page`
(`safety/audit_query.py`, lines 38–63) and `persist_alerts` (`safety/risk_guardian.py`, lines 336–357).
Both queries order by a time alone.

* The rows of a table have different ids. What the database returns for a query without its
  offset and limit is any list of its rows in that order.
* `now()` is the time of the transaction.

Results:

* `persistAlerts_createdAt`: the alerts of one run have one creation time.
* `paginates_iff`: the pages of a user have each row once exactly when no time has rows on two
  pages.
* `oneRun_repeats`: two alerts of one run, one a page.
-/

namespace Nivara.Safety

open Paging

/-! ## Model -/

/-- A row of `notifications`. -/
structure Notification where
  id : UUID
  userId : UUID
  notificationType : String
  title : String
  body : String
  payload : AlertPayload
  sentAt : Option ℤ
  readAt : Option ℤ
  createdAt : ℤ
  deriving DecidableEq

/-- A row of `audit_log`, without its data, address and user agent. -/
structure AuditLog where
  id : UUID
  userId : Option UUID
  eventType : String
  occurredAt : ℤ
  deriving DecidableEq

/-- `persist_alerts`: the rows that it adds, with the ids and the time that they get. -/
def persistAlerts (now : ℤ) (newId : ℕ → UUID) (alerts : List AlertEvent) : List Notification :=
  alerts.zipIdx.map fun (alert, i) =>
    { id := newId i
      userId := alert.userId
      notificationType := alert.notificationType
      title := alert.title
      body := alert.body
      payload := alert.payload
      sentAt := none
      readAt := none
      createdAt := now }

/-- `NotificationListResponse` and `AuditLogPage`. -/
structure Page (α : Type) where
  items : List α
  page : ℕ
  perPage : ℕ
  total : ℕ
  deriving DecidableEq

/-- The filters of `list_notifications`. -/
def notificationFilter (userId : UUID) (read : Option Bool) (n : Notification) : Bool :=
  n.userId = userId &&
    match read with
    | some false => n.readAt.isNone
    | some true => n.readAt.isSome
    | none => true

/-- The filters of `AuditLogQuery.page`. -/
def auditFilter (userId : UUID) (eventType : Option String) (row : AuditLog) : Bool :=
  row.userId = some userId && eventType.all fun e => row.eventType = e

/-- The two queries: the count, and the rows behind the offset up to the limit of what the database
    makes of `ORDER BY`. -/
def queryPage {α : Type} (table : List α) (keep : α → Bool) (order : List α) (page perPage : ℕ) :
    Page α where
  items := (order.drop ((page - 1) * perPage)).take perPage
  page := page
  perPage := perPage
  total := (table.filter keep).length

/-- `list_notifications`. -/
def listNotifications (table : List Notification) (order : List Notification) (userId : UUID)
    (page perPage : ℕ) (read : Option Bool) : Page Notification :=
  queryPage table (notificationFilter userId read) order page perPage

/-- `AuditLogQuery.page`. -/
def auditLogPage (table : List AuditLog) (order : List AuditLog) (userId : UUID) (page perPage : ℕ)
    (eventType : Option String) : Page AuditLog :=
  queryPage table (auditFilter userId eventType) order page perPage

/-! ## Traversals -/

section

variable {α : Type} {key : α → ℤ} {table : List α} {keep : α → Bool} {perPage : ℕ}

/-- The items of the pages 1, 2, … up to the number of pages that the first one implies. -/
def traversal (query : ℕ → Page α) : List α :=
  (List.range (pageCount (query 1).perPage (query 1).total)).flatMap fun p => (query (p + 1)).items

/-- The pages of a query together have each of its rows once, whatever the order of the rows of
    equal times in each request. -/
def Paginates (key : α → ℤ) (rows : List α) (query : (order : List α) → ℕ → Page α) : Prop :=
  ∀ orders : ℕ → List α, (∀ page, Ordered key rows (orders page)) →
    (traversal fun page => query (orders page) page).Perm rows

theorem paginates_queryPage_iff [DecidableEq α] (hnodup : table.Nodup) (hperPage : 0 < perPage) :
    Paginates key (table.filter keep) (fun order page => queryPage table keep order page perPage) ↔
      ∀ a ∈ table.filter keep, OnOnePage key perPage (table.filter keep) a := by
  rw [← pages_perm_iff (hnodup.filter keep) hperPage]
  have htraversal : ∀ orders : ℕ → List α,
      (traversal fun page => queryPage table keep (orders page) page perPage) =
        pages perPage (table.filter keep).length fun p => orders (p + 1) := fun orders => rfl
  constructor
  · intro h orders horders
    have hpages := h (fun page => orders (page - 1)) fun page => horders _
    rwa [htraversal] at hpages
  · intro h orders horders
    rw [htraversal]
    exact h _ fun p => horders _

end

/-! ## Main result -/

/-- The alerts of one run are stored with the time of its transaction. -/
theorem persistAlerts_createdAt {now : ℤ} {newId : ℕ → UUID} {alerts : List AlertEvent} {n : Notification}
    (h : n ∈ persistAlerts now newId alerts) : n.createdAt = now := by
  obtain ⟨p, -, rfl⟩ := List.mem_map.mp h
  rfl

/-- So several of them for one user are on one page, or their order is open. -/
theorem persistAlerts_ordered {now : ℤ} {newId : ℕ → UUID} {alerts : List AlertEvent}
    {order : List Notification} (h : order.Perm (persistAlerts now newId alerts)) :
    Ordered Notification.createdAt (persistAlerts now newId alerts) order where
  perm := h
  sorted := List.pairwise_of_forall_mem_list fun a ha b hb => by
    rw [persistAlerts_createdAt (h.mem_iff.mp ha), persistAlerts_createdAt (h.mem_iff.mp hb)]

/-- The pages of the notifications, and those of the audit log, have each row of the user once
    exactly when no time has rows of the user on two pages. -/
theorem paginates_iff (notifications : List Notification) (auditLog : List AuditLog) (userId : UUID)
    (perPage : ℕ) (read : Option Bool) (eventType : Option String) (hperPage : 1 ≤ perPage ∧ perPage ≤ 100)
    (hnotifications : (notifications.map Notification.id).Nodup)
    (hauditLog : (auditLog.map AuditLog.id).Nodup) :
    (Paginates Notification.createdAt (notifications.filter (notificationFilter userId read))
        (fun order page => listNotifications notifications order userId page perPage read) ↔
      ∀ n ∈ notifications.filter (notificationFilter userId read),
        OnOnePage Notification.createdAt perPage
          (notifications.filter (notificationFilter userId read)) n) ∧
    (Paginates AuditLog.occurredAt (auditLog.filter (auditFilter userId eventType))
        (fun order page => auditLogPage auditLog order userId page perPage eventType) ↔
      ∀ row ∈ auditLog.filter (auditFilter userId eventType),
        OnOnePage AuditLog.occurredAt perPage (auditLog.filter (auditFilter userId eventType)) row) :=
  ⟨paginates_queryPage_iff (.of_map _ hnotifications) hperPage.1,
    paginates_queryPage_iff (.of_map _ hauditLog) hperPage.1⟩

/-- Two alerts of one run for the user 7. -/
def twoAlerts : List Notification :=
  persistAlerts 0 (fun i => i)
    [⟨7, "system", "Earnings in 1 days: AAPL", "", .earnings "AAPL" "2026-01-06" 1⟩,
      ⟨7, "system", "Earnings in 1 days: MSFT", "", .earnings "MSFT" "2026-01-06" 1⟩]

theorem paginates_iff_sample :
    Paginates Notification.createdAt (twoAlerts.filter (notificationFilter 7 none))
      (fun order page => listNotifications twoAlerts order 7 page 20 none) :=
  (paginates_iff twoAlerts [] 7 20 none none (by decide) (by decide +kernel) (by decide)).1.mpr
    (by decide +kernel)

/-- One alert a page: the second page repeats the first alert, and the other one is on neither. -/
theorem oneRun_repeats :
    ¬ Paginates Notification.createdAt (twoAlerts.filter (notificationFilter 7 none))
      (fun order page => listNotifications twoAlerts order 7 page 1 none) := by
  intro h
  have hfilter : twoAlerts.filter (notificationFilter 7 none) = twoAlerts := by decide +kernel
  rw [hfilter] at h
  have hperm := h (fun page => if page = 1 then twoAlerts else twoAlerts.reverse) fun page => by
    split_ifs
    · exact persistAlerts_ordered (.refl _)
    · exact persistAlerts_ordered (List.reverse_perm _)
  exact absurd hperm (by decide +kernel)

end Nivara.Safety
