import Nivara.Auth.SingleUse
import Nivara.Common.Text
import Nivara.Common.Time
import Nivara.Lib.ExpiringKeys

/-!
# Websocket tickets

`create_ticket`, `_consume_ticket` and the start of `ws_alerts` (`api/ws_alerts.py`, lines
63-109), as a system of connections over one Redis.

* `UUID(value)` is a parameter; it reads what `str(current_user.id)` wrote.
* A connection that is subscribed stays so here when it has ended: it was authenticated.
* `issued` is history.

Results:

* `ticketLedger_step`: each step is one of the ledger of the tickets.
* `ticketSingleUse_of_run`: a ticket authenticates one connection, and none after it has been
  consumed or has run out.
* `credentials_single_use`: refresh tokens, reset tokens and tickets together.
-/

namespace Nivara.Auth

open ExpiringKeys OneTime Transition

/-! ## Model -/

/-- `_TICKET_TTL_SECONDS`. -/
def ticketTtl : ℤ := seconds 30

/-- The key of a ticket. -/
def ticketKey (ticket : String) : String := "ws:ticket:" ++ ticket

/-- A call of `ws_alerts`, by what it does next. -/
inductive Connection
  /-- Read the query parameter. -/
  | connect
  /-- `_consume_ticket`. -/
  | consume (ticket : String)
  /-- Subscribed to the channel of the user. -/
  | subscribed (ticket : String) (userId : UUID)
  | closed (code : ℕ)
  deriving DecidableEq

structure TicketState (ι : Type) where
  clock : ℤ
  keys : Store String String ℤ
  connections : ι → Connection
  /-- The tickets that `create_ticket` has returned. -/
  issued : List String

inductive TicketLabel (ι : Type)
  | createTicket (ticket : String) (userId : UUID)
  | connect (i : ι) (ticket : Option String)
  | consume (i : ι)
  /-- Time passes. -/
  | wait (microseconds : ℕ)

variable {ι : Type}

namespace TicketState

section

variable [DecidableEq ι] (parseUuid : String → Option UUID)

def goto (s : TicketState ι) (i : ι) (c : Connection) : TicketState ι :=
  { s with connections := Function.update s.connections i c }

/-- One step of the system. -/
def step (s : TicketState ι) : TicketLabel ι → Option (TicketState ι)
  | .createTicket ticket userId =>
    some { s with
      keys := (setNxEx s.clock (ticketKey ticket) userId.str ticketTtl s.keys).1
      issued := ticket :: s.issued }
  | .connect i ticket =>
    match s.connections i with
    | .connect =>
      match ticket with
      | none => some (s.goto i (.closed 4401))
      | some ticket => some (s.goto i (if ticket = "" then .closed 4401 else .consume ticket))
    | _ => none
  | .consume i =>
    match s.connections i with
    | .consume ticket =>
      let (raw, keys) := getdel s.clock (ticketKey ticket) s.keys
      let connection : Connection :=
        match raw.bind parseUuid with
        | none => .closed 4401
        | some userId => .subscribed ticket userId
      some ({ s with keys := keys }.goto i connection)
    | _ => none
  | .wait microseconds => some { s with clock := s.clock + microseconds }

end

/-- The condition on a step: a ticket that is generated is a new one. -/
def FreshTickets (s : TicketState ι) : TicketLabel ι → Prop
  | .createTicket ticket _ => ticket ∉ s.issued
  | _ => True

/-- The connection was authenticated with the ticket. -/
def Authenticated (s : TicketState ι) (ticket : String) (i : ι) : Prop :=
  ∃ userId, s.connections i = .subscribed ticket userId

/-- The tickets. -/
def ledger (s : TicketState ι) : Ledger String ι where
  live ticket := getKey s.clock (ticketKey ticket) s.keys ≠ none
  issued ticket := ticket ∈ s.issued
  taken ticket i := s.Authenticated ticket i

/-- Before any ticket. -/
def initial (clock : ℤ) : TicketState ι := ⟨clock, fun _ => none, fun _ => .connect, []⟩

/-! ## Steps -/

theorem ticketKey_ne {ticket ticket' : String} (h : ticket' ≠ ticket) : ticketKey ticket' ≠ ticketKey ticket :=
  fun heq => h ((String.append_right_inj _).mp heq)

variable [DecidableEq ι] {parseUuid : String → Option UUID} {s t : TicketState ι}

/-- Who is authenticated after a connection has moved. -/
theorem authenticated_of_goto {i j : ι} {c : Connection} {ticket : String}
    (h : (s.goto i c).Authenticated ticket j) :
    s.Authenticated ticket j ∨ (j = i ∧ ∃ userId, c = .subscribed ticket userId) := by
  obtain ⟨userId, hj⟩ := h
  have hj' : Function.update s.connections i c j = .subscribed ticket userId := hj
  by_cases hji : j = i
  · rw [hji, Function.update_self] at hj'
    exact .inr ⟨hji, userId, hj'⟩
  · rw [Function.update_of_ne hji] at hj'
    exact .inl ⟨userId, hj'⟩

/-- A connection that is closed, or goes on to consume, is not authenticated. -/
theorem ledger_goto (i : ι) {c : Connection} (hc : ∀ ticket userId, c ≠ .subscribed ticket userId) :
    s.ledger.Step (s.goto i c).ledger := by
  refine .keep (fun _ hlive => hlive) (fun _ hissued => hissued) fun ticket j hj => ?_
  rcases authenticated_of_goto hj with hj | ⟨-, userId, heq⟩
  · exact hj
  · exact absurd heq (hc ticket userId)

omit [DecidableEq ι] in
/-- A key that is left after a `GETDEL` was there before. -/
theorem live_of_delete {ticket ticket' : String}
    (h : getKey s.clock (ticketKey ticket') (delete (ticketKey ticket) s.keys) ≠ none) :
    getKey s.clock (ticketKey ticket') s.keys ≠ none := by
  by_cases hne : ticket' = ticket
  · rw [hne, getKey_delete_self] at h
    exact absurd rfl h
  · unfold delete at h
    rwa [getKey_update_of_ne (ticketKey_ne hne)] at h

/-- Each step is one of the ledger. -/
theorem ledger_step {l : TicketLabel ι} (hfresh : s.FreshTickets l) (hstep : s.step parseUuid l = some t) :
    s.ledger.Step t.ledger := by
  unfold TicketState.step at hstep
  cases l with
  | createTicket ticket userId =>
    cases hstep
    refine .issue ticket hfresh List.mem_cons_self (fun ticket' hlive => ?_)
      (fun _ hissued => List.mem_cons_of_mem _ hissued) fun _ _ htaken => htaken
    by_cases hne : ticket' = ticket
    · exact .inr hne
    · have hlive' : getKey s.clock (ticketKey ticket')
          (setNxEx s.clock (ticketKey ticket) userId.str ticketTtl s.keys).1 ≠ none := hlive
      cases hget : getKey s.clock (ticketKey ticket) s.keys with
      | none =>
        rw [setNxEx_of_gone hget, getKey_update_of_ne (ticketKey_ne hne)] at hlive'
        exact .inl hlive'
      | some v =>
        rw [setNxEx_of_live hget] at hlive'
        exact .inl hlive'
  | connect i ticket =>
    simp only at hstep
    split at hstep
    · cases ticket with
      | none =>
        cases hstep
        exact ledger_goto i fun _ _ => Connection.noConfusion
      | some ticket =>
        cases hstep
        by_cases hempty : ticket = ""
        · rw [if_pos hempty]
          exact ledger_goto i fun _ _ => Connection.noConfusion
        · rw [if_neg hempty]
          exact ledger_goto i fun _ _ => Connection.noConfusion
    · cases hstep
  | consume i =>
    simp only at hstep
    split at hstep
    · rename_i ticket hi
      have hkept : ∀ ticket', getKey s.clock (ticketKey ticket') (delete (ticketKey ticket) s.keys) ≠ none →
          getKey s.clock (ticketKey ticket') s.keys ≠ none := fun _ => live_of_delete
      cases hparse : (getKey s.clock (ticketKey ticket) s.keys).bind parseUuid with
      | none =>
        simp only [getdel, hparse] at hstep
        cases hstep
        refine .keep hkept (fun _ hissued => hissued) fun ticket' j hj => ?_
        rcases authenticated_of_goto hj with hj | ⟨-, userId, heq⟩
        · exact hj
        · cases heq
      | some userId =>
        simp only [getdel, hparse] at hstep
        cases hstep
        obtain ⟨v, hv, -⟩ := Option.bind_eq_some_iff.mp hparse
        refine .take ticket i ?_ ?_ hkept (fun _ hissued => hissued) fun ticket' j hj => ?_
        · show getKey s.clock (ticketKey ticket) s.keys ≠ none
          rw [hv]
          exact Option.some_ne_none v
        · exact not_not.mpr getKey_delete_self
        · rcases authenticated_of_goto hj with hj | ⟨rfl, userId', heq⟩
          · exact .inl hj
          · cases heq
            exact .inr ⟨rfl, rfl⟩
    · cases hstep
  | wait microseconds =>
    cases hstep
    refine .keep (fun ticket hlive => ?_) (fun _ hissued => hissued) fun _ _ htaken => htaken
    obtain ⟨v, hv⟩ := Option.ne_none_iff_exists'.mp hlive
    have hle : s.clock ≤ s.clock + microseconds := by omega
    show getKey s.clock (ticketKey ticket) s.keys ≠ none
    rw [getKey_of_le hle hv]
    exact Option.some_ne_none v

omit [DecidableEq ι] in
theorem initial_ledger (clock : ℤ) : (initial clock : TicketState ι).ledger.Inv where
  issued_of_live := fun _ hlive => absurd rfl hlive
  issued_of_taken := by
    rintro ticket i ⟨userId, hi⟩
    cases hi
  not_taken_of_live := fun _ _ hlive => absurd rfl hlive
  unique := by
    rintro ticket i j ⟨userId, hi⟩
    cases hi

end TicketState

/-! ## Runs -/

/-- What holds of a state `s` that is reached and of a state `t` that is reached from it: a ticket
    authenticates one connection, and one that is gone in `s` none after `s`. -/
structure TicketState.SingleUse (s t : TicketState ι) : Prop where
  once : ∀ ticket i j, t.Authenticated ticket i → t.Authenticated ticket j → i = j
  spent : ∀ ticket i, s.ledger.Spent ticket → t.Authenticated ticket i → s.Authenticated ticket i

variable [DecidableEq ι]

theorem ticketSingleUse_of_run (parseUuid : String → Option UUID) (clock : ℤ) {s t : TicketState ι}
    (hrun : Run (fun s l t => TicketState.step parseUuid s l = some t) TicketState.FreshTickets
      (TicketState.initial clock) s)
    (hrun' : Run (fun s l t => TicketState.step parseUuid s l = some t) TicketState.FreshTickets s t) :
    s.SingleUse t := by
  have hstep : ∀ (s : TicketState ι) (l : TicketLabel ι) t, True → s.FreshTickets l →
      s.step parseUuid l = some t → True ∧ s.ledger.Step t.ledger :=
    fun _ _ _ _ hfresh hstep => ⟨trivial, TicketState.ledger_step hfresh hstep⟩
  obtain ⟨-, hledger, -⟩ := ledger_of_run hrun trivial (TicketState.initial_ledger clock) hstep
  obtain ⟨-, hledger', hspent⟩ := ledger_of_run hrun' trivial hledger hstep
  exact ⟨hledger'.unique, fun ticket i hgone => (hspent ticket hgone).2 i⟩

/-- In every interleaving of consumers, logouts, password changes and expiries, where fresh
    tokens are distinct: each credential is for one use. -/
theorem credentials_single_use {Password Hash Salt : Type} (H : Hasher Password Hash Salt) (hash : Hash)
    (isActive : Bool) (pwV : Option ℕ) (parseUuid : String → Option UUID) (clock : ℤ)
    (s t : Tracked Password Hash) (u v : TicketState ι)
    (hs : Run (fun s (l : Label Password Salt) t => s.step H l = some t) Tracked.FreshTokens
      (registered hash isActive pwV) s)
    (ht : Run (fun s (l : Label Password Salt) t => s.step H l = some t) Tracked.FreshTokens s t)
    (hu : Run (fun s l t => TicketState.step parseUuid s l = some t) TicketState.FreshTickets
      (TicketState.initial clock) u)
    (hv : Run (fun s l t => TicketState.step parseUuid s l = some t) TicketState.FreshTickets u v) :
    s.SingleUse t ∧ u.SingleUse v :=
  ⟨Tracked.singleUse_of_run H hash isActive pwV hs ht, ticketSingleUse_of_run parseUuid clock hu hv⟩

instance {Password Hash Salt : Type} (s : Tracked Password Hash) :
    (l : Label Password Salt) → Decidable (s.FreshTokens l)
  | .putReset token => decidable_of_iff (s.resetIssued token = false) Iff.rfl
  | .start .. | .advance .. | .dropRefresh _ | .dropReset _ => isTrue trivial

instance (s : TicketState ι) : (l : TicketLabel ι) → Decidable (s.FreshTickets l)
  | .createTicket ticket _ => decidable_of_iff (ticket ∉ s.issued) Iff.rfl
  | .connect .. | .consume _ | .wait _ => isTrue trivial

/-- The pair of a registration is refreshed by the first of two calls, and a reset token is used. -/
def sampleRefresh : List (Label String ℕ) :=
  [.advance 0 0, .advance 0 0, .start 1 (.refresh 0), .start 2 (.refresh 0), .advance 1 0, .putReset 7]

/-- The calls go on. -/
def sampleRefreshed : List (Label String ℕ) :=
  [.advance 2 0, .advance 1 0, .advance 1 0, .advance 1 0, .advance 1 0,
    .start 3 (.resetPassword 7 "new"), .advance 3 0, .advance 3 0, .advance 3 0, .advance 3 0]

/-- A ticket is asked for and consumed, and a second connection comes with it. -/
def sampleConnections : List (TicketLabel (Fin 2)) :=
  [.createTicket "abc" 1, .connect 0 (some "abc"), .wait 1000000, .consume 0]

/-- `UUID(value)` of the one user. -/
def sampleParse (text : String) : Option UUID := if text = UUID.str 1 then some 1 else none

theorem credentials_single_use_sample :
    ∃ s t u v,
      sampleRefresh.foldlM (fun (s : Tracked String (String × ℕ)) l =>
        if s.FreshTokens l then s.step sampleHasher l else none) (registered ("old", 0) true none) = some s ∧
      sampleRefreshed.foldlM (fun (s : Tracked String (String × ℕ)) l =>
        if s.FreshTokens l then s.step sampleHasher l else none) s = some t ∧
      sampleConnections.foldlM (fun (s : TicketState (Fin 2)) l =>
        if s.FreshTickets l then s.step sampleParse l else none) (TicketState.initial 0) = some u ∧
      [TicketLabel.connect 1 (some "abc"), .consume 1].foldlM (fun (s : TicketState (Fin 2)) l =>
        if s.FreshTickets l then s.step sampleParse l else none) u = some v ∧
      s.SingleUse t ∧ u.SingleUse v := by
  obtain ⟨t, ht⟩ := Option.isSome_iff_exists.mp (show ((sampleRefresh.foldlM
    (fun (s : Tracked String (String × ℕ)) l => if s.FreshTokens l then s.step sampleHasher l else none)
      (registered ("old", 0) true none)).bind (sampleRefreshed.foldlM
        (fun s l => if s.FreshTokens l then s.step sampleHasher l else none))).isSome by decide +kernel)
  obtain ⟨v, hv⟩ := Option.isSome_iff_exists.mp (show ((sampleConnections.foldlM
    (fun (s : TicketState (Fin 2)) l => if s.FreshTickets l then s.step sampleParse l else none)
      (TicketState.initial 0)).bind ([TicketLabel.connect 1 (some "abc"), .consume 1].foldlM
        (fun s l => if s.FreshTickets l then s.step sampleParse l else none))).isSome by decide +kernel)
  obtain ⟨s, hs, ht⟩ := Option.bind_eq_some_iff.mp ht
  obtain ⟨u, hu, hv⟩ := Option.bind_eq_some_iff.mp hv
  exact ⟨s, t, u, v, hs, ht, hu, hv,
    credentials_single_use sampleHasher ("old", 0) true none sampleParse 0 s t u v
      (Run.of_foldlM_guarded _ hs) (Run.of_foldlM_guarded _ ht) (Run.of_foldlM_guarded _ hu)
      (Run.of_foldlM_guarded _ hv)⟩

end Nivara.Auth
