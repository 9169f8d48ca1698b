import Nivara.Auth.Service
import Nivara.Common.Time
import Nivara.Portfolio.Summary
import Nivara.Portfolio.SyncConnection

/-!
# `POST /api/portfolio/sync`

The endpoint `sync_portfolio` over `sync_connection` (`api/portfolio.py`, lines 95-245).
Two layers handle a `BrokerAPIError`: `sync_connection` turns the one of a fetch into a
warning, and the endpoint waits for one that leaves `sync_connection`.

* `decrypt_token` and the broker client are parameters.
* `answer` is what the endpoint does with whatever the `async with adapter` block ends
  with. Opening and closing an adapter raise no `BrokerAPIError`.
* Whether the request has got the lock is given with it.

Results:

* `answer_authExpired`: an `AUTH_EXPIRED` that reaches the endpoint is recorded and answered.
* `syncPortfolio_connections`: a request that gets to `sync_connection` leaves the
  connections as they were.
* `auth_expired_not_reported`: so an `AUTH_EXPIRED` of a fetch is never answered.
-/

namespace Nivara.Portfolio

open Auth (HttpError)

/-! ## Connections and adapters -/

/-- `BrokerConnection`, with the columns that only `_build_adapter` reads. -/
structure LinkedConnection (Encrypted : Type) extends BrokerConnection where
  accessTokenEncrypted : Encrypted
  refreshTokenEncrypted : Option Encrypted
  tokenExpiresAt : Option Timestamp
  deriving DecidableEq

/-- The settings that `_build_adapter` reads. -/
structure Settings where
  alpacaBaseUrl : String
  zerodhaApiKey : Option String
  zerodhaApiSecret : Option String

/-- A broker adapter, by what it is built with. -/
inductive BrokerAdapter
  | alpaca (apiKey apiSecret baseUrl : String)
  | zerodha (apiKey apiSecret accessToken : String) (accessTokenIssuedAt : Option Timestamp)

/-- `broker_name`. -/
def BrokerAdapter.brokerName : BrokerAdapter → Broker
  | .alpaca .. => .alpaca
  | .zerodha .. => .zerodha

/-- What `_build_adapter` can raise. -/
inductive BuildError
  | staleBrokerConnection
  | http (error : HttpError)
  /-- `EncryptionError`. -/
  | encryption (message : String)

def noActiveConnection : HttpError := ⟨404, "No active broker connection"⟩
def syncInProgress : HttpError := ⟨409, "Sync already in progress for this user"⟩
def mustBeRelinked : HttpError := ⟨409, "Alpaca connection must be re-linked with per-user API keys"⟩
def zerodhaNotConfigured : HttpError := ⟨503, "Zerodha (Kite Connect) is not configured"⟩

/-- The answer to a `BrokerAPIError`. -/
def brokerSyncFailed (code : BrokerErrorCode) (message : String) : HttpError :=
  ⟨502, s!"Broker sync failed: [{code.value}] {message}"⟩

/-- `text.startswith(start)`. -/
def startsWith (text start : String) : Bool := List.isPrefixOf start.toList text.toList

section

variable {Encrypted : Type} (decryptToken : Encrypted → UUID → Except String String)

/-- `_build_adapter`. The enum of the column leaves no other broker. -/
def buildAdapter (settings : Settings) (connection : LinkedConnection Encrypted) :
    Except BuildError BrokerAdapter :=
  match connection.broker with
  | .alpaca =>
    match connection.refreshTokenEncrypted with
    | none => .error .staleBrokerConnection
    | some refreshTokenEncrypted => do
      let apiKeyId ← (decryptToken connection.accessTokenEncrypted connection.userId).mapError .encryption
      let apiSecret ← (decryptToken refreshTokenEncrypted connection.userId).mapError .encryption
      if startsWith apiKeyId "alpaca-access-" || startsWith apiSecret "alpaca-refresh-" then
        .error .staleBrokerConnection
      else .ok (.alpaca apiKeyId apiSecret settings.alpacaBaseUrl)
  | .zerodha =>
    let apiKey := settings.zerodhaApiKey.getD ""
    let apiSecret := settings.zerodhaApiSecret.getD ""
    if apiKey = "" ∨ apiSecret = "" then .error (.http zerodhaNotConfigured)
    else do
      let accessToken ← (decryptToken connection.accessTokenEncrypted connection.userId).mapError .encryption
      .ok (.zerodha apiKey apiSecret accessToken connection.tokenExpiresAt)

end

/-! ## The endpoint -/

/-- The tables of the endpoint. -/
structure Stored (Encrypted : Type) where
  database : Database
  connections : List (LinkedConnection Encrypted)

/-- How the `async with adapter` block can raise. -/
inductive SyncException
  /-- `BrokerAPIError(code, message)`, with what the session holds at that point. -/
  | brokerApi (code : BrokerErrorCode) (message : String) (pending : Database)
  | other (error : SyncError)

/-- How a request ends. -/
inductive SyncResponse
  | ok (result : SyncSummary)
  | http (error : HttpError)
  /-- Any other exception. -/
  | serverError
  deriving DecidableEq

variable {Encrypted : Type}

/-- The connection that the request is for. -/
def Stored.activeConnection (s : Stored Encrypted) (userId : UUID) : Option (LinkedConnection Encrypted) :=
  s.connections.find? fun c => c.userId = userId ∧ c.status = .active

/-- `connection.status = status`, committed. -/
def Stored.setStatus (s : Stored Encrypted) (id : UUID) (status : ConnectionStatus) : Stored Encrypted :=
  { s with connections := s.connections.map fun c => if c.id = id then { c with status := status } else c }

/-- The end of the request, by how the `async with adapter` block ends: a session that is not
    committed is rolled back. -/
def answer (s : Stored Encrypted) (connection : LinkedConnection Encrypted) :
    Except SyncException (Database × SyncSummary) → SyncResponse × Stored Encrypted
  | .ok (database, result) => (.ok result, { s with database := database })
  | .error (.brokerApi code message pending) =>
    (.http (brokerSyncFailed code message),
      if code = .authExpired then { s with database := pending }.setStatus connection.id .expired else s)
  | .error (.other _) => (.serverError, s)

section

variable (upper : String → String) (decryptToken : Encrypted → UUID → Except String String)
  (settings : Settings) (fetch : BrokerAdapter → Fetch)

/-- `async with adapter`: the exceptions of `sync_connection`. -/
def syncWithAdapter (userId : UUID) (now : Instant) (database : Database)
    (connection : LinkedConnection Encrypted) (adapter : BrokerAdapter) :
    Except SyncException (Database × SyncSummary) :=
  (syncConnection upper userId connection.id adapter.brokerName now database (fetch adapter)).mapError .other

/-- `sync_portfolio`: the answer, and what is stored then. -/
def syncPortfolio (userId : UUID) (now : Instant) (lockAcquired : Bool) (s : Stored Encrypted) :
    SyncResponse × Stored Encrypted :=
  match s.activeConnection userId with
  | none => (.http noActiveConnection, s)
  | some connection =>
    if lockAcquired = false then (.http syncInProgress, s)
    else
      match buildAdapter decryptToken settings connection with
      | .error .staleBrokerConnection => (.http mustBeRelinked, s.setStatus connection.id .expired)
      | .error (.http error) => (.http error, s)
      | .error (.encryption _) => (.serverError, s)
      | .ok adapter =>
        answer s connection (syncWithAdapter upper fetch userId now s.database connection adapter)

end

/-! ## `AUTH_EXPIRED` -/

/-- The request has recorded and answered the expired authorisation. -/
structure ReportsAuthExpired (connectionId : UUID) (message : String)
    (r : SyncResponse × Stored Encrypted) : Prop where
  status : ∀ c ∈ r.2.connections, c.id = connectionId → c.status = .expired
  response : r.1 = .http (brokerSyncFailed .authExpired message)

/-- A sync in which one of the two calls of the adapter is made and raises `AUTH_EXPIRED`. The
    orders are asked for when the positions are through. -/
structure AuthExpiredSync (upper : String → String) (decryptToken : Encrypted → UUID → Except String String)
    (settings : Settings) (fetch : BrokerAdapter → Fetch) (userId : UUID) (s : Stored Encrypted)
    (connection : LinkedConnection Encrypted) (adapter : BrokerAdapter) (message : String) : Prop where
  selected : s.activeConnection userId = some connection
  built : buildAdapter decryptToken settings connection = .ok adapter
  raises : (fetch adapter).getPositions = .error (.brokerApi .authExpired message) ∨
    PositionsAccepted upper connection.id adapter.brokerName s.database (fetch adapter).getPositions ∧
      (fetch adapter).getOrders = .error (.brokerApi .authExpired message)

variable {upper : String → String} {decryptToken : Encrypted → UUID → Except String String}
  {settings : Settings} {fetch : BrokerAdapter → Fetch} {userId : UUID} {now : Instant}
  {s : Stored Encrypted} {connection : LinkedConnection Encrypted} {adapter : BrokerAdapter}

/-- The endpoint would do what is expected of it. -/
theorem answer_authExpired (s : Stored Encrypted) (connection : LinkedConnection Encrypted)
    (message : String) (pending : Database) :
    ReportsAuthExpired connection.id message
      (answer s connection (.error (.brokerApi .authExpired message pending))) := by
  refine ⟨fun c hc hid => ?_, rfl⟩
  have hmem : c ∈ s.connections.map
      fun c => if c.id = connection.id then { c with status := .expired } else c := hc
  obtain ⟨c', -, rfl⟩ := List.mem_map.mp hmem
  by_cases hid' : c'.id = connection.id
  · rw [if_pos hid']
  · rw [if_neg hid'] at hid
    exact absurd hid hid'

variable (upper fetch) in
/-- The block ends with a summary or with an exception that is no `BrokerAPIError`. -/
theorem syncWithAdapter_cases (userId : UUID) (now : Instant) (database : Database)
    (connection : LinkedConnection Encrypted) (adapter : BrokerAdapter) :
    (∃ r, syncWithAdapter upper fetch userId now database connection adapter = .ok r) ∨
      ∃ e, syncWithAdapter upper fetch userId now database connection adapter = .error (.other e) := by
  unfold syncWithAdapter
  cases syncConnection upper userId connection.id adapter.brokerName now database (fetch adapter) with
  | ok r => exact .inl ⟨r, rfl⟩
  | error e => exact .inr ⟨e, rfl⟩

theorem syncPortfolio_eq_answer (hconnection : s.activeConnection userId = some connection)
    (hadapter : buildAdapter decryptToken settings connection = .ok adapter) :
    syncPortfolio upper decryptToken settings fetch userId now true s =
      answer s connection (syncWithAdapter upper fetch userId now s.database connection adapter) := by
  unfold syncPortfolio
  simp only [hconnection, hadapter, Bool.true_eq_false, if_false]

/-- A request that gets to `sync_connection` changes no connection. -/
theorem syncPortfolio_connections (hconnection : s.activeConnection userId = some connection)
    (hadapter : buildAdapter decryptToken settings connection = .ok adapter) :
    (syncPortfolio upper decryptToken settings fetch userId now true s).2.connections = s.connections := by
  rw [syncPortfolio_eq_answer hconnection hadapter]
  rcases syncWithAdapter_cases upper fetch userId now s.database connection adapter with
    ⟨r, hr⟩ | ⟨e, he⟩
  · rw [hr]
    rfl
  · rw [he]
    rfl

/-- It is answered with a summary or as a server error. -/
theorem syncPortfolio_response (hconnection : s.activeConnection userId = some connection)
    (hadapter : buildAdapter decryptToken settings connection = .ok adapter) (error : HttpError) :
    (syncPortfolio upper decryptToken settings fetch userId now true s).1 ≠ .http error := by
  rw [syncPortfolio_eq_answer hconnection hadapter]
  rcases syncWithAdapter_cases upper fetch userId now s.database connection adapter with
    ⟨r, hr⟩ | ⟨e, he⟩
  · rw [hr]
    exact SyncResponse.noConfusion
  · rw [he]
    exact SyncResponse.noConfusion

/-- The warnings of a sync that returns hold those of its two fetches. -/
theorem fetch_warnings_of_syncConnection {database database' : Database} {conn : UUID} {broker : Broker}
    {f : Fetch} {result : SyncSummary}
    (h : syncConnection upper userId conn broker now database f = .ok (database', result)) :
    ∃ ps os w w', fetched "positions_fetch_failed" f.getPositions = .ok (ps, w) ∧
      fetched "orders_fetch_failed" f.getOrders = .ok (os, w') ∧ w ⊆ result.warnings ∧
      w' ⊆ result.warnings := by
  unfold syncConnection at h
  obtain ⟨⟨ps, w⟩, hf, h⟩ := Loop.of_bind_eq_ok h
  obtain ⟨⟨db₁, p⟩, -, h⟩ := Loop.of_bind_eq_ok h
  obtain ⟨⟨os, w'⟩, hg, h⟩ := Loop.of_bind_eq_ok h
  obtain ⟨⟨db₂, o⟩, -, h⟩ := Loop.of_bind_eq_ok h
  cases h
  refine ⟨ps, os, w, w', hf, hg, fun x hx => ?_, fun x hx => ?_⟩
  · exact List.mem_append_left _ (List.mem_append_left _ (List.mem_append_left _ hx))
  · exact List.mem_append_left _ (List.mem_append_right _ hx)

/-- A success summary has the expired authorisation among its warnings. -/
theorem AuthExpiredSync.warning {message : String} {result : SyncSummary}
    (h : AuthExpiredSync upper decryptToken settings fetch userId s connection adapter message)
    (hok : (syncPortfolio upper decryptToken settings fetch userId now true s).1 = .ok result) :
    s!"positions_fetch_failed: [AUTH_EXPIRED] {message}" ∈ result.warnings ∨
      s!"orders_fetch_failed: [AUTH_EXPIRED] {message}" ∈ result.warnings := by
  rw [syncPortfolio_eq_answer h.selected h.built] at hok
  unfold syncWithAdapter at hok
  cases hsync : syncConnection upper userId connection.id adapter.brokerName now s.database
      (fetch adapter) with
  | error e =>
    rw [hsync] at hok
    cases hok
  | ok r =>
    rw [hsync] at hok
    cases hok
    obtain ⟨ps, os, w, w', hf, hg, hw, hw'⟩ := fetch_warnings_of_syncConnection hsync
    rcases h.raises with hpositions | ⟨-, horders⟩
    · rw [hpositions] at hf
      cases hf
      exact .inl (hw (List.mem_singleton.mpr rfl))
    · rw [horders] at hg
      cases hg
      exact .inr (hw' (List.mem_singleton.mpr rfl))

/-- Whenever the adapter is asked and answers `AUTH_EXPIRED`, the request does not. -/
theorem auth_expired_not_reported (upper : String → String)
    (decryptToken : Encrypted → UUID → Except String String) (settings : Settings)
    (fetch : BrokerAdapter → Fetch) (userId : UUID) (now : Instant) (s : Stored Encrypted)
    (connection : LinkedConnection Encrypted) (adapter : BrokerAdapter) (message : String)
    (h : AuthExpiredSync upper decryptToken settings fetch userId s connection adapter message) :
    ¬ ReportsAuthExpired connection.id message
      (syncPortfolio upper decryptToken settings fetch userId now true s) :=
  fun hreports => syncPortfolio_response h.selected h.built _ hreports.response

/-! ## A small account -/

/-- Connection 7 to a broker whose app is configured. -/
def sampleConnection : LinkedConnection String :=
  ⟨⟨7, 1, .zerodha, "AB1234", .active⟩, "token", none, none⟩

def sampleSettings : Settings := ⟨"", some "key", some "secret"⟩

def sampleStored : Stored String := ⟨sampleHolding, [sampleConnection]⟩

/-- The daily token has run out: the broker refuses both calls. -/
def refusedFetch (_ : BrokerAdapter) : Fetch :=
  ⟨.error (.brokerApi .authExpired "token expired"), .error (.brokerApi .authExpired "token expired")⟩

theorem refusedFetch_sync :
    AuthExpiredSync String.toUpper (fun text _ => .ok text) sampleSettings refusedFetch 1 sampleStored
      sampleConnection (.zerodha "key" "secret" "token" none) "token expired" :=
  ⟨by decide, rfl, .inl rfl⟩

theorem auth_expired_not_reported_sample :
    ¬ ReportsAuthExpired 7 "token expired"
      (syncPortfolio String.toUpper (fun text _ => .ok text) sampleSettings refusedFetch 1 60 true
        sampleStored) :=
  auth_expired_not_reported String.toUpper (fun text _ => .ok text) sampleSettings refusedFetch 1 60
    sampleStored sampleConnection (.zerodha "key" "secret" "token" none) "token expired"
    refusedFetch_sync

/-- The request is answered with a summary, and the connection is still active. -/
theorem auth_expired_answered_with_summary :
    ¬ ∀ (upper : String → String) (decryptToken : String → UUID → Except String String)
      (settings : Settings) (fetch : BrokerAdapter → Fetch) (userId : UUID) (now : Instant)
      (s : Stored String) (connection : LinkedConnection String) (adapter : BrokerAdapter)
      (message : String),
      AuthExpiredSync upper decryptToken settings fetch userId s connection adapter message →
      ReportsAuthExpired connection.id message
        (syncPortfolio upper decryptToken settings fetch userId now true s) := by
  intro h
  have hstatus := (h String.toUpper (fun text _ => .ok text) sampleSettings refusedFetch 1 60 sampleStored
    sampleConnection _ _ refusedFetch_sync).status
  rw [syncPortfolio_connections refusedFetch_sync.selected refusedFetch_sync.built] at hstatus
  have hexpired := hstatus sampleConnection (List.mem_singleton.mpr rfl) rfl
  cases hexpired

end Nivara.Portfolio
