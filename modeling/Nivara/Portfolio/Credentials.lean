import Nivara.Brokers.TokenEncryption
import Nivara.Common.Json
import Nivara.Portfolio.SyncEndpoint

/-!
# The credentials of a broker connection

From `connect_alpaca_credentials` (`api/broker_auth.py`, lines 140–208), which verifies the keys of a
user with Alpaca and stores them encrypted, to the adapters that `sync_portfolio` builds with them, in
one deployment that rotates its master keys.

* `get_balances` and `_request` of `AlpacaAdapter` (`brokers/alpaca.py`, lines 129–197) are modelled for
  what `connect_alpaca_credentials` reads: the exceptions and the account id.
* The cryptography is that of `Brokers.TokenEncryption`. That a sync fills the cache of the master keys
  is a `decrypt` of the deployment of its own.
* `connects` and `built` are history: what was connected, and the adapters of the syncs.

Results:

* `connect_status`: 401 is the answer to 401 and 403.
* `buildAdapter_of_linked`: an adapter of a connection has the credentials that were connected.
* `adapters_of_run`: so it is in every run, for no user but the one who connected them.
-/

namespace Nivara.Portfolio

open Auth (HttpError)
open Brokers (Crypto Deployment Issued KeyEvent KeyState MasterKey Nonce decryptToken_of_sealed encryptToken
  masterKeys sealed_of_encryptToken)
open Transition

/-! ## Alpaca -/

section Alpaca

variable {F : Type} (f : Floats F) (str : Json F → String)

/-- How a request to Alpaca ends. -/
inductive AlpacaReply (F : Type)
  | timeout
  | transport (message : String)
  | response (status : ℕ) (text : String) (body : Body F)

/-- `AlpacaAdapter._request`. -/
def alpacaRequest (path : String) : AlpacaReply F → Except FetchError (Json F)
  | .timeout => .error (.brokerApi .networkTimeout s!"Alpaca request timed out: {path}")
  | .transport message => .error (.brokerApi .upstreamDown s!"Alpaca transport error: {message}")
  | .response status text body =>
    if status = 401 ∨ status = 403 then .error (.brokerApi .authExpired "Alpaca rejected credentials")
    else if status = 404 then .error (.brokerApi .instrumentUnknown s!"Alpaca returned 404 for {path}")
    else if status = 429 then .error (.brokerApi .rateLimited "Alpaca rate limit exceeded")
    else if 500 ≤ status ∧ status < 600 then
      .error (.brokerApi .upstreamDown s!"Alpaca upstream error {status}")
    else if 400 ≤ status then
      let shown := String.ofList (text.toList.take 200)
      .error (.brokerApi .upstreamDown s!"Alpaca unexpected status {status}: {shown}")
    else
      match body.read with
      | .ok raw => .ok raw
      | .error _ => .error (.other "the body is no JSON")

/-- `Decimal(str(raw.get(key, "0")))` in a field that takes no infinity and no NaN. -/
def decimalField (members : List (PyStr × Json F)) (key : String) : Option PyDecimal :=
  match ((members.lookup (py key)).getD (.str (py "0"))).decimal f with
  | some (.finite negative coefficient exponent) => some (.finite negative coefficient exponent)
  | _ => none

/-- `raw.get("currency", "USD")` is one of the literals. -/
def currencyField (members : List (PyStr × Json F)) : Bool :=
  ["USD", "INR", "EUR", "GBP"].any ((members.lookup (py "currency")).getD (.str (py "USD"))).isText

/-- The `NormalizedBalance` of an account, for its `account_id`. -/
def balanceOf : Json F → Except FetchError String
  | .obj members =>
    match decimalField f members "cash", decimalField f members "equity", currencyField members with
    | some _, some _, true =>
      let accountNumber := (Json.obj members).field "account_number"
      .ok (str ((accountNumber.orElse f ((Json.obj members).field "id")).orElse f (.str [])))
    | _, _, _ => .error (.other "the balance is invalid")
  | _ => .error (.other "the account is no object")

/-- `get_balances`. -/
def getBalances (reply : AlpacaReply F) : Except FetchError String := do
  let raw ← alpacaRequest "/v2/account" reply
  balanceOf f str raw

end Alpaca

/-! ## Connecting -/

def rejectedCredentials : HttpError := ⟨401, "Alpaca rejected the provided credentials"⟩
def couldNotVerify : HttpError := ⟨502, "Could not verify Alpaca credentials — try again"⟩

/-- A request to connect, and what happens in it. -/
structure ConnectRequest (F : Type) where
  userId : UUID
  apiKeyId : String
  apiSecret : String
  /-- What Alpaca answers to these credentials. -/
  reply : AlpacaReply F
  nonce : Nonce
  nonce' : Nonce
  /-- The id of the new row. -/
  id : UUID
  /-- Whether the commit succeeds. -/
  commits : Bool

/-- How the request ends. -/
inductive ConnectResponse
  /-- 201, with the id and the account. -/
  | created (id : UUID) (accountId : String)
  | http (error : HttpError)
  /-- The request is not valid. -/
  | unprocessable
  /-- Any other exception. -/
  | serverError
  deriving DecidableEq

/-- A row that was created, with what was submitted for it and the master key of the time. -/
structure Submitted where
  id : UUID
  userId : UUID
  apiKeyId : String
  apiSecret : String
  primary : Option MasterKey

/-- An adapter that was built for a user with a connection. -/
structure Built where
  userId : UUID
  connectionId : UUID
  adapter : BrokerAdapter

/-- The deployment with the tables that the endpoints share. -/
structure Platform where
  deployment : Deployment
  stored : Stored Bytes
  connects : List Submitted
  built : List Built

section Model

variable {UserKey F : Type} (crypto : Crypto UserKey) (f : Floats F) (str : Json F → String)
  (upper : String → String) (settings : Settings)

/-- The first of the master keys. -/
def primaryKey (s : KeyState) : Option MasterKey := ((masterKeys s).1.toOption.bind List.head?)

/-- `connect_alpaca_credentials`. -/
def connectAlpacaCredentials (r : ConnectRequest F) (p : Platform) : ConnectResponse × Platform :=
  if r.apiKeyId = "" ∨ r.apiSecret = "" then (.unprocessable, p)
  else
    match getBalances f str r.reply with
    | .error (.brokerApi .authExpired _) => (.http rejectedCredentials, p)
    | .error (.brokerApi _ _) => (.http couldNotVerify, p)
    | .error (.other _) => (.serverError, p)
    | .ok accountId =>
      let primary := primaryKey p.deployment.toKeyState
      let access := (encryptToken crypto p.deployment.toKeyState r.apiKeyId r.userId r.nonce).1
      let p := { p with deployment := p.deployment.step crypto (.encrypt r.apiKeyId r.userId r.nonce) }
      match access with
      | .error _ => (.serverError, p)
      | .ok accessTokenEncrypted =>
        let refresh := (encryptToken crypto p.deployment.toKeyState r.apiSecret r.userId r.nonce').1
        let p := { p with deployment := p.deployment.step crypto (.encrypt r.apiSecret r.userId r.nonce') }
        match refresh with
        | .error _ => (.serverError, p)
        | .ok refreshTokenEncrypted =>
          if r.commits then
            let connection : LinkedConnection Bytes :=
              ⟨⟨r.id, r.userId, .alpaca, accountId, .active⟩, accessTokenEncrypted,
                some refreshTokenEncrypted,
                none⟩
            (.created r.id accountId,
              { p with
                stored := { p.stored with connections := p.stored.connections ++ [connection] }
                connects := p.connects ++ [⟨r.id, r.userId, r.apiKeyId, r.apiSecret, primary⟩] })
          else (.serverError, p)

/-- `decrypt_token` in the deployment. -/
def Platform.decryptToken (p : Platform) (blob : Bytes) (userId : UUID) : Except String String :=
  (Brokers.decryptToken crypto p.deployment.toKeyState blob userId).1.mapError (·.message)

/-- The adapter of a sync that gets so far. -/
def Platform.adapterFor (p : Platform) (userId : UUID) (lockAcquired : Bool) :
    Option (UUID × BrokerAdapter) :=
  match p.stored.activeConnection userId with
  | none => none
  | some connection =>
    if lockAcquired then
      (buildAdapter (p.decryptToken crypto) settings connection).toOption.map fun adapter =>
        (connection.id, adapter)
    else none

/-- What happens to the platform. -/
inductive PlatformEvent (F : Type)
  | key (event : KeyEvent)
  | connect (r : ConnectRequest F)
  | sync (userId : UUID) (now : Instant) (lockAcquired : Bool) (fetch : BrokerAdapter → Fetch)

def Platform.step (p : Platform) : PlatformEvent F → Platform
  | .key event => { p with deployment := p.deployment.step crypto event }
  | .connect r => (connectAlpacaCredentials crypto f str r p).2
  | .sync userId now lockAcquired fetch =>
    { p with
      stored :=
        (syncPortfolio upper (p.decryptToken crypto) settings fetch userId now lockAcquired p.stored).2
      built := p.built ++
        ((p.adapterFor crypto settings userId lockAcquired).map fun b => ⟨userId, b.1, b.2⟩).toList }

/-- The id of a new row is new. -/
def FreshIds (p : Platform) : PlatformEvent F → Prop
  | .connect r => ∀ c ∈ p.stored.connections, c.id ≠ r.id
  | _ => True

end Model

/-! ## What a connection opens to -/

section Linked

variable {UserKey : Type} {crypto : Crypto UserKey} {p : Platform} {c : Submitted}
    {row : LinkedConnection Bytes}

/-- The row holds what was submitted, sealed. -/
structure Submitted.Linked (crypto : Crypto UserKey) (c : Submitted) (row : LinkedConnection Bytes) :
    Prop where
  id : row.id = c.id
  userId : row.userId = c.userId
  broker : row.broker = .alpaca
  tokens : ∃ r r' : Issued, r.Sealed crypto ∧ r'.Sealed crypto ∧
    row.accessTokenEncrypted = r.blob ∧ row.refreshTokenEncrypted = some r'.blob ∧
    (r.plaintext = c.apiKeyId ∧ r.userId = c.userId ∧ c.primary = some r.primary) ∧
    r'.plaintext = c.apiSecret ∧ r'.userId = c.userId ∧ c.primary = some r'.primary

/-- The credentials look like those of the retired callback. -/
def Submitted.Placeholder (c : Submitted) : Bool :=
  startsWith c.apiKeyId "alpaca-access-" || startsWith c.apiSecret "alpaca-refresh-"

theorem platform_decryptToken_of_sealed (h : crypto.Ideal) (p : Platform) {r : Issued}
    (hr : r.Sealed crypto) :
    p.decryptToken crypto r.blob r.userId =
      match (masterKeys p.deployment.toKeyState).1 with
      | .error e => .error e.message
      | .ok masters =>
          if r.primary ∈ masters then .ok r.plaintext else .error Brokers.decryptionFailed.message := by
  unfold Platform.decryptToken
  rw [decryptToken_of_sealed h hr]
  cases (masterKeys p.deployment.toKeyState).1 with
  | error e => rfl
  | ok masters =>
    simp only [true_and]
    split_ifs <;> rfl

/-- The adapter of a connection, while its master key is in the list. -/
theorem buildAdapter_of_linked (h : crypto.Ideal) (p : Platform) (settings : Settings)
    (hlinked : c.Linked crypto row) :
    buildAdapter (p.decryptToken crypto) settings row =
      match (masterKeys p.deployment.toKeyState).1 with
      | .error e => .error (.encryption e.message)
      | .ok masters =>
        if ∃ primary ∈ masters, c.primary = some primary then
          if c.Placeholder then .error .staleBrokerConnection
          else .ok (.alpaca c.apiKeyId c.apiSecret settings.alpacaBaseUrl)
        else .error (.encryption Brokers.decryptionFailed.message) := by
  obtain ⟨r, r', hr, hr', haccess, hrefresh, ⟨hkey, huser, hprimary⟩, hsecret, huser', hprimary'⟩ :=
    hlinked.tokens
  have hopen := platform_decryptToken_of_sealed h p hr
  have hopen' := platform_decryptToken_of_sealed h p hr'
  rw [huser] at hopen
  rw [huser'] at hopen'
  unfold buildAdapter
  simp only [hlinked.broker, hrefresh, haccess, hlinked.userId, hopen, hopen']
  cases (masterKeys p.deployment.toKeyState).1 with
  | error e => rfl
  | ok masters =>
    have hsame : r.primary = r'.primary := Option.some.inj (hprimary.symm.trans hprimary')
    have hmem : (∃ primary ∈ masters, c.primary = some primary) ↔ r.primary ∈ masters := by
      rw [hprimary]
      simp
    simp only [hmem, ← hsame]
    split_ifs with hin hplaceholder
    · rw [hkey, hsecret]
      exact if_pos hplaceholder
    · rw [hkey, hsecret]
      exact if_neg hplaceholder
    · rfl

theorem masterKeys_fst_masterKeys (s : KeyState) : (masterKeys (masterKeys s).2).1 = (masterKeys s).1 := by
  unfold masterKeys
  cases hcached : s.cachedKeys with
  | some masters => simp [hcached]
  | none =>
    cases hload : Brokers.loadMasterKeys s.masterEncryptionKey with
    | error e => simp [hcached, hload]
    | ok masters => simp

/-- An encryption changes at most the cache. -/
theorem masterKeys_encryptToken (s : KeyState) (plaintext : String) (userId : UUID) (nonce : Nonce) :
    (masterKeys (encryptToken crypto s plaintext userId nonce).2).1 = (masterKeys s).1 := by
  have hcache := masterKeys_fst_masterKeys s
  unfold encryptToken
  split_ifs
  · rfl
  · rcases hmasters : masterKeys s with ⟨masters, s'⟩
    rw [hmasters] at hcache
    cases masters with
    | error e => exact hcache
    | ok masters =>
      cases masters with
      | nil => exact hcache
      | cons master masters =>
        dsimp only
        split <;> exact hcache

theorem step_encrypt_toKeyState (d : Deployment) (plaintext : String) (userId : UUID) (nonce : Nonce) :
    (d.step crypto (.encrypt plaintext userId nonce)).toKeyState =
      (encryptToken crypto d.toKeyState plaintext userId nonce).2 := by
  unfold Deployment.step
  dsimp only
  split <;> rfl

/-- What `encrypt_token` returns is sealed under the primary key. -/
theorem sealed_of_encryptToken_ok {s : KeyState} {plaintext : String} {userId : UUID} {nonce : Nonce}
    {blob : Bytes}
    (hok : (encryptToken crypto s plaintext userId nonce).1 = .ok blob) :
    ∃ r : Issued, r.Sealed crypto ∧ blob = r.blob ∧ r.plaintext = plaintext ∧ r.userId = userId ∧
      primaryKey s = some r.primary := by
  obtain ⟨primary, others, hkeys⟩ : ∃ primary others, (masterKeys s).1 = .ok (primary :: others) := by
    unfold encryptToken at hok
    split_ifs at hok
    rcases hmasters : masterKeys s with ⟨masters, s'⟩
    rw [hmasters] at hok
    cases masters with
    | error e => cases hok
    | ok masters =>
      cases masters with
      | nil => cases hok
      | cons master masters => exact ⟨master, masters, rfl⟩
  refine ⟨⟨plaintext, userId, primary, blob⟩, sealed_of_encryptToken hkeys (Prod.ext hok rfl), rfl, rfl,
    rfl, ?_⟩
  unfold primaryKey
  rw [hkeys]
  rfl

end Linked

/-! ## What a step does -/

section Steps

variable {UserKey F : Type} {crypto : Crypto UserKey} {f : Floats F} {str : Json F → String}
  {upper : String → String} {settings : Settings}

variable (f str) in
/-- The credentials are rejected where Alpaca answers 401 or 403. -/
theorem getBalances_authExpired (reply : AlpacaReply F) :
    (∃ message, getBalances f str reply = .error (.brokerApi .authExpired message)) ↔
      ∃ status text body, reply = .response status text body ∧ (status = 401 ∨ status = 403) := by
  have hrejected :
      (∃ message, alpacaRequest "/v2/account" reply = .error (.brokerApi .authExpired message)) ↔
      ∃ status text body, reply = .response status text body ∧ (status = 401 ∨ status = 403) := by
    cases reply with
    | timeout => simp [alpacaRequest]
    | transport message => simp [alpacaRequest]
    | response status text body =>
      simp only [alpacaRequest, AlpacaReply.response.injEq]
      by_cases h : status = 401 ∨ status = 403
      · simp [h]
      · rw [if_neg h]
        constructor
        · rintro ⟨message, hmessage⟩
          split_ifs at hmessage
          · cases hmessage
          · cases hmessage
          · cases hmessage
          · cases hmessage
          · cases hread : body.read <;> rw [hread] at hmessage <;> cases hmessage
        · rintro ⟨_, _, _, ⟨rfl, -, -⟩, h'⟩
          exact absurd h' h
  rw [← hrejected]
  unfold getBalances
  cases alpacaRequest "/v2/account" reply with
  | error e =>
    exact exists_congr fun message =>
      ⟨fun h => congrArg _ (Except.error.inj h), fun h => congrArg _ (Except.error.inj h)⟩
  | ok raw =>
    refine ⟨fun ⟨message, h⟩ => ?_, fun ⟨message, h⟩ => by cases h⟩
    have hbalance : balanceOf f str raw = .error (.brokerApi .authExpired message) := h
    unfold balanceOf at hbalance
    split at hbalance
    · split at hbalance <;> cases hbalance
    · cases hbalance

variable (crypto f str) in
/-- A request with credentials is answered 401 where Alpaca answers 401 or 403. -/
theorem connect_status (r : ConnectRequest F) (p : Platform) (hkey : r.apiKeyId ≠ "")
    (hsecret : r.apiSecret ≠ "") :
    (connectAlpacaCredentials crypto f str r p).1 = .http rejectedCredentials ↔
      ∃ status text body, r.reply = .response status text body ∧ (status = 401 ∨ status = 403) := by
  rw [← getBalances_authExpired f str]
  unfold connectAlpacaCredentials
  rw [if_neg (by simp [hkey, hsecret])]
  cases hbalances : getBalances f str r.reply with
  | error e =>
    cases e with
    | brokerApi code message => cases code <;> simp [rejectedCredentials, couldNotVerify]
    | other message => simp
  | ok accountId =>
    simp only [reduceCtorEq, exists_false, iff_false]
    split
    · exact ConnectResponse.noConfusion
    · split
      · exact ConnectResponse.noConfusion
      · split_ifs <;> simp

variable (crypto f str) in
/-- A request to connect leaves the tables as they were, or adds a row for what was submitted. -/
theorem connect_cases (r : ConnectRequest F) (p : Platform) :
    ((connectAlpacaCredentials crypto f str r p).2.stored = p.stored ∧
      (connectAlpacaCredentials crypto f str r p).2.connects = p.connects ∧
      (connectAlpacaCredentials crypto f str r p).2.built = p.built) ∨
    ∃ accountId row c, (connectAlpacaCredentials crypto f str r p).1 = .created r.id accountId ∧
      getBalances f str r.reply = .ok accountId ∧ row.accountId = accountId ∧ row.status = .active ∧
      c.id = r.id ∧ c.userId = r.userId ∧ c.apiKeyId = r.apiKeyId ∧ c.apiSecret = r.apiSecret ∧
      c.Linked crypto row ∧
      (connectAlpacaCredentials crypto f str r p).2.stored =
        { p.stored with connections := p.stored.connections ++ [row] } ∧
      (connectAlpacaCredentials crypto f str r p).2.connects = p.connects ++ [c] ∧
      (connectAlpacaCredentials crypto f str r p).2.built = p.built := by
  unfold connectAlpacaCredentials
  by_cases hvalid : r.apiKeyId = "" ∨ r.apiSecret = ""
  · rw [if_pos hvalid]
    exact .inl ⟨rfl, rfl, rfl⟩
  · rw [if_neg hvalid]
    cases hbalances : getBalances f str r.reply with
    | error e =>
      left
      cases e with
      | brokerApi code message => cases code <;> exact ⟨rfl, rfl, rfl⟩
      | other message => exact ⟨rfl, rfl, rfl⟩
    | ok accountId =>
      dsimp only
      cases haccess : (encryptToken crypto p.deployment.toKeyState r.apiKeyId r.userId r.nonce).1 with
      | error e => exact .inl ⟨rfl, rfl, rfl⟩
      | ok access =>
        dsimp only
        rw [step_encrypt_toKeyState]
        cases hrefresh : (encryptToken crypto
            (encryptToken crypto p.deployment.toKeyState r.apiKeyId r.userId r.nonce).2 r.apiSecret r.userId
            r.nonce').1 with
        | error e => exact .inl ⟨rfl, rfl, rfl⟩
        | ok refresh =>
          dsimp only
          by_cases hcommits : r.commits = true
          · rw [if_pos hcommits]
            right
            obtain ⟨a, ha, rfl, htext, huser, hprimary⟩ := sealed_of_encryptToken_ok haccess
            obtain ⟨b, hb, rfl, htext', huser', hprimary'⟩ := sealed_of_encryptToken_ok hrefresh
            have hsame :
                primaryKey (encryptToken crypto p.deployment.toKeyState r.apiKeyId r.userId r.nonce).2 =
                primaryKey p.deployment.toKeyState := by
              unfold primaryKey
              rw [masterKeys_encryptToken]
            refine ⟨accountId, _, _, rfl, rfl, ?_, ?_, ?_, ?_, ?_, ?_, ?_, rfl, rfl, rfl⟩
            iterate 6 rfl
            exact ⟨rfl, rfl, rfl, a, b, ha, hb, rfl, rfl, ⟨htext, huser, hprimary⟩, htext', huser',
              hsame.symm.trans hprimary'⟩
          · rw [if_neg hcommits]
            exact .inl ⟨rfl, rfl, rfl⟩

/-- A sync changes at most the status of a connection, to expired. -/
theorem syncPortfolio_rows {decryptToken : Bytes → UUID → Except String String}
    {fetch : BrokerAdapter → Fetch}
    {userId : UUID} {now : Instant} {lockAcquired : Bool} (s : Stored Bytes) :
    ∃ expire : UUID → Bool,
      (syncPortfolio upper decryptToken settings fetch userId now lockAcquired s).2.connections =
        s.connections.map fun c => if expire c.id then { c with status := .expired } else c := by
  have hnone : ∀ l : List (LinkedConnection Bytes),
      l = l.map fun c => if (fun _ => false) c.id = true then { c with status := .expired } else c := by
    intro l
    simp
  unfold syncPortfolio
  cases s.activeConnection userId with
  | none => exact ⟨fun _ => false, hnone _⟩
  | some connection =>
    dsimp only
    split_ifs
    · exact ⟨fun _ => false, hnone _⟩
    · cases buildAdapter decryptToken settings connection with
      | error e =>
        cases e with
        | staleBrokerConnection =>
          refine ⟨fun id => id = connection.id, ?_⟩
          simp [Stored.setStatus]
        | http error => exact ⟨fun _ => false, hnone _⟩
        | encryption message => exact ⟨fun _ => false, hnone _⟩
      | ok adapter =>
        rcases syncWithAdapter_cases upper fetch userId now s.database connection adapter with ⟨r, hr⟩ |
          ⟨e, he⟩
        · dsimp only
          rw [hr]
          exact ⟨fun _ => false, hnone _⟩
        · dsimp only
          rw [he]
          exact ⟨fun _ => false, hnone _⟩

theorem adapterFor_eq_some {p : Platform} {userId : UUID} {lockAcquired : Bool} {b : UUID × BrokerAdapter}
    (h : p.adapterFor crypto settings userId lockAcquired = some b) :
    ∃ row ∈ p.stored.connections, row.id = b.1 ∧ row.userId = userId ∧ row.status = .active ∧
      buildAdapter (p.decryptToken crypto) settings row = .ok b.2 := by
  unfold Platform.adapterFor at h
  cases hactive : p.stored.activeConnection userId with
  | none =>
    rw [hactive] at h
    cases h
  | some row =>
    simp only [hactive] at h
    split_ifs at h
    have hfound := List.find?_some hactive
    simp only [decide_eq_true_eq] at hfound
    cases hbuild : buildAdapter (p.decryptToken crypto) settings row with
    | error e =>
      rw [hbuild] at h
      cases h
    | ok adapter =>
      rw [hbuild] at h
      cases h
      exact ⟨row, List.mem_of_find?_eq_some hactive, rfl, hfound.1, hfound.2, hbuild⟩

end Steps

/-! ## Runs -/

section Runs

variable {UserKey F : Type} {crypto : Crypto UserKey} {f : Floats F} {str : Json F → String}
  {upper : String → String} {settings : Settings} {p : Platform}

/-- An expired row holds what it held. -/
theorem Submitted.Linked.expire {c : Submitted} {row : LinkedConnection Bytes} (h : c.Linked crypto row)
    (expire : UUID → Bool) :
    c.Linked crypto (if expire row.id then { row with status := .expired } else row) := by
  split_ifs
  · exact ⟨h.id, h.userId, h.broker, h.tokens⟩
  · exact h

/-- The adapter is for the user who submitted the credentials of the connection, and has them. -/
structure Built.For (settings : Settings) (b : Built) (c : Submitted) : Prop where
  userId : b.userId = c.userId
  adapter : b.adapter = .alpaca c.apiKeyId c.apiSecret settings.alpacaBaseUrl
  placeholder : c.Placeholder = false

/-- What holds of the tables and of what was built from them. -/
structure Platform.Inv (crypto : Crypto UserKey) (settings : Settings) (p : Platform) : Prop where
  ids : (p.stored.connections.map (·.id)).Nodup
  linked : ∀ c ∈ p.connects, ∃ row ∈ p.stored.connections, c.Linked crypto row
  rows : ∀ b ∈ p.built, ∃ row ∈ p.stored.connections, row.id = b.connectionId ∧ row.userId = b.userId
  built : ∀ b ∈ p.built, ∀ c ∈ p.connects, c.id = b.connectionId → b.For settings c

/-- The rows of a platform whose statuses have changed. -/
theorem map_id_expire (rows : List (LinkedConnection Bytes)) (expire : UUID → Bool) :
    (rows.map fun c => if expire c.id then { c with status := .expired } else c).map (·.id) =
      rows.map (·.id) := by
  rw [List.map_map]
  refine List.map_congr_left fun c _ => ?_
  dsimp only [Function.comp_apply]
  split_ifs <;> rfl

/-- An adapter that is built with a connection that was submitted is the one for it. -/
theorem Platform.Inv.for_of_adapterFor (hcrypto : crypto.Ideal) (hp : p.Inv crypto settings) {userId : UUID}
    {lockAcquired : Bool} {b : UUID × BrokerAdapter}
    (hb : p.adapterFor crypto settings userId lockAcquired = some b) {c : Submitted} (hc : c ∈ p.connects)
    (hid : c.id = b.1) : Built.For settings ⟨userId, b.1, b.2⟩ c := by
  obtain ⟨row, hrow, hrowid, hrowuser, -, hbuild⟩ := adapterFor_eq_some hb
  obtain ⟨row', hrow', hlinked⟩ := hp.linked c hc
  obtain rfl : row' = row :=
    List.inj_on_of_nodup_map hp.ids hrow' hrow (hlinked.id.trans (hid.trans hrowid.symm))
  rw [buildAdapter_of_linked hcrypto p settings hlinked] at hbuild
  cases hmasters : (masterKeys p.deployment.toKeyState).1 with
  | error e =>
    rw [hmasters] at hbuild
    cases hbuild
  | ok masters =>
    simp only [hmasters] at hbuild
    split_ifs at hbuild with hin hplaceholder
    exact ⟨hrowuser.symm.trans hlinked.userId, (Except.ok.inj hbuild).symm,
      Bool.eq_false_iff.mpr hplaceholder⟩

variable (crypto f str upper settings p) in
theorem step_sync_connections (userId : UUID) (now : Instant) (lockAcquired : Bool)
    (fetch : BrokerAdapter → Fetch) :
    ∃ expire : UUID → Bool,
      (p.step crypto f str upper settings (.sync userId now lockAcquired fetch)).stored.connections =
        p.stored.connections.map fun c => if expire c.id then { c with status := .expired } else c :=
  syncPortfolio_rows p.stored

theorem mem_built_sync {userId : UUID} {now : Instant} {lockAcquired : Bool} {fetch : BrokerAdapter → Fetch}
    {b : Built}
    (hb : b ∈ (p.step crypto f str upper settings (.sync userId now lockAcquired fetch)).built) :
    b ∈ p.built ∨
      ∃ a, p.adapterFor crypto settings userId lockAcquired = some a ∧ b = ⟨userId, a.1, a.2⟩ := by
  refine (List.mem_append.mp hb).imp_right fun hb => ?_
  obtain ⟨a, ha, rfl⟩ := Option.map_eq_some_iff.mp (Option.mem_toList.mp hb)
  exact ⟨a, ha, rfl⟩

/-- The tables and the history are all that the invariant is about. -/
theorem Platform.Inv.of_eq {q : Platform} (hp : p.Inv crypto settings) (hstored : q.stored = p.stored)
    (hconnects : q.connects = p.connects) (hbuilt : q.built = p.built) : q.Inv crypto settings := by
  refine ⟨?_, ?_, ?_, ?_⟩ <;> simp only [hstored, hconnects, hbuilt]
  exacts [hp.ids, hp.linked, hp.rows, hp.built]

/-- A new row, for what was submitted with its id. -/
theorem Platform.Inv.add {q : Platform} {c : Submitted} {row : LinkedConnection Bytes}
    (hp : p.Inv crypto settings) (hlinked : c.Linked crypto row)
    (hnew : ∀ row' ∈ p.stored.connections, row'.id ≠ c.id)
    (hstored : q.stored = { p.stored with connections := p.stored.connections ++ [row] })
    (hconnects : q.connects = p.connects ++ [c]) (hbuilt : q.built = p.built) : q.Inv crypto settings := by
  refine ⟨?_, ?_, ?_, ?_⟩ <;> simp only [hstored, hconnects, hbuilt]
  · rw [List.map_append, List.nodup_append]
    refine ⟨hp.ids, List.nodup_singleton _, ?_⟩
    rintro id hold id' hid' rfl
    obtain ⟨row', hrow', rfl⟩ := List.mem_map.mp hold
    exact hnew row' hrow' ((List.mem_singleton.mp hid').trans hlinked.id)
  · intro c' hc'
    rcases List.mem_append.mp hc' with hc' | hc'
    · obtain ⟨row', hrow', hlinked'⟩ := hp.linked c' hc'
      exact ⟨row', List.mem_append_left _ hrow', hlinked'⟩
    · obtain rfl := List.mem_singleton.mp hc'
      exact ⟨row, List.mem_append_right _ (List.mem_singleton_self row), hlinked⟩
  · intro b hb
    obtain ⟨row', hrow', hrowb⟩ := hp.rows b hb
    exact ⟨row', List.mem_append_left _ hrow', hrowb⟩
  · intro b hb c' hc' hid'
    rcases List.mem_append.mp hc' with hc' | hc'
    · exact hp.built b hb c' hc' hid'
    · -- nothing was built with an id that is new
      obtain rfl := List.mem_singleton.mp hc'
      obtain ⟨row', hrow', hrowid, -⟩ := hp.rows b hb
      exact absurd (hrowid.trans hid'.symm) (hnew row' hrow')

variable (f str upper) in
/-- A sync expires rows, and builds an adapter with one of them. -/
theorem Platform.Inv.sync (hcrypto : crypto.Ideal) (hp : p.Inv crypto settings) (userId : UUID)
    (now : Instant) (lockAcquired : Bool) (fetch : BrokerAdapter → Fetch) :
    (p.step crypto f str upper settings (.sync userId now lockAcquired fetch)).Inv crypto settings := by
  obtain ⟨expire, hrows⟩ :=
    step_sync_connections crypto f str upper settings p userId now lockAcquired fetch
  refine ⟨?_, fun c hc => ?_, fun b hb => ?_, fun b hb c hc hid => ?_⟩
  · rw [hrows, map_id_expire]
    exact hp.ids
  · obtain ⟨row, hrow, hlinked⟩ := hp.linked c hc
    exact ⟨_, hrows ▸ List.mem_map_of_mem hrow, hlinked.expire expire⟩
  · obtain ⟨row, hrow, hrowb⟩ : ∃ row ∈ p.stored.connections,
        row.id = b.connectionId ∧ row.userId = b.userId := by
      rcases mem_built_sync hb with hb | ⟨a, ha, rfl⟩
      · exact hp.rows b hb
      · obtain ⟨row, hrow, hid, huser, -⟩ := adapterFor_eq_some ha
        exact ⟨row, hrow, hid, huser⟩
    refine ⟨_, hrows ▸ List.mem_map_of_mem hrow, ?_⟩
    split_ifs <;> exact hrowb
  · rcases mem_built_sync hb with hb | ⟨a, ha, rfl⟩
    · exact hp.built b hb c hc hid
    · exact hp.for_of_adapterFor hcrypto ha hc hid

theorem Platform.Inv.step (hcrypto : crypto.Ideal) (hp : p.Inv crypto settings) (l : PlatformEvent F)
    (hfresh : FreshIds p l) : (p.step crypto f str upper settings l).Inv crypto settings := by
  cases l with
  | key event => exact hp.of_eq rfl rfl rfl
  | connect r =>
    rcases connect_cases crypto f str r p with
      ⟨hstored, hconnects, hbuilt⟩ |
      ⟨accountId, row, c, -, -, -, -, hid, -, -, -, hlinked, hstored, hconnects, hbuilt⟩
    · exact hp.of_eq hstored hconnects hbuilt
    · exact hp.add hlinked (hid ▸ hfresh) hstored hconnects hbuilt
  | sync userId now lockAcquired fetch => exact hp.sync f str upper hcrypto userId now lockAcquired fetch

/-- There is a row with the id, and none that is active. -/
structure Platform.Retired (p : Platform) (id : UUID) : Prop where
  exists_row : ∃ row ∈ p.stored.connections, row.id = id
  not_active : ∀ row ∈ p.stored.connections, row.id = id → row.status ≠ .active

variable (crypto f str upper settings) in
/-- Nothing brings a retired connection back. -/
theorem Platform.Retired.step {id : UUID} (h : p.Retired id) (l : PlatformEvent F) (hfresh : FreshIds p l) :
    (p.step crypto f str upper settings l).Retired id ∧
      (p.step crypto f str upper settings l).built.filter (·.connectionId = id) =
        p.built.filter (·.connectionId = id) := by
  obtain ⟨⟨row, hrow, hid⟩, hinactive⟩ := h
  cases l with
  | key event => exact ⟨⟨⟨row, hrow, hid⟩, hinactive⟩, rfl⟩
  | connect r =>
    rcases connect_cases crypto f str r p with
      ⟨hstored, -, hbuilt⟩ | ⟨accountId, added, c, -, -, -, -, hcid, -, -, -, hlinked, hstored, -, hbuilt⟩
    · refine ⟨⟨?_, ?_⟩, congrArg (List.filter _) hbuilt⟩ <;>
        simp only [Platform.step, hstored]
      exacts [⟨row, hrow, hid⟩, hinactive]
    · refine ⟨⟨?_, ?_⟩, congrArg (List.filter _) hbuilt⟩ <;> simp only [Platform.step, hstored]
      · exact ⟨row, List.mem_append_left _ hrow, hid⟩
      · intro row' hrow' hid'
        rcases List.mem_append.mp hrow' with hrow' | hrow'
        · exact hinactive row' hrow' hid'
        · obtain rfl := List.mem_singleton.mp hrow'
          exact absurd (hid.trans (hid'.symm.trans (hlinked.id.trans hcid))) (hfresh row hrow)
  | sync userId now lockAcquired fetch =>
    obtain ⟨expire, hrows⟩ :=
      step_sync_connections crypto f str upper settings p userId now lockAcquired fetch
    refine ⟨⟨⟨_, hrows ▸ List.mem_map_of_mem hrow, ?_⟩, ?_⟩, ?_⟩
    · split_ifs <;> exact hid
    · rw [hrows]
      intro row' hrow' hid'
      obtain ⟨old, hold, rfl⟩ := List.mem_map.mp hrow'
      split_ifs at hid' ⊢
      · exact ConnectionStatus.noConfusion
      · exact hinactive old hold hid'
    · have hnone : (((p.adapterFor crypto settings userId lockAcquired).map fun b =>
          (⟨userId, b.1, b.2⟩ : Built)).toList).filter (·.connectionId = id) = [] := by
        refine List.filter_eq_nil_iff.mpr fun b hb hid' => ?_
        obtain ⟨a, ha, rfl⟩ := Option.map_eq_some_iff.mp (Option.mem_toList.mp hb)
        obtain ⟨row', hrow', hrowid, -, hactive, -⟩ := adapterFor_eq_some ha
        exact hinactive row' hrow' (hrowid.trans (of_decide_eq_true hid')) hactive
      simp only [Platform.step, List.filter_append, hnone, List.append_nil]

variable (upper) in
/-- After every history of keys, connections and syncs: an adapter that was built with a connection is
    for the user who submitted it and has the credentials as they were submitted, the connection is
    read back while its master key is in the list in force, and one that is no longer active is not
    used again. -/
theorem adapters_of_run (hcrypto : crypto.Ideal) {start : Platform}
    (hids : (start.stored.connections.map (·.id)).Nodup) (hconnects : start.connects = [])
    (hbuilt : start.built = [])
    (hrun : Run (fun p l q => p.step crypto f str upper settings l = q) FreshIds start p) :
    (∀ b ∈ p.built, ∃ row ∈ p.stored.connections, row.id = b.connectionId ∧ row.userId = b.userId) ∧
    (∀ b ∈ p.built, ∀ c ∈ p.connects, c.id = b.connectionId →
      b.userId = c.userId ∧ b.adapter = .alpaca c.apiKeyId c.apiSecret settings.alpacaBaseUrl ∧
        c.Placeholder = false) ∧
    (∀ c ∈ p.connects, ∃ row ∈ p.stored.connections, row.id = c.id ∧ row.userId = c.userId ∧
      buildAdapter (p.decryptToken crypto) settings row =
        match (masterKeys p.deployment.toKeyState).1 with
        | .error e => .error (.encryption e.message)
        | .ok masters =>
          if ∃ primary ∈ masters, c.primary = some primary then
            if c.Placeholder then .error .staleBrokerConnection
            else .ok (.alpaca c.apiKeyId c.apiSecret settings.alpacaBaseUrl)
          else .error (.encryption Brokers.decryptionFailed.message)) ∧
    (∀ row ∈ p.stored.connections, row.status ≠ .active →
      ∀ q, Run (fun p l q => p.step crypto f str upper settings l = q) FreshIds p q →
        q.built.filter (·.connectionId = row.id) = p.built.filter (·.connectionId = row.id)) := by
  have hp : p.Inv crypto settings := by
    refine hrun.invariant ⟨hids, ?_, ?_, ?_⟩ fun p l q hp hfresh hstep => hstep ▸ hp.step hcrypto l hfresh
    · simp [hconnects]
    · simp [hbuilt]
    · simp [hbuilt]
  refine ⟨hp.rows, fun b hb c hc hid => ?_, fun c hc => ?_, fun row hrow hinactive q hlater => ?_⟩
  · have hfor := hp.built b hb c hc hid
    exact ⟨hfor.userId, hfor.adapter, hfor.placeholder⟩
  · obtain ⟨row, hrow, hlinked⟩ := hp.linked c hc
    exact ⟨row, hrow, hlinked.id, hlinked.userId, buildAdapter_of_linked hcrypto p settings hlinked⟩
  · have hretired : p.Retired row.id := by
      refine ⟨⟨row, hrow, rfl⟩, fun row' hrow' hid => ?_⟩
      obtain rfl := List.inj_on_of_nodup_map hp.ids hrow' hrow hid
      exact hinactive
    have hend := hlater.invariant (I := fun q => q.Retired row.id ∧
      q.built.filter (·.connectionId = row.id) = p.built.filter (·.connectionId = row.id)) ⟨hretired, rfl⟩
      fun q l q' hq hfresh hstep => by
        obtain ⟨hretired', hsame⟩ := hq.1.step crypto f str upper settings l hfresh
        rw [← hstep]
        exact ⟨hretired', hsame.trans hq.2⟩
    exact hend.2

end Runs

/-! ## A rotation between the connection and the sync -/

open Brokers (plainCrypto plainCrypto_ideal unconfigured zeroNonce)

def integersOnly : Floats Empty := ⟨Empty.elim, Empty.elim, Empty.elim⟩

/-- An account with its number. -/
def openAccount : AlpacaReply Empty :=
  .response 200 "" (.json (.obj [(py "account_number", .str (py "PA1"))]))

def paperSettings : Settings := ⟨"https://paper-api.alpaca.markets", none, none⟩

def keysBefore : String := "AAAAAAAAAAAAAAAAAAAAAAAAAAAAAAAAAAAAAAAAAAA="

def keysAfter : String :=
  "BBBBBBBBBBBBBBBBBBBBBBBBBBBBBBBBBBBBBBBBBBB=,AAAAAAAAAAAAAAAAAAAAAAAAAAAAAAAAAAAAAAAAAAA="

def sampleConnect : ConnectRequest Empty := ⟨7, "PK1", "SK1", openAccount, zeroNonce, zeroNonce, 3, true⟩

def emptyPlatform : Platform := ⟨unconfigured, ⟨sampleHolding, []⟩, [], []⟩

def sampleStep (p : Platform) (l : PlatformEvent Empty) : Platform :=
  p.step plainCrypto integersOnly (fun _ => "PA1") String.toUpper paperSettings l

/-- The connection is made under one key, and used under another one. -/
def rotatedPlatform : Platform :=
  [.key (.configure (some keysBefore)), .connect sampleConnect, .key (.configure (some keysAfter)),
    .key .resetMasterKeyCache, .sync 7 60 true refusedFetch].foldl sampleStep emptyPlatform

theorem rotatedPlatform_run :
    Run (fun p l q => sampleStep p l = q) FreshIds emptyPlatform rotatedPlatform :=
  .tail (.sync 7 60 true refusedFetch)
    (.tail (.key .resetMasterKeyCache)
      (.tail (.key (.configure (some keysAfter)))
        (.tail (.connect sampleConnect) (.tail (.key (.configure (some keysBefore))) .refl trivial rfl)
          (fun _ hc => absurd hc List.not_mem_nil) rfl)
        trivial rfl)
      trivial rfl)
    trivial rfl

theorem adapters_of_run_sample :
    rotatedPlatform.built.length = 1 ∧
      ∀ b ∈ rotatedPlatform.built,
        b.userId = 7 ∧ b.adapter = .alpaca "PK1" "SK1" paperSettings.alpacaBaseUrl := by
  have hconnects : rotatedPlatform.connects.map (fun c => (c.id, c.userId, c.apiKeyId, c.apiSecret)) =
      [(3, 7, "PK1", "SK1")] := by decide +kernel
  have hbuilt : rotatedPlatform.built.map (·.connectionId) = [3] := by decide +kernel
  have hids : (emptyPlatform.stored.connections.map (·.id)).Nodup := List.nodup_nil
  obtain ⟨-, hfor, -⟩ := adapters_of_run String.toUpper plainCrypto_ideal hids rfl rfl rotatedPlatform_run
  refine ⟨by simpa using congrArg List.length hbuilt, fun b hb => ?_⟩
  obtain ⟨c, hc, hsubmitted⟩ : ∃ c ∈ rotatedPlatform.connects,
      (c.id, c.userId, c.apiKeyId, c.apiSecret) = (3, 7, "PK1", "SK1") :=
    List.mem_map.mp (hconnects ▸ List.mem_singleton_self _)
  simp only [Prod.mk.injEq] at hsubmitted
  obtain ⟨hid, huser, hkey, hsecret⟩ := hsubmitted
  have hconnection : b.connectionId = 3 :=
    List.mem_singleton.mp (hbuilt ▸ List.mem_map_of_mem hb)
  obtain ⟨hbuser, hadapter, -⟩ := hfor b hb c hc (hid.trans hconnection.symm)
  rw [huser] at hbuser
  rw [hkey, hsecret] at hadapter
  exact ⟨hbuser, hadapter⟩

end Nivara.Portfolio
