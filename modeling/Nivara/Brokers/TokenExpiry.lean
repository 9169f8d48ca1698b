import Nivara.Common.Time
import Nivara.Portfolio.SyncEndpoint

/-!
# The expiry of a Zerodha token

A token of Kite Connect ends at 06:00 in India. `_derive_connection_status`
(`api/broker_auth.py`, lines 94-134) says for the dashboard whether that has happened, and
`ZerodhaAdapter._is_token_expired` (`brokers/zerodha.py`, lines 155-169) before each call to the
broker, both by `_last_kite_expiry_cutoff` (lines 88-102). The adapter is the one that
`_build_adapter` makes; it takes the stored expiry for the time of issue.

* The time zone is a parameter, and `now` an instant whose local time is a `datetime`.

Results:

* `lastKiteExpiryCutoff_india`: the last half past midnight, UTC.
* `authExpired_iff_tokenExpired`: the two agree, except at the expiry that is the cutoff itself.
* `isTokenExpired_iff_passedSix`: a token is taken for expired when 06:00 has passed since its issue.
-/

namespace Nivara.Brokers

open Portfolio

/-! ## Model -/

/-- `_KITE_DAILY_EXPIRY_HOUR_IST`. -/
def kiteDailyExpiryHourIst : ℤ := 6

/-- The status that the dashboard shows. -/
inductive SurfaceStatus
  | connected
  | authExpired
  | error
  | disconnected
  deriving DecidableEq, Repr

section Model

variable (ist : TimeZone) (now : ℤ)

/-- `_last_kite_expiry_cutoff`. Both local times are of one zone, so they are compared by the clock. -/
def lastKiteExpiryCutoff : ℤ :=
  let nowIst := ist.wall now
  let todaysCutoff := nowIst - nowIst % hours 24 + hours kiteDailyExpiryHourIst
  ist.instant (if todaysCutoff ≤ nowIst then todaysCutoff else todaysCutoff - hours 24)

/-- `_derive_connection_status`. -/
def deriveConnectionStatus {Encrypted : Type} (conn : LinkedConnection Encrypted) : SurfaceStatus :=
  match conn.status with
  | .revoked => .disconnected
  | .expired => .authExpired
  | .active =>
    match conn.tokenExpiresAt with
    | none => .connected
    | some expiresAt =>
      match conn.broker with
      | .zerodha => if expiresAt.utc ≤ lastKiteExpiryCutoff ist now then .authExpired else .connected
      | .alpaca => if expiresAt.utc ≤ now then .authExpired else .connected

/-- `ZerodhaAdapter._is_token_expired`; the other adapter has no such check. -/
def isTokenExpired : BrokerAdapter → Bool
  | .zerodha _ _ _ accessTokenIssuedAt =>
    match accessTokenIssuedAt with
    | none => false
    | some issuedAt => issuedAt.utc < lastKiteExpiryCutoff ist now
  | .alpaca .. => false

end Model

/-! ## The two checks -/

variable {Encrypted : Type} {decryptToken : Encrypted → UUID → Except String String} {settings : Settings}
  {connection : LinkedConnection Encrypted} {adapter : BrokerAdapter}

/-- The adapter of a Zerodha connection has its stored expiry. -/
theorem isTokenExpired_of_buildAdapter (ist : TimeZone) (now : ℤ) (hbroker : connection.broker = .zerodha)
    (hbuilt : buildAdapter decryptToken settings connection = .ok adapter) :
    isTokenExpired ist now adapter =
      connection.tokenExpiresAt.any fun expiresAt => expiresAt.utc < lastKiteExpiryCutoff ist now := by
  unfold buildAdapter at hbuilt
  simp only [hbroker] at hbuilt
  split_ifs at hbuilt
  obtain ⟨accessToken, -, hbuilt⟩ := Loop.of_bind_eq_ok hbuilt
  cases hbuilt
  cases connection.tokenExpiresAt with
  | none => simp only [isTokenExpired, Option.any_none]
  | some expiresAt => simp only [isTokenExpired, Option.any_some]

/-- For an active Zerodha connection the status is `auth_expired` exactly when the adapter takes its
    token for expired, unless the stored expiry is the last cutoff. -/
theorem authExpired_iff_tokenExpired (ist : TimeZone) (now : ℤ) (hbroker : connection.broker = .zerodha)
    (hactive : connection.status = .active)
    (hbuilt : buildAdapter decryptToken settings connection = .ok adapter) :
    (deriveConnectionStatus ist now connection = .authExpired ↔ isTokenExpired ist now adapter = true) ↔
      connection.tokenExpiresAt.map Timestamp.utc ≠ some (lastKiteExpiryCutoff ist now) := by
  rw [isTokenExpired_of_buildAdapter ist now hbroker hbuilt]
  unfold deriveConnectionStatus
  simp only [hactive, hbroker]
  cases connection.tokenExpiresAt with
  | none => simp
  | some expiresAt =>
    have hstatus : (if expiresAt.utc ≤ lastKiteExpiryCutoff ist now then SurfaceStatus.authExpired
        else .connected) = .authExpired ↔ expiresAt.utc ≤ lastKiteExpiryCutoff ist now := by
      split_ifs with h
      · exact iff_of_true rfl h
      · exact iff_of_false (by decide) h
    rw [hstatus, Option.any_some, decide_eq_true_eq, Option.map_some, ne_eq, Option.some_inj]
    omega

/-! ## India -/

/-- `Asia/Kolkata`, as it has been since 1945. -/
def india : TimeZone where
  wall ts := ts + minutes 330
  instant wall := wall - minutes 330

/-- The cutoff is the last half past midnight, UTC. -/
theorem lastKiteExpiryCutoff_india (now : ℤ) :
    lastKiteExpiryCutoff india now = now - (now - minutes 30) % hours 24 := by
  unfold lastKiteExpiryCutoff india hours minutes kiteDailyExpiryHourIst
  dsimp only
  split_ifs <;> omega

/-! ## 06:00 in India -/

/-- The clock in India shows 06:00. -/
def AtSixIst (ts : ℤ) : Prop := india.wall ts % hours 24 = hours kiteDailyExpiryHourIst

theorem atSixIst_lastKiteExpiryCutoff (now : ℤ) : AtSixIst (lastKiteExpiryCutoff india now) := by
  rw [lastKiteExpiryCutoff_india]
  unfold AtSixIst india hours minutes kiteDailyExpiryHourIst
  dsimp only
  omega

theorem lastKiteExpiryCutoff_le (now : ℤ) : lastKiteExpiryCutoff india now ≤ now := by
  have hmod : 0 ≤ (now - minutes 30) % hours 24 := Int.emod_nonneg _ (by decide)
  rw [lastKiteExpiryCutoff_india]
  omega

theorem lt_lastKiteExpiryCutoff_add (now : ℤ) : now < lastKiteExpiryCutoff india now + hours 24 := by
  have hmod : (now - minutes 30) % hours 24 < hours 24 := Int.emod_lt_of_pos _ (by decide)
  rw [lastKiteExpiryCutoff_india]
  omega

/-- No 06:00 lies between the cutoff and the instant it is the cutoff of. -/
theorem le_lastKiteExpiryCutoff {now cutoff : ℤ} (hsix : AtSixIst cutoff) (hle : cutoff ≤ now) :
    cutoff ≤ lastKiteExpiryCutoff india now := by
  rw [lastKiteExpiryCutoff_india]
  unfold AtSixIst india hours minutes kiteDailyExpiryHourIst at hsix
  unfold hours minutes
  dsimp only at hsix
  omega

/-- Two 06:00s of one day are one. -/
theorem AtSixIst.eq_of_lt {cutoff cutoff' : ℤ} (hsix : AtSixIst cutoff) (hsix' : AtSixIst cutoff')
    (hle : cutoff ≤ cutoff') (hlt : cutoff' < cutoff + hours 24) : cutoff = cutoff' := by
  unfold AtSixIst india hours minutes kiteDailyExpiryHourIst at hsix hsix'
  unfold hours minutes at hlt
  dsimp only at hsix hsix'
  omega

/-- The adapter takes a token for expired exactly when 06:00 has passed since it was issued, and
    the cutoff it asks for is the one 06:00 in the day before `now`. -/
theorem isTokenExpired_iff_passedSix (apiKey apiSecret accessToken : String) (issuedAt : Timestamp)
    (now : ℤ) :
    (isTokenExpired india now (.zerodha apiKey apiSecret accessToken (some issuedAt)) = true ↔
      ∃ cutoff, AtSixIst cutoff ∧ issuedAt.utc < cutoff ∧ cutoff ≤ now) ∧
    ∀ cutoff, cutoff = lastKiteExpiryCutoff india now ↔
      AtSixIst cutoff ∧ cutoff ≤ now ∧ now < cutoff + hours 24 := by
  refine ⟨?_, fun cutoff => ?_⟩
  · unfold isTokenExpired
    rw [decide_eq_true_eq]
    constructor
    · intro hexpired
      exact ⟨_, atSixIst_lastKiteExpiryCutoff now, hexpired, lastKiteExpiryCutoff_le now⟩
    · rintro ⟨cutoff, hsix, hissued, hle⟩
      exact hissued.trans_le (le_lastKiteExpiryCutoff hsix hle)
  · constructor
    · rintro rfl
      exact ⟨atSixIst_lastKiteExpiryCutoff now, lastKiteExpiryCutoff_le now,
        lt_lastKiteExpiryCutoff_add now⟩
    · rintro ⟨hsix, hle, hlt⟩
      have hlast := le_lastKiteExpiryCutoff hsix hle
      exact hsix.eq_of_lt (atSixIst_lastKiteExpiryCutoff now) hlast
        ((lastKiteExpiryCutoff_le now).trans_lt hlt)

/-! ## A token until 06:00 -/

/-- A connection to an app that is configured, with a token until 06:00 on 1970-01-02. -/
def dailyConnection : LinkedConnection String :=
  ⟨⟨7, 1, .zerodha, "AB1234", .active⟩, "token", none, some (.aware (hours 24 + minutes 30))⟩

/-- The adapter that is built for it. -/
def dailyAdapter : BrokerAdapter := .zerodha "key" "secret" "token" dailyConnection.tokenExpiresAt

theorem buildAdapter_dailyConnection :
    buildAdapter (fun text _ => .ok text) sampleSettings dailyConnection = .ok dailyAdapter := rfl

theorem authExpired_iff_tokenExpired_sample :
    (deriveConnectionStatus india (hours 24) dailyConnection = .authExpired ↔
      isTokenExpired india (hours 24) dailyAdapter = true) ↔
        some (hours 24 + minutes 30) ≠ some (lastKiteExpiryCutoff india (hours 24)) :=
  authExpired_iff_tokenExpired india (hours 24) rfl rfl buildAdapter_dailyConnection

/-- At the stroke of 06:00 the dashboard asks for a new login and the adapter does not. -/
theorem authExpired_at_cutoff :
    ¬ ∀ (decryptToken : String → UUID → Except String String) (settings : Settings)
      (connection : LinkedConnection String) (adapter : BrokerAdapter) (now : ℤ),
      connection.broker = .zerodha → connection.status = .active →
      buildAdapter decryptToken settings connection = .ok adapter →
      (deriveConnectionStatus india now connection = .authExpired ↔
        isTokenExpired india now adapter = true) := by
  intro h
  have hexpired : isTokenExpired india (hours 24 + minutes 30) dailyAdapter = true :=
    (h (fun text _ => .ok text) sampleSettings dailyConnection dailyAdapter (hours 24 + minutes 30) rfl rfl
      buildAdapter_dailyConnection).mp (by decide)
  exact absurd hexpired (by decide)

end Nivara.Brokers
