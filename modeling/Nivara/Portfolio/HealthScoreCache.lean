import Nivara.Common.Redis
import Nivara.Common.Time
import Nivara.Portfolio.SplitPositions
import Mathlib.Data.Rat.Encodable
import Mathlib.Tactic.DeriveCountable

/-!
# The cached Health Score

`_classify_staleness` and `get_health_score` (`api/health_score.py`, lines 139–186): the response of a
computation is cached for a day with the staleness it had then.

* A request is served at one instant, in microseconds. Reading and writing the cache may fail; a
  failure is logged.
* JSON is a parameter: what is dumped validates as what it was.
* The holdings stay as they are between the requests; the prices need not.

Results:

* `classifyStaleness_eq_iff`: two instants have the same classification when the age of the
  positions passes neither threshold between them.
* `serveAll_spec`: a response from the cache has the classification of its computation.
* `agrees_iff`: when all responses have the classification of their own instants.
* `cachedFresh_is_stale`: a response that says fresh of positions that are a day old.
-/

namespace Nivara.Portfolio

open Analysis
open CorporateActions (PriceHistory)

/-! ## Model -/

/-- `_CACHE_TTL_SECONDS`. -/
def healthCacheTtlSeconds : ℤ := 24 * 60 * 60

/-- `_VERY_STALE_THRESHOLD`. -/
def healthVeryStaleThreshold : ℤ := hours 24

/-- `_STALE_THRESHOLD`. -/
def healthStaleThreshold : ℤ := hours 4

/-- `_STALE_WARNING`. -/
def healthStaleWarning : String := "Data outdated — score may not reflect current conditions"

/-- `_cache_key`. -/
def healthCacheKey (userId : UUID) : String := "portfolio:health_score:" ++ userId.str

/-- `HealthScoreResponse`. -/
structure HealthScoreResponse where
  result : HealthScoreResult
  staleness : String
  staleWarning : Option String
  computedAt : Instant

/-- `_classify_staleness` at `now`. -/
def classifyStaleness (oldest : Option Instant) (now : Instant) : String × Option String :=
  match oldest with
  | none => ("fresh", none)
  | some oldest =>
    let age := now - oldest
    if healthVeryStaleThreshold < age then ("very_stale", some healthStaleWarning)
    else if healthStaleThreshold < age then ("stale", none)
    else ("fresh", none)

/-- `model_dump_json` and `model_validate_json` of the response. -/
structure ResponseJson where
  dump : HealthScoreResponse → String
  validate : String → Option HealthScoreResponse
  validate_dump : ∀ r, validate (dump r) = some r

/-- A request: its instant, the prices it finds and whether Redis can be read and written. -/
structure HealthRequest where
  now : Instant
  prices : List PriceHistory
  readWorks : Bool
  writeWorks : Bool

/-- The time that Redis reads. -/
def HealthRequest.ms (r : HealthRequest) : ℤ := r.now / 1000

section Model

variable (sqrt : ℚ → ℚ) (json : ResponseJson) (userId : UUID) (raw : List Holding)

/-- `_compute_response`. -/
def computeResponse (r : HealthRequest) : HealthScoreResponse where
  result := healthScore sqrt r.prices raw
  staleness := (classifyStaleness (oldestAsOf raw) r.now).1
  staleWarning := (classifyStaleness (oldestAsOf raw) r.now).2
  computedAt := r.now

/-- What the cache gives (lines 161–177). -/
def cachedResponse (r : HealthRequest) (keys : Redis.Keys) : Option HealthScoreResponse :=
  if r.readWorks then
    (Redis.find r.ms (healthCacheKey userId) keys).bind fun e =>
      match e.value with
      | .text cached => json.validate cached
      | .integer n => json.validate (toString n)
  else none

/-- `get_health_score`. -/
def getHealthScore (r : HealthRequest) (keys : Redis.Keys) : HealthScoreResponse × Redis.Keys :=
  match cachedResponse json userId r keys with
  | some response => (response, keys)
  | none =>
    let response := computeResponse sqrt raw r
    let written :=
      Redis.setEx r.ms (healthCacheKey userId) (.text (json.dump response)) healthCacheTtlSeconds keys
    (response, if r.writeWorks then written.toOption.getD keys else keys)

/-- Requests one after the other, each with its response. -/
def serveAll : Redis.Keys → List HealthRequest → List (HealthRequest × HealthScoreResponse)
  | _, [] => []
  | keys, r :: requests =>
    (r, (getHealthScore sqrt json userId raw r keys).1) ::
      serveAll (getHealthScore sqrt json userId raw r keys).2 requests

/-- Every response has the classification that a computation at its instant gives. -/
def Agrees (requests : List HealthRequest) : Prop :=
  ∀ p ∈ serveAll sqrt json userId raw (fun _ => none) requests,
    (p.2.staleness, p.2.staleWarning) = classifyStaleness (oldestAsOf raw) p.1.now

end Model

/-! ## Thresholds -/

/-- The age of the positions passes neither threshold between two instants. -/
def SameAge (oldest : Option Instant) (computedAt now : Instant) : Prop :=
  ∀ o ∈ oldest, ∀ threshold ∈ [healthStaleThreshold, healthVeryStaleThreshold],
    threshold < now - o → threshold < computedAt - o

instance (oldest : Option Instant) (computedAt now : Instant) : Decidable (SameAge oldest computedAt now) :=
  inferInstanceAs (Decidable (∀ o ∈ oldest, ∀ threshold ∈ [healthStaleThreshold, healthVeryStaleThreshold],
    threshold < now - o → threshold < computedAt - o))

theorem classifyStaleness_eq_iff {oldest : Option Instant} {computedAt now : Instant}
    (h : computedAt ≤ now) :
    classifyStaleness oldest computedAt = classifyStaleness oldest now ↔ SameAge oldest computedAt now := by
  cases oldest with
  | none => simp [classifyStaleness, SameAge]
  | some o =>
    have horder : healthStaleThreshold < healthVeryStaleThreshold := by decide +kernel
    simp only [SameAge, Option.mem_def, Option.some.injEq, forall_eq', List.forall_mem_cons,
      List.not_mem_nil, false_implies, implies_true, and_true]
    have hage : now - o = computedAt - o + (now - computedAt) := by simp
    have hpassed : (0 : ℤ) ≤ now - computedAt := sub_nonneg.mpr h
    unfold classifyStaleness
    dsimp only
    rw [hage]
    split_ifs <;> simp <;> omega

/-- When the response that a request is served from the cache was computed. -/
def HealthRequest.served (r : HealthRequest) (computedAt : Option Instant) : Option Instant :=
  computedAt.filter fun t => r.readWorks && r.ms < t / 1000 + healthCacheTtlSeconds * 1000

/-- No request is served what was computed on the other side of a threshold. `computedAt` is when the
    cached response was computed. -/
def NoneCrossed (oldest : Option Instant) : (computedAt : Option Instant) → List HealthRequest → Prop
  | _, [] => True
  | computedAt, r :: requests =>
    match r.served computedAt with
    | some t => SameAge oldest t r.now ∧ NoneCrossed oldest computedAt requests
    | none => NoneCrossed oldest (if r.writeWorks then some r.now else computedAt) requests

instance decidableNoneCrossed (oldest : Option Instant) :
    (computedAt : Option Instant) → (requests : List HealthRequest) →
      Decidable (NoneCrossed oldest computedAt requests)
  | _, [] => .isTrue trivial
  | computedAt, r :: requests =>
    show Decidable (match r.served computedAt with
      | some t => SameAge oldest t r.now ∧ NoneCrossed oldest computedAt requests
      | none => NoneCrossed oldest (if r.writeWorks then some r.now else computedAt) requests) from
    match r.served computedAt with
    | some _ => @instDecidableAnd _ _ inferInstance (decidableNoneCrossed oldest computedAt requests)
    | none => decidableNoneCrossed oldest _ requests

/-! ## The cache -/

variable {sqrt : ℚ → ℚ} {json : ResponseJson} {userId : UUID} {raw : List Holding} {keys : Redis.Keys}
  {computedAt : Option Instant} {r : HealthRequest}

/-- The key holds a response with the classification of the instant of its computation. -/
def CacheHolds (json : ResponseJson) (userId : UUID) (raw : List Holding) (keys : Redis.Keys) :
    Option Instant → Prop
  | none => keys (healthCacheKey userId) = none
  | some t => ∃ response : HealthScoreResponse,
      keys (healthCacheKey userId) =
        some ⟨.text (json.dump response), some (t / 1000 + healthCacheTtlSeconds * 1000)⟩ ∧
      (response.staleness, response.staleWarning) = classifyStaleness (oldestAsOf raw) t

/-- What a request finds in the cache. -/
theorem cachedResponse_eq (h : CacheHolds json userId raw keys computedAt) :
    match r.served computedAt with
    | some t => ∃ response, cachedResponse json userId r keys = some response ∧
        (response.staleness, response.staleWarning) = classifyStaleness (oldestAsOf raw) t
    | none => cachedResponse json userId r keys = none := by
  unfold cachedResponse HealthRequest.served
  cases hread : r.readWorks with
  | false => simp
  | true =>
    cases computedAt with
    | none =>
      have hfind : Redis.find r.ms (healthCacheKey userId) keys = none := Redis.find_of_none h
      simp [hfind]
    | some t =>
      obtain ⟨response, hkey, hclass⟩ := h
      by_cases hlt : r.ms < t / 1000 + healthCacheTtlSeconds * 1000
      · have hfind := Redis.find_of_lt hkey hlt
        simp [hfind, hlt, Option.filter, json.validate_dump, hclass]
      · have hfind := Redis.find_of_le hkey (not_lt.mp hlt)
        simp [hfind, hlt, Option.filter]

/-- A computed response is stored when the write works. -/
theorem cacheHolds_setEx (response : HealthScoreResponse)
    (hclass : (response.staleness, response.staleWarning) = classifyStaleness (oldestAsOf raw) r.now) :
    CacheHolds json userId raw
      ((Redis.setEx r.ms (healthCacheKey userId) (.text (json.dump response)) healthCacheTtlSeconds
        keys).toOption.getD keys) (some r.now) := by
  refine ⟨response, ?_, hclass⟩
  have hpos : ¬healthCacheTtlSeconds ≤ 0 := by decide
  unfold Redis.setEx
  rw [if_neg hpos]
  simp only [Except.toOption, Option.getD_some, Redis.setTtl, Function.update_self, if_neg hpos,
    HealthRequest.ms]

/-- The responses of requests that come no earlier than the cached one: each has the classification of
    its own instant exactly when no cached one is served across a threshold. -/
theorem serveAll_spec {requests : List HealthRequest}
    (hsorted : (requests.map HealthRequest.now).Pairwise (· ≤ ·))
    (hstored : CacheHolds json userId raw keys computedAt)
    (hbefore : ∀ t ∈ computedAt, ∀ r ∈ requests, t ≤ r.now) :
    (∀ p ∈ serveAll sqrt json userId raw keys requests,
        (p.2.staleness, p.2.staleWarning) = classifyStaleness (oldestAsOf raw) p.1.now) ↔
      NoneCrossed (oldestAsOf raw) computedAt requests := by
  induction requests generalizing keys computedAt with
  | nil => simp [serveAll, NoneCrossed]
  | cons r requests ih =>
    obtain ⟨hfirst, hrest⟩ := List.pairwise_cons.mp hsorted
    have hafter : ∀ r' ∈ requests, r.now ≤ r'.now := fun r' hr' => hfirst _ (List.mem_map_of_mem hr')
    have hcached := cachedResponse_eq (r := r) hstored
    unfold serveAll NoneCrossed
    rw [List.forall_mem_cons]
    cases hserved : r.served computedAt with
    | some t =>
      rw [hserved] at hcached
      obtain ⟨response, hresponse, hclass⟩ := hcached
      have ht : t ∈ computedAt := (Option.filter_eq_some_iff.mp hserved).1
      have hget : getHealthScore sqrt json userId raw r keys = (response, keys) := by
        unfold getHealthScore
        rw [hresponse]
      rw [hget, hclass, classifyStaleness_eq_iff (hbefore t ht r (by simp)),
        ih hrest hstored fun t' ht' r' hr' => hbefore t' ht' r' (List.mem_cons_of_mem _ hr')]
    | none =>
      rw [hserved] at hcached
      have hget : getHealthScore sqrt json userId raw r keys = (computeResponse sqrt raw r,
          if r.writeWorks then (Redis.setEx r.ms (healthCacheKey userId)
            (.text (json.dump (computeResponse sqrt raw r))) healthCacheTtlSeconds keys).toOption.getD keys
          else keys) := by
        unfold getHealthScore
        rw [hcached]
      have hown : ((computeResponse sqrt raw r).staleness, (computeResponse sqrt raw r).staleWarning) =
          classifyStaleness (oldestAsOf raw) r.now := rfl
      rw [hget, and_iff_right hown]
      refine ih hrest ?_ ?_
      · split_ifs
        · exact cacheHolds_setEx _ hown
        · exact hstored
      · split_ifs
        · intro t ht r' hr'
          cases ht
          exact hafter r' hr'
        · exact fun t ht r' hr' => hbefore t ht r' (List.mem_cons_of_mem _ hr')

/-- All responses to requests at nondecreasing instants have the classification of their instants
    exactly when the cache serves none across a threshold of the positions' age. -/
theorem agrees_iff (sqrt : ℚ → ℚ) (json : ResponseJson) (userId : UUID) (raw : List Holding)
    (requests : List HealthRequest) (hsorted : (requests.map HealthRequest.now).Pairwise (· ≤ ·)) :
    Agrees sqrt json userId raw requests ↔ NoneCrossed (oldestAsOf raw) none requests :=
  serveAll_spec hsorted rfl nofun

/-! ## Samples -/

/-- A holding that was synced at 0. -/
def syncedHolding : Holding := .ofRow (⟨7, 1, 10, 100, "USD", 0⟩, ⟨1, "AAPL", "NASDAQ"⟩)

/-- A request some hours after the sync; Redis works. -/
def requestAfter (h : ℤ) : HealthRequest := ⟨hours h, [], true, true⟩

/-- What the first request computes, three hours after the sync. -/
def syncedResponse : HealthScoreResponse := computeResponse id [syncedHolding] (requestAfter 3)

/-- The members of `syncedResponse.model_dump_json()`. -/
def syncedMembers : String :=
  "\"overall_score\":0.0,\"components\":[" ++
    "\x7b\"name\":\"diversification\",\"score\":0.0,\"weight\":0.25," ++
    "\"detail\":\x7b\"hhi\":1.0,\"holdings\":1\x7d\x7d," ++
    "\x7b\"name\":\"fundamental\",\"score\":null,\"weight\":0.25," ++
    "\"detail\":\x7b\"scored_holdings\":0,\"total_holdings\":1\x7d\x7d," ++
    "\x7b\"name\":\"technical\",\"score\":null,\"weight\":0.25," ++
    "\"detail\":\x7b\"scored_holdings\":0,\"total_holdings\":1\x7d\x7d," ++
    "\x7b\"name\":\"risk_adjusted\",\"score\":null,\"weight\":0.25," ++
    "\"detail\":\x7b\"sharpe\":null,\"observations\":0\x7d\x7d]," ++
    "\"staleness\":\"fresh\",\"stale_warning\":null,\"computed_at\":\"1970-01-01T03:00:00+00:00\""

/-- `syncedResponse.model_dump_json()`. -/
def syncedText : String := "\x7b" ++ syncedMembers ++ "\x7d"

theorem brace_mem_syncedText : '\x7b' ∈ syncedText.toList := by
  unfold syncedText
  rw [String.toList_append, String.toList_append]
  exact List.mem_append_left _ (List.mem_append_left _ (by decide))

instance countableChar : Countable Char :=
  Function.Injective.countable (f := Char.toNat) fun _ _ => Char.toNat_inj.mp

instance countableString : Countable String :=
  Function.Injective.countable (f := String.toList) fun _ _ => String.toList_inj.mp

deriving instance Countable for DetailValue, ScoreComponent, HealthScoreResult, HealthScoreResponse

open Classical in
/-- `syncedResponse` is dumped as Pydantic dumps it, another response as its number. -/
noncomputable def sampleResponseJson : ResponseJson :=
  letI := Encodable.ofCountable HealthScoreResponse
  { dump r := if r = syncedResponse then syncedText else .ofList (.replicate (Encodable.encode r) '1')
    validate text := if text = syncedText then some syncedResponse else Encodable.decode text.length
    validate_dump r := by
      by_cases hr : r = syncedResponse
      · simp [hr]
      · have hne : String.ofList (.replicate (Encodable.encode r) '1') ≠ syncedText := by
          intro heq
          have hmem : '\x7b' ∈ List.replicate (Encodable.encode r) '1' := by
            rw [← String.toList_ofList (l := List.replicate _ _), heq]
            exact brace_mem_syncedText
          exact absurd (List.eq_of_mem_replicate hmem) (by decide)
        rw [if_neg hr, if_neg hne]
        simp [Encodable.encodek] }

/-- Requests in the fourth and the thirtieth hour: the second finds the cache expired. -/
theorem agrees_iff_sample :
    Agrees id sampleResponseJson 5 [syncedHolding] [requestAfter 3, requestAfter 30] := by
  have hsorted : ([requestAfter 3, requestAfter 30].map HealthRequest.now).Pairwise (· ≤ ·) := by
    decide +kernel
  rw [agrees_iff id sampleResponseJson 5 [syncedHolding] [requestAfter 3, requestAfter 30] hsorted]
  decide +kernel

/-- The first request is three hours after the sync, the second twenty-six: it is served the first
    response, which says fresh, of positions that are very stale. -/
theorem cachedFresh_is_stale :
    ¬ Agrees id sampleResponseJson 5 [syncedHolding] [requestAfter 3, requestAfter 26] ∧
      classifyStaleness (oldestAsOf [syncedHolding]) (requestAfter 3).now = ("fresh", none) ∧
      classifyStaleness (oldestAsOf [syncedHolding]) (requestAfter 26).now =
        ("very_stale", some healthStaleWarning) := by
  refine ⟨fun hagrees => ?_, by decide +kernel, by decide +kernel⟩
  have hempty : CacheHolds sampleResponseJson 5 [syncedHolding] (fun _ => none) none := rfl
  have hnone := (serveAll_spec (by decide +kernel) hempty (by simp)).mp hagrees
  exact absurd hnone (by decide +kernel)

end Nivara.Portfolio
