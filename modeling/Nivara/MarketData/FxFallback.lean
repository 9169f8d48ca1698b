import Nivara.Common.Json

/-!
# `FredEcbClient`: USD/INR from FRED, or else from the ECB

`data/fred.py`, lines 38–274. The composite client catches an `FxFetchError` of the FRED
client and asks the ECB client. Each client turns an `httpx.HTTPError` into one; what else goes
wrong in `resp.json()` and, for FRED, in reading the payload keeps the type the interpreter
gave it.

* The network is a function from requests to replies.
* `as_of` of an observation is midnight UTC of a date.
* An `FxFetchError` has the fixed part of its text and the exception it was raised from.

Results:

* `FredClient.getLatestUsdInr_eq_ok`, `FredClient.isFxFetchError_iff`: when the FRED client
  returns, and when the composite client goes on.
* `EcbClient.only_parse`, `EcbClient.only_getLatestUsdInr`: the payloads all errors of which
  are translated.
* `fallsBack_iff`: when the composite client does what it is for.
* `notJson_escapes`: a body of FRED that is no JSON.
-/

namespace Nivara.MarketData

open Raises

/-! ## Model -/

/-- `FxObservation`. -/
structure FxObservation where
  baseCurrency : String
  quoteCurrency : String
  rate : PyDecimal
  asOf : Date
  source : String
  deriving DecidableEq

/-- What the clients raise. -/
inductive Raised
  | fxFetchError (text : String) (cause : Option PyError)
  | fredApiKeyMissingError (text : String)
  | other (e : PyError)
  deriving DecidableEq

/-- `isinstance(exc, FxFetchError)`. -/
def Raised.IsFxFetchError : Raised → Prop
  | fxFetchError _ _ => True
  | fredApiKeyMissingError _ => True
  | other _ => False

def FRED_BASE_URL : String := "https://api.stlouisfed.org/fred/series/observations"

def ECB_BASE_URL : String := "https://sdw-wsrest.ecb.europa.eu/service/data/EXR/D.INR.USD.SP00.A"

def FRED_SERIES_USD_INR : String := "DEXINUS"

section Model

variable {F : Type} (f : Floats F) (http : Request → Reply F)

/-- The request of the FRED client (lines 96–105). -/
def FredClient.request (apiKey : String) (asOf : Option Date) : Request where
  url := FRED_BASE_URL
  params := [("series_id", FRED_SERIES_USD_INR), ("api_key", apiKey), ("file_type", "json"),
      ("sort_order", "desc"), ("limit", "10")] ++
    (asOf.map fun d => ("observation_end", d.isoformat)).toList
  headers := []

/-- The request of the ECB client (lines 175–177, 238). -/
def EcbClient.request (asOf : Option Date) : Request where
  url := ECB_BASE_URL
  params := [("format", "jsondata")] ++ (asOf.map fun d => ("endPeriod", d.isoformat)).toList
  headers := [("Accept", "application/vnd.sdmx.data+json;version=1.0.0-wd")]

/-- `_request_json` with the handler around it: `text` is that of the `FxFetchError`. -/
def requestJson (text : String) (request : Request) : Except Raised (Json F) :=
  match (http request).raiseForStatus with
  | .error e => .error (.fxFetchError text (some e))
  | .ok body => body.read.mapError .other

/-- `value in (None, "", ".")`. -/
def isMissing (value : Json F) : Bool := value.isNull || value.isText "" || value.isText "."

/-- The body of the loop of the FRED client (lines 114–133). -/
def FredClient.reading (obs : Json F) : Except PyError (Option FxObservation) := do
  let value ← obs.get "value"
  let obsDate ← obs.get "date"
  if isMissing value then return none
  match value.decimal f with
  | none => return none
  | some rate =>
    match obsDate.isoDate with
    | .error _ => return none
    | .ok d =>
      return some
        { baseCurrency := "USD", quoteCurrency := "INR", rate := rate, asOf := d, source := "fred" }

/-- Lines 112–133. -/
def FredClient.parse (payload : Json F) : Except PyError (Option FxObservation) := do
  let observations := (← payload.get "observations").orElse f (.arr [])
  (← observations.iter).findSomeM? (FredClient.reading f)

/-- The key, when `not self._api_key` does not hold. -/
def FredClient.key (apiKey : Option String) : Option String := apiKey.filter (· ≠ "")

/-- `FredClient.get_latest_usd_inr`. -/
def FredClient.getLatestUsdInr (apiKey : Option String) (asOf : Option Date) :
    Except Raised FxObservation :=
  match FredClient.key apiKey with
  | none => .error (.fredApiKeyMissingError "FRED_API_KEY is not configured")
  | some apiKey => do
    let payload ← requestJson http "FRED HTTP error" (FredClient.request apiKey asOf)
    match ← (FredClient.parse f payload).mapError .other with
    | some o => return o
    | none => .error (.fxFetchError "FRED returned no usable USD/INR observations" none)

/-- `d.get("id") == "TIME_PERIOD"`. -/
def EcbClient.timeDimension (d : Json F) : Except PyError (Option (Json F)) := do
  let id ← d.get "id"
  return if id.isText "TIME_PERIOD" then some d else none

/-- `time_values[idx]`: a negative index counts from the end. -/
def EcbClient.timeValue (timeValues : List (Json F)) (idx : ℤ) : Except PyError (Json F) :=
  let position := if idx < 0 then timeValues.length + idx else idx
  if position < 0 then .error .indexError
  else
    match timeValues[position.toNat]? with
    | some v => .ok v
    | none => .error .indexError

/-- The body of the loop of the ECB client (lines 210–229). -/
def EcbClient.reading (observations : Json F) (timeValues : List (Json F)) (idx : ℤ) :
    Except PyError (Option FxObservation) := do
  let rawValue ← observations.itemAt (py (toString idx))
  if !rawValue.truthy f then return none
  let value ← rawValue.item0
  if value.isNull then return none
  match value.decimal f with
  | none => return none
  | some rate =>
    if timeValues.length ≤ idx then return none
    let d ← (← EcbClient.timeValue timeValues idx).isoDate
    return some { baseCurrency := "USD", quoteCurrency := "INR", rate := rate, asOf := d, source := "ecb" }

/-- Lines 205–229 and line 235; the inner error is the text of an `FxFetchError`. -/
def EcbClient.parseObservations (observations timeDim : Json F) :
    Except PyError (Except String FxObservation) := do
  let timeValues ← (← ((← timeDim.get "values").orElse f (.arr [])).iter).mapM (Json.get "id")
  let indices ← (← observations.iter).mapM (Json.toInt f)
  match ← (indices.insertionSort (· ≥ ·)).findSomeM? (EcbClient.reading f observations timeValues) with
  | some o => return .ok o
  | none => return .error "ECB returned no usable USD/INR observations"

/-- From line 200 on. -/
def EcbClient.parseStructure (payload observations : Json F) :
    Except PyError (Except String FxObservation) := do
  let structure' := (← payload.get "structure").orElse f (.obj [])
  let dimensions := (← structure'.get "dimensions").orElse f (.obj [])
  let dims := (← dimensions.get "observation").orElse f (.arr [])
  match ← (← dims.iter).findSomeM? EcbClient.timeDimension with
  | none => return .error "ECB response missing TIME_PERIOD dimension"
  | some timeDim => EcbClient.parseObservations f observations timeDim

/-- From line 188 on. -/
def EcbClient.parse (payload : Json F) : Except PyError (Except String FxObservation) := do
  let dataSets := (← payload.get "dataSets").orElse f (.arr [])
  if !dataSets.truthy f then return .error "ECB returned no dataSets"
  let seriesMap := (← (← dataSets.item0).get "series").orElse f (.obj [])
  if !seriesMap.truthy f then return .error "ECB returned no series"
  let observations := (← (← seriesMap.firstValue).get "observations").orElse f (.obj [])
  if !observations.truthy f then return .error "ECB returned no observations"
  EcbClient.parseStructure f payload observations

/-- `except (KeyError, ValueError, TypeError, StopIteration)`. -/
def EcbClient.Caught (e : PyError) : Prop := e ∈ [.keyError, .valueError, .typeError, .stopIteration]

instance : DecidablePred EcbClient.Caught := fun _ => inferInstanceAs (Decidable (_ ∈ _))

/-- `EcbClient.get_latest_usd_inr`. -/
def EcbClient.getLatestUsdInr (asOf : Option Date) : Except Raised FxObservation := do
  let payload ← requestJson http "ECB HTTP error" (EcbClient.request asOf)
  match EcbClient.parse f payload with
  | .ok (.ok o) => return o
  | .ok (.error text) => .error (.fxFetchError text none)
  | .error e => .error (if EcbClient.Caught e then .fxFetchError "ECB parse error" (some e) else .other e)

/-- A call of the composite client: the requests it has sent, and how it ends. -/
structure Call where
  requests : List Request
  outcome : Except Raised FxObservation
  deriving DecidableEq

/-- `FredEcbClient.get_latest_usd_inr`. Without a key, FRED is not asked. -/
def FredEcbClient.getLatestUsdInr (apiKey : Option String) (asOf : Option Date) : Call :=
  let fredRequests := ((FredClient.key apiKey).map fun key => FredClient.request key asOf).toList
  match FredClient.getLatestUsdInr f http apiKey asOf with
  | .ok o => ⟨fredRequests, .ok o⟩
  | .error (.other e) => ⟨fredRequests, .error (.other e)⟩
  | .error _ => ⟨fredRequests ++ [EcbClient.request asOf], EcbClient.getLatestUsdInr f http asOf⟩

end Model

/-! ## FRED -/

section Fred

variable {F : Type} (f : Floats F)

/-- An entry of `observations` that holds a number and a date. -/
structure FredClient.Usable (obs : Json F) (rate : PyDecimal) (d : Date) : Prop where
  isObject : obs.IsObject
  value : isMissing (obs.field "value") = false ∧ (obs.field "value").decimal f = some rate
  date : (obs.field "date").isoDate = .ok d

/-- An entry that the loop goes past. -/
def FredClient.Skipped (obs : Json F) : Prop := obs.IsObject ∧ ∀ rate d, ¬FredClient.Usable f obs rate d

/-- The first entry that the loop does not go past holds `rate` and `d`. -/
def FredClient.Finds (payload : Json F) (rate : PyDecimal) (d : Date) : Prop :=
  ∃ before obs after, payload.field "observations" = .arr (before ++ obs :: after) ∧
    (∀ o ∈ before, FredClient.Skipped f o) ∧ FredClient.Usable f obs rate d

/-- There is no entry, or the loop goes past all of them. -/
def FredClient.Empty (payload : Json F) : Prop :=
  payload.IsObject ∧ ((payload.field "observations").truthy f = false ∨
    ∃ l, payload.field "observations" = .arr l ∧ ∀ o ∈ l, FredClient.Skipped f o)

/-- What the FRED client makes of an entry. -/
def FredClient.observation (rate : PyDecimal) (d : Date) : FxObservation :=
  { baseCurrency := "USD", quoteCurrency := "INR", rate := rate, asOf := d, source := "fred" }

variable {f}

/-- Whatever an object holds, the loop goes past it or returns. -/
theorem FredClient.exists_reading {obs : Json F} :
    (∃ r, FredClient.reading f obs = .ok r) ↔ obs.IsObject := by
  constructor
  · rintro ⟨r, h⟩
    cases obs <;> first | cases h | trivial
  · intro hobj
    unfold FredClient.reading
    rw [Json.get_of_isObject hobj, Json.get_of_isObject hobj]
    simp only [bind, Except.bind, pure, Except.pure]
    split
    · exact ⟨_, rfl⟩
    · split
      · exact ⟨_, rfl⟩
      · split <;> exact ⟨_, rfl⟩

theorem FredClient.reading_eq_some {obs : Json F} {o : FxObservation} :
    FredClient.reading f obs = .ok (some o) ↔
      ∃ rate d, FredClient.Usable f obs rate d ∧ o = FredClient.observation rate d := by
  by_cases hobj : obs.IsObject
  · unfold FredClient.reading
    rw [Json.get_of_isObject hobj, Json.get_of_isObject hobj]
    simp only [bind, Except.bind, pure, Except.pure]
    constructor
    · intro h
      split at h
      · cases h
      rename_i hmissing
      split at h
      · cases h
      rename_i rate hrate
      split at h
      · cases h
      rename_i d hd
      cases h
      exact ⟨rate, d, ⟨hobj, ⟨by simpa using hmissing, hrate⟩, hd⟩, rfl⟩
    · rintro ⟨rate, d, hu, rfl⟩
      simp [hu.value.1, hu.value.2, hu.date, FredClient.observation]
  · constructor
    · intro h
      exact absurd (FredClient.exists_reading.mp ⟨_, h⟩) hobj
    · rintro ⟨rate, d, hu, -⟩
      exact absurd hu.isObject hobj

theorem FredClient.reading_eq_none {obs : Json F} :
    FredClient.reading f obs = .ok none ↔ FredClient.Skipped f obs := by
  constructor
  · intro h
    refine ⟨FredClient.exists_reading.mp ⟨_, h⟩, ?_⟩
    intro rate d hu
    rw [FredClient.reading_eq_some.mpr ⟨rate, d, hu, rfl⟩] at h
    cases h
  · rintro ⟨hobj, hnot⟩
    obtain ⟨r, hr⟩ := FredClient.exists_reading (f := f).mpr hobj
    cases r with
    | none => exact hr
    | some o =>
      obtain ⟨rate, d, hu, -⟩ := FredClient.reading_eq_some.mp hr
      exact absurd hu (hnot rate d)

/-- The loop ends without an exception when there is none, or when it runs over a list. -/
theorem FredClient.parse_eq_ok {payload : Json F} {r : Option FxObservation} :
    FredClient.parse f payload = .ok r ↔ payload.IsObject ∧
      (((payload.field "observations").truthy f = false ∧ r = none) ∨
        ∃ l, payload.field "observations" = .arr l ∧ l.findSomeM? (FredClient.reading f) = .ok r) := by
  constructor
  · intro h
    obtain ⟨w, hw, h⟩ := Loop.of_bind_eq_ok h
    obtain ⟨l, hl, h⟩ := Loop.of_bind_eq_ok h
    obtain ⟨hobj, rfl⟩ := Json.get_eq_ok.mp hw
    refine ⟨hobj, ?_⟩
    cases ht : (payload.field "observations").truthy f with
    | false =>
      rw [Json.orElse, ht] at hl
      cases hl
      exact .inl ⟨rfl, (Except.ok.inj h).symm⟩
    | true =>
      rw [Json.orElse, ht, if_pos rfl] at hl
      obtain ⟨a, rest, rfl⟩ := Json.exists_cons_of_iter f hl ht
      -- the first round reads an object
      have ha : a.IsObject := by
        rw [List.findSomeM?_cons] at h
        obtain ⟨o, ho, -⟩ := Loop.of_bind_eq_ok h
        exact FredClient.exists_reading.mp ⟨o, ho⟩
      exact .inr ⟨a :: rest, Json.eq_arr_of_iter hl ha, h⟩
  · rintro ⟨hobj, h⟩
    unfold FredClient.parse
    rw [Json.get_of_isObject hobj]
    rcases h with ⟨ht, rfl⟩ | ⟨l, hl, h⟩
    · simp only [bind, Except.bind, Json.orElse, ht]
      rfl
    · rw [hl]
      cases l with
      | nil => exact h
      | cons a l => exact h

theorem FredClient.parse_eq_some {payload : Json F} {o : FxObservation} :
    FredClient.parse f payload = .ok (some o) ↔
      ∃ rate d, FredClient.Finds f payload rate d ∧ o = FredClient.observation rate d := by
  rw [FredClient.parse_eq_ok]
  constructor
  · rintro ⟨-, ⟨-, h⟩ | ⟨l, hl, h⟩⟩
    · cases h
    · obtain ⟨before, obs, after, rfl, hbefore, hobs⟩ := findSomeM?_eq_some.mp h
      obtain ⟨rate, d, hu, rfl⟩ := FredClient.reading_eq_some.mp hobs
      have hskipped : ∀ b ∈ before, FredClient.Skipped f b := fun b hb =>
        FredClient.reading_eq_none.mp (hbefore b hb)
      exact ⟨rate, d, ⟨before, obs, after, hl, hskipped, hu⟩, rfl⟩
  · rintro ⟨rate, d, ⟨before, obs, after, hl, hbefore, hu⟩, rfl⟩
    have hobj : payload.IsObject := by
      cases payload <;> trivial
    exact ⟨hobj, .inr ⟨_, hl, findSomeM?_eq_some.mpr ⟨before, obs, after, rfl,
      fun b hb => FredClient.reading_eq_none.mpr (hbefore b hb),
      FredClient.reading_eq_some.mpr ⟨rate, d, hu, rfl⟩⟩⟩⟩

theorem FredClient.parse_eq_none {payload : Json F} :
    FredClient.parse f payload = .ok none ↔ FredClient.Empty f payload := by
  rw [FredClient.parse_eq_ok]
  simp only [findSomeM?_eq_none, FredClient.reading_eq_none, and_true, FredClient.Empty]

end Fred

/-! ## ECB -/

section Ecb

variable {F : Type} (f : Floats F)

/-- The dimension that the ECB client looks for. -/
def EcbClient.IsTimePeriod (d : Json F) : Prop := (d.field "id").isText "TIME_PERIOD" = true

/-- The first of the dimensions that is about time, after others that are objects. -/
def EcbClient.FirstTimePeriod (ds : List (Json F)) (d : Json F) : Prop :=
  ∃ before after, ds = before ++ d :: after ∧ (∀ b ∈ before, b.IsObject ∧ ¬EcbClient.IsTimePeriod b) ∧
    d.IsObject ∧ EcbClient.IsTimePeriod d

/-- The loop over the indices goes past `idx`, when there are `n` times. -/
def EcbClient.Passed (observations : Json F) (n : ℕ) (idx : ℤ) : Prop :=
  ∃ raw, observations.itemAt (py (toString idx)) = .ok raw ∧
    (raw.truthy f = true → ∃ value, raw.item0 = .ok value ∧ (value.decimal f = none ∨ n ≤ idx))

/-- At `idx` there is a number, and `idx` is too far below 0 for `n` times. -/
def EcbClient.BeforeTimes (observations : Json F) (n : ℕ) (idx : ℤ) : Prop :=
  idx < -n ∧ ∃ raw value rate, observations.itemAt (py (toString idx)) = .ok raw ∧ raw.truthy f = true ∧
    raw.item0 = .ok value ∧ value.decimal f = some rate

/-- No index is an infinite double, as far as they are read, and none that is too far below 0 is
    reached. -/
def EcbClient.IndicesShaped (observations : Json F) (n : ℕ) (ks : List (Json F)) : Prop :=
  (∀ before k after, ks = before ++ k :: after → (∀ b ∈ before, ∃ i, b.toInt f = .ok i) →
    k.toInt f ≠ .error .overflowError) ∧
  ((∀ k ∈ ks, ∃ i, k.toInt f = .ok i) →
    ∀ k ∈ ks, ∀ i, k.toInt f = .ok i → EcbClient.BeforeTimes f observations n i →
      ∃ k' ∈ ks, ∃ j, k'.toInt f = .ok j ∧ i < j ∧ ¬EcbClient.Passed f observations n j)

def EcbClient.ObservationsShaped (observations timeDim : Json F) : Prop :=
  ∀ vs, ((timeDim.field "values").orElse f (.arr [])).iter = .ok vs → (∀ v ∈ vs, v.IsObject) ∧
    ∀ ks, observations.iter = .ok ks → EcbClient.IndicesShaped f observations vs.length ks

def EcbClient.StructureShaped (payload observations : Json F) : Prop :=
  let structure' := payload.field "structure"
  let dimensions := structure'.field "dimensions"
  (structure'.truthy f = true → structure'.IsObject) ∧ (dimensions.truthy f = true → dimensions.IsObject) ∧
    ∀ ds, ((dimensions.field "observation").orElse f (.arr [])).iter = .ok ds →
      (∀ before d after, ds = before ++ d :: after →
        (∀ b ∈ before, b.IsObject ∧ ¬EcbClient.IsTimePeriod b) → d.IsObject) ∧
      ∀ timeDim, EcbClient.FirstTimePeriod ds timeDim → EcbClient.ObservationsShaped f observations timeDim

/-- As far as it is read, a payload has objects where the client asks for members, and indices
    that `int` and the list of the times take. -/
def EcbClient.Shaped (payload : Json F) : Prop :=
  payload.IsObject ∧ ((payload.field "dataSets").truthy f = true →
    ∀ first, (payload.field "dataSets").item0 = .ok first → first.IsObject ∧
      ((first.field "series").truthy f = true → (first.field "series").IsObject ∧
        ∀ s, (first.field "series").firstValue = .ok s → s.IsObject ∧
          ((s.field "observations").truthy f = true →
            EcbClient.StructureShaped f payload (s.field "observations"))))

variable {f}

theorem EcbClient.only_item0 {v : Json F} (h : v.truthy f = true) : Only EcbClient.Caught v.item0 := by
  cases v with
  | arr values => cases values <;> simp [Json.truthy, Json.item0] at h ⊢
  | str s => cases s <;> simp [Json.truthy, Json.item0] at h ⊢
  | _ => simp [Json.item0, EcbClient.Caught]

theorem EcbClient.only_firstValue {v : Json F} : Only EcbClient.Caught v.firstValue ↔ v.IsObject := by
  cases v with
  | obj members => cases members <;> simp [Json.firstValue, EcbClient.Caught, Json.IsObject]
  | _ => simp [Json.firstValue, EcbClient.Caught, Json.IsObject]

@[simp] theorem EcbClient.only_iter (v : Json F) : Only EcbClient.Caught v.iter := by
  cases v <;> simp [Json.iter, EcbClient.Caught]

@[simp] theorem EcbClient.only_itemAt (v : Json F) (key : PyStr) :
    Only EcbClient.Caught (v.itemAt key) := by
  cases v with
  | obj members =>
    cases hm : members.lookup key <;> simp [Json.itemAt, hm, EcbClient.Caught]
  | _ => simp [Json.itemAt, EcbClient.Caught]

@[simp] theorem EcbClient.only_isoDate (v : Json F) : Only EcbClient.Caught v.isoDate := by
  cases v with
  | str s =>
    cases hd : Date.fromisoformat s <;> simp [Json.isoDate, hd, EcbClient.Caught]
  | _ => simp [Json.isoDate, EcbClient.Caught]

theorem EcbClient.only_toInt {v : Json F} :
    Only EcbClient.Caught (v.toInt f) ↔ v.toInt f ≠ .error .overflowError := by
  cases v with
  | str s =>
    cases hs : Literals.int s <;> simp [Json.toInt, hs, EcbClient.Caught]
  | float x =>
    cases hx : f.kind x <;> simp [Json.toInt, hx, EcbClient.Caught]
  | _ => simp [Json.toInt, EcbClient.Caught]

theorem EcbClient.only_timeValue {l : List (Json F)} {idx : ℤ} (h : idx < l.length) :
    Only EcbClient.Caught (EcbClient.timeValue l idx) ↔ -l.length ≤ idx := by
  unfold EcbClient.timeValue
  dsimp only
  by_cases hidx : -(l.length : ℤ) ≤ idx
  · have hposition : ¬(if idx < 0 then l.length + idx else idx) < 0 := by split_ifs <;> omega
    have hlt : (if idx < 0 then l.length + idx else idx).toNat < l.length := by split_ifs <;> omega
    rw [if_neg hposition, List.getElem?_eq_getElem hlt]
    simp [hidx]
  · have hposition : (if idx < 0 then l.length + idx else idx) < 0 := by split_ifs <;> omega
    rw [if_pos hposition]
    simp [hidx, EcbClient.Caught]

theorem EcbClient.only_reading {observations : Json F} {timeValues : List (Json F)} {idx : ℤ} :
    Only EcbClient.Caught (EcbClient.reading f observations timeValues idx) ↔
      ¬EcbClient.BeforeTimes f observations timeValues.length idx := by
  unfold EcbClient.reading
  constructor
  · rintro h ⟨hidx, raw, value, rate, hraw, ht, hvalue, hrate⟩
    have h := (only_bind.mp h).2 raw hraw
    rw [ht] at h
    have h := (only_bind.mp h).2 value hvalue
    rw [Json.isNull_of_decimal f hrate, hrate] at h
    have hlt : ¬(timeValues.length : ℤ) ≤ idx := by omega
    simp only [Bool.false_eq_true, if_false, hlt] at h
    have := (EcbClient.only_timeValue (by omega)).mp (only_bind.mp h).1
    omega
  · intro hnot
    refine only_bind.mpr ⟨EcbClient.only_itemAt _ _, ?_⟩
    intro raw hraw
    cases ht : raw.truthy f with
    | false => simp
    | true =>
      refine only_bind.mpr ⟨EcbClient.only_item0 ht, ?_⟩
      intro value hvalue
      cases hrate : value.decimal f with
      | none => simp
      | some rate =>
        simp only [only_ite, only_bind, only_pure, EcbClient.only_isoDate, implies_true, and_true, true_and]
        intro _ hlt
        rw [EcbClient.only_timeValue (by omega)]
        by_contra hidx
        exact hnot ⟨by omega, raw, value, rate, hraw, ht, hvalue, hrate⟩

/-- The loop goes past an index with no value, with no number, or past the times. -/
theorem EcbClient.reading_eq_none {observations : Json F} {timeValues : List (Json F)} {idx : ℤ} :
    EcbClient.reading f observations timeValues idx = .ok none ↔
      EcbClient.Passed f observations timeValues.length idx := by
  unfold EcbClient.reading
  constructor
  · intro h
    obtain ⟨raw, hraw, h⟩ := Loop.of_bind_eq_ok h
    refine ⟨raw, hraw, ?_⟩
    intro ht
    rw [ht] at h
    obtain ⟨value, hvalue, h⟩ := Loop.of_bind_eq_ok h
    refine ⟨value, hvalue, ?_⟩
    cases hrate : value.decimal f with
    | none => exact .inl rfl
    | some rate =>
      right
      rw [Json.isNull_of_decimal f hrate, hrate] at h
      by_contra hlt
      simp only [Bool.false_eq_true, if_false, hlt] at h
      obtain ⟨v, -, h⟩ := Loop.of_bind_eq_ok h
      obtain ⟨d, -, h⟩ := Loop.of_bind_eq_ok h
      cases h
  · rintro ⟨raw, hraw, h⟩
    rw [hraw]
    change (if (!raw.truthy f) = true then _ else _) = _
    cases ht : raw.truthy f with
    | false => rfl
    | true =>
      obtain ⟨value, hvalue, h⟩ := h ht
      rw [hvalue]
      change (if value.isNull = true then _ else _) = _
      cases hnull : value.isNull with
      | true => rfl
      | false =>
        rcases h with h | h
        · rw [h]
          rfl
        · cases hrate : value.decimal f with
          | none => rfl
          | some rate => simp only [Bool.false_eq_true, if_false, h, if_true]; rfl

/-- The loop runs over the indices from the highest down. -/
theorem EcbClient.only_indices {observations : Json F} {timeValues ks : List (Json F)} :
    (Only EcbClient.Caught (ks.mapM (Json.toInt f)) ∧ ∀ is, ks.mapM (Json.toInt f) = .ok is →
      Only EcbClient.Caught
        ((is.insertionSort (· ≥ ·)).findSomeM? (EcbClient.reading f observations timeValues))) ↔
      EcbClient.IndicesShaped f observations timeValues.length ks := by
  refine and_congr ?_ ?_
  · simp only [only_mapM, EcbClient.only_toInt]
  · have hsorted : ∀ is : List ℤ, (is.insertionSort (· ≥ ·)).Pairwise (· ≥ ·) := fun is =>
      List.pairwise_insertionSort _ is
    simp only [only_findSomeM?_sorted (hsorted _), EcbClient.only_reading, EcbClient.reading_eq_none,
      List.mem_insertionSort]
    constructor
    · intro h hall k hk i hi hbefore
      obtain ⟨is, his⟩ := exists_mapM_eq_ok.mpr hall
      by_contra hnone
      push Not at hnone
      refine h is his i ((mem_of_mapM his).mpr ⟨k, hk, hi⟩) ?_ hbefore
      intro j hj hij hne
      obtain ⟨k', hk', hj'⟩ := (mem_of_mapM his).mp hj
      exact hnone k' hk' j hj' (by omega)
    · intro h is his i hi hpassed hbefore
      obtain ⟨k, hk, hki⟩ := (mem_of_mapM his).mp hi
      obtain ⟨k', hk', j, hj, hij, hnot⟩ := h (exists_mapM_eq_ok.mp ⟨is, his⟩) k hk i hki hbefore
      exact hnot (hpassed j ((mem_of_mapM his).mpr ⟨k', hk', hj⟩) (by omega) (by omega))

theorem EcbClient.only_parseObservations {observations timeDim : Json F} (h : timeDim.IsObject) :
    Only EcbClient.Caught (EcbClient.parseObservations f observations timeDim) ↔
      EcbClient.ObservationsShaped f observations timeDim := by
  have hend : ∀ x : Except PyError (Option FxObservation),
      (Only EcbClient.Caught (x >>= fun r => match r with
        | some o => pure (Except.ok o)
        | none => pure (Except.error "ECB returned no usable USD/INR observations"))) ↔
        Only EcbClient.Caught x := by
    intro x
    rw [only_bind]
    refine and_iff_left ?_
    intro r _
    cases r <;> simp
  unfold EcbClient.parseObservations EcbClient.ObservationsShaped
  rw [Json.get_of_isObject h]
  change Only _ (Json.iter _ >>= _) ↔ _
  rw [only_bind, and_iff_right (EcbClient.only_iter _)]
  refine forall_congr' fun vs => imp_congr_right fun _ => ?_
  rw [only_bind, Json.only_mapM_get (by decide)]
  refine and_congr_right fun hvs => ?_
  rw [Json.mapM_get_eq_ok.mpr ⟨hvs, rfl⟩]
  simp only [Except.ok.injEq, forall_eq']
  rw [only_bind, and_iff_right (EcbClient.only_iter _)]
  refine forall_congr' fun ks => imp_congr_right fun _ => ?_
  rw [only_bind]
  simp only [hend]
  rw [EcbClient.only_indices, List.length_map]

theorem EcbClient.timeDimension_eq_none {d : Json F} :
    EcbClient.timeDimension d = .ok none ↔ d.IsObject ∧ ¬EcbClient.IsTimePeriod d := by
  unfold EcbClient.timeDimension EcbClient.IsTimePeriod
  constructor
  · intro h
    obtain ⟨id, hid, h⟩ := Loop.of_bind_eq_ok h
    obtain ⟨hobj, rfl⟩ := Json.get_eq_ok.mp hid
    refine ⟨hobj, ?_⟩
    intro ht
    rw [if_pos ht] at h
    cases h
  · rintro ⟨hobj, ht⟩
    rw [Json.get_of_isObject hobj]
    simp only [bind, Except.bind, if_neg ht]
    rfl

theorem EcbClient.timeDimension_eq_some {d t : Json F} :
    EcbClient.timeDimension d = .ok (some t) ↔ d.IsObject ∧ EcbClient.IsTimePeriod d ∧ d = t := by
  unfold EcbClient.timeDimension EcbClient.IsTimePeriod
  constructor
  · intro h
    obtain ⟨id, hid, h⟩ := Loop.of_bind_eq_ok h
    obtain ⟨hobj, rfl⟩ := Json.get_eq_ok.mp hid
    split_ifs at h with ht
    · cases h
      exact ⟨hobj, ht, rfl⟩
    · cases h
  · rintro ⟨hobj, ht, rfl⟩
    rw [Json.get_of_isObject hobj]
    simp only [bind, Except.bind, if_pos ht]
    rfl

theorem EcbClient.only_timeDimension {d : Json F} :
    Only EcbClient.Caught (EcbClient.timeDimension d) ↔ d.IsObject := by
  simp [EcbClient.timeDimension, EcbClient.Caught]

theorem EcbClient.only_parseStructure {payload observations : Json F} (h : payload.IsObject) :
    Only EcbClient.Caught (EcbClient.parseStructure f payload observations) ↔
      EcbClient.StructureShaped f payload observations := by
  unfold EcbClient.parseStructure EcbClient.StructureShaped
  rw [Json.get_of_isObject h]
  change Only _ (Json.get _ _ >>= _) ↔ _
  have hcaught : ¬EcbClient.Caught .attributeError := by decide
  rw [only_bind, Json.only_get, or_iff_left hcaught, Json.isObject_orElse]
  refine and_congr_right fun hstructure => ?_
  rw [Json.get_of_isObject ((Json.isObject_orElse f).mpr hstructure)]
  simp only [Except.ok.injEq, forall_eq', Json.field_orElse]
  rw [only_bind, Json.only_get, or_iff_left hcaught, Json.isObject_orElse]
  refine and_congr_right fun hdimensions => ?_
  rw [Json.get_of_isObject ((Json.isObject_orElse f).mpr hdimensions)]
  simp only [Except.ok.injEq, forall_eq', Json.field_orElse]
  rw [only_bind, and_iff_right (EcbClient.only_iter _)]
  refine forall_congr' fun ds => imp_congr_right fun _ => ?_
  rw [only_bind, only_findSomeM?]
  simp only [EcbClient.timeDimension_eq_none, EcbClient.only_timeDimension]
  refine and_congr_right fun _ => ?_
  constructor
  · rintro hrest timeDim ⟨before, after, rfl, hbefore, hobj, ht⟩
    rw [← EcbClient.only_parseObservations hobj]
    apply hrest (some timeDim)
    refine findSomeM?_eq_some.mpr ⟨before, timeDim, after, rfl, ?_, ?_⟩
    · intro b hb
      exact EcbClient.timeDimension_eq_none.mpr (hbefore b hb)
    · exact EcbClient.timeDimension_eq_some.mpr ⟨hobj, ht, rfl⟩
  · intro hrest r hr
    cases r with
    | none => simp
    | some timeDim =>
      obtain ⟨before, d, after, rfl, hbefore, hd⟩ := findSomeM?_eq_some.mp hr
      obtain ⟨hobj, ht, rfl⟩ := EcbClient.timeDimension_eq_some.mp hd
      rw [EcbClient.only_parseObservations hobj]
      refine hrest d ⟨before, after, rfl, ?_, hobj, ht⟩
      intro b hb
      exact EcbClient.timeDimension_eq_none.mp (hbefore b hb)

theorem EcbClient.only_parse {payload : Json F} :
    Only EcbClient.Caught (EcbClient.parse f payload) ↔ EcbClient.Shaped f payload := by
  unfold EcbClient.parse EcbClient.Shaped
  have hcaught : ¬EcbClient.Caught .attributeError := by decide
  have harr : (Json.arr []).truthy f = false := rfl
  have hobj : (Json.obj []).truthy f = false := rfl
  rw [only_bind, Json.only_get, or_iff_left hcaught]
  refine and_congr_right fun h => ?_
  rw [Json.get_of_isObject h]
  simp only [Except.ok.injEq, forall_eq', Json.truthy_orElse f harr]
  cases hds : (payload.field "dataSets").truthy f with
  | false => simp
  | true =>
    simp only [Bool.not_true, Bool.false_eq_true, if_false, forall_const, Json.orElse_of_truthy f hds]
    rw [only_bind, and_iff_right (EcbClient.only_item0 hds)]
    refine forall_congr' fun first => imp_congr_right fun _ => ?_
    rw [only_bind, Json.only_get, or_iff_left hcaught]
    refine and_congr_right fun hfirst => ?_
    rw [Json.get_of_isObject hfirst]
    simp only [Except.ok.injEq, forall_eq', Json.truthy_orElse f hobj]
    cases hs : (first.field "series").truthy f with
    | false => simp
    | true =>
      simp only [Bool.not_true, Bool.false_eq_true, if_false, forall_const, Json.orElse_of_truthy f hs]
      rw [only_bind, EcbClient.only_firstValue]
      refine and_congr_right fun _ => forall_congr' fun series => imp_congr_right fun _ => ?_
      rw [only_bind, Json.only_get, or_iff_left hcaught]
      refine and_congr_right fun hseries => ?_
      rw [Json.get_of_isObject hseries]
      simp only [Except.ok.injEq, forall_eq']
      cases ho : (series.field "observations").truthy f with
      | false => simp
      | true =>
        simp only [Bool.not_true, Bool.false_eq_true, if_false, forall_const, Json.orElse_of_truthy f ho]
        exact EcbClient.only_parseStructure h

end Ecb

/-! ## Both -/

section Composite

variable {F : Type} (f : Floats F) (http : Request → Reply F) (apiKey : Option String) (asOf : Option Date)

/-- The first entry with a number and a date holds a positive number. -/
def FredClient.Answers : Prop :=
  ∃ key v rate d, FredClient.key apiKey = some key ∧ Reply.Answered (http (FredClient.request key asOf)) v ∧
    FredClient.Finds f v rate d ∧ rate.IsPositive

/-- There is no key, no answer, or nothing in the answer. -/
def FredClient.Fails : Prop :=
  FredClient.key apiKey = none ∨ ∃ key, FredClient.key apiKey = some key ∧
    (Reply.Refused (http (FredClient.request key asOf)) ∨
      ∃ v, Reply.Answered (http (FredClient.request key asOf)) v ∧ FredClient.Empty f v)

/-- There is no answer, or one whose errors are translated. -/
def EcbClient.Handles : Prop :=
  Reply.Refused (http (EcbClient.request asOf)) ∨
    ∃ v, Reply.Answered (http (EcbClient.request asOf)) v ∧ EcbClient.Shaped f v

/-- An observation with a positive rate, made of an entry of the answer of FRED. -/
structure FromFred (o : FxObservation) : Prop where
  positive : o.rate.IsPositive
  labels : o.baseCurrency = "USD" ∧ o.quoteCurrency = "INR" ∧ o.source = "fred"
  entry : ∃ key v l, FredClient.key apiKey = some key ∧
    Reply.Answered (http (FredClient.request key asOf)) v ∧ v.field "observations" = .arr l ∧
    ∃ obs ∈ l, FredClient.Usable f obs o.rate o.asOf

/-- What the composite client is for. -/
structure FallsBack : Prop where
  answer : (∃ o, (FredEcbClient.getLatestUsdInr f http apiKey asOf).outcome = .ok o ∧
      FromFred f http apiKey asOf o) ∨
    EcbClient.request asOf ∈ (FredEcbClient.getLatestUsdInr f http apiKey asOf).requests
  error : ∀ e, (FredEcbClient.getLatestUsdInr f http apiKey asOf).outcome = .error e → e.IsFxFetchError ∧
    (∃ e', FredClient.getLatestUsdInr f http apiKey asOf = .error e') ∧
    ∃ e', EcbClient.getLatestUsdInr f http asOf = .error e'

variable {f http apiKey asOf}

theorem requestJson_eq_ok {text : String} {request : Request} {v : Json F} :
    requestJson http text request = .ok v ↔ Reply.Answered (http request) v := by
  unfold requestJson Reply.Answered
  rcases http request with _ | ⟨status, body⟩
  · simp [Reply.raiseForStatus]
  · by_cases hstatus : 200 ≤ status ∧ status < 300
    · cases body <;> simp [Reply.raiseForStatus, hstatus, Body.read, Except.mapError]
    · cases body <;> simp [Reply.raiseForStatus, hstatus]

theorem isFxFetchError_requestJson_iff (text : String) {request : Request} :
    (∃ e, requestJson http text request = .error e ∧ e.IsFxFetchError) ↔ Reply.Refused (http request) := by
  unfold requestJson Reply.Refused
  rcases http request with _ | ⟨status, body⟩
  · simp [Reply.raiseForStatus, Raised.IsFxFetchError]
  · by_cases hstatus : 200 ≤ status ∧ status < 300
    · cases body <;> simp [Reply.raiseForStatus, hstatus, Body.read, Except.mapError, Raised.IsFxFetchError]
    · have h300 : 200 ≤ status → 300 ≤ status := by omega
      simpa [Reply.raiseForStatus, hstatus, Raised.IsFxFetchError] using h300

theorem FredClient.getLatestUsdInr_eq_ok {o : FxObservation} :
    FredClient.getLatestUsdInr f http apiKey asOf = .ok o ↔
      ∃ key v rate d, FredClient.key apiKey = some key ∧
        Reply.Answered (http (FredClient.request key asOf)) v ∧ FredClient.Finds f v rate d ∧
        o = FredClient.observation rate d := by
  unfold FredClient.getLatestUsdInr
  cases hk : FredClient.key apiKey with
  | none => simp
  | some key =>
    constructor
    · intro h
      obtain ⟨v, hv, h⟩ := Loop.of_bind_eq_ok h
      obtain ⟨r, hr, h⟩ := Loop.of_bind_eq_ok h
      cases r with
      | none => cases h
      | some o' =>
        cases h
        obtain ⟨rate, d, hfinds, ho⟩ := FredClient.parse_eq_some.mp (mapError_eq_ok.mp hr)
        exact ⟨key, v, rate, d, rfl, requestJson_eq_ok.mp hv, hfinds, ho⟩
    · rintro ⟨key', v, rate, d, hkey, hv, hfinds, rfl⟩
      cases hkey
      have hparse := FredClient.parse_eq_some.mpr ⟨rate, d, hfinds, rfl⟩
      simp only [requestJson_eq_ok.mpr hv, bind, Except.bind, hparse, Except.mapError]
      rfl

/-- The composite client goes on to the ECB exactly when FRED fails. -/
theorem FredClient.isFxFetchError_iff :
    (∃ e, FredClient.getLatestUsdInr f http apiKey asOf = .error e ∧ e.IsFxFetchError) ↔
      FredClient.Fails f http apiKey asOf := by
  unfold FredClient.getLatestUsdInr FredClient.Fails
  cases hk : FredClient.key apiKey with
  | none => simp [Raised.IsFxFetchError]
  | some key =>
    constructor
    · rintro ⟨e, h, he⟩
      right
      refine ⟨key, rfl, ?_⟩
      rcases Loop.of_bind_eq_error h with h | ⟨v, hv, h⟩
      · exact .inl ((isFxFetchError_requestJson_iff _).mp ⟨e, h, he⟩)
      · rcases Loop.of_bind_eq_error h with h | ⟨r, hr, h⟩
        · -- an exception of the parsing keeps its type
          cases hparse : FredClient.parse f v <;> rw [hparse] at h <;> cases h
          exact absurd he id
        · cases r with
          | some o => cases h
          | none =>
            exact .inr ⟨v, requestJson_eq_ok.mp hv, FredClient.parse_eq_none.mp (mapError_eq_ok.mp hr)⟩
    · rintro (h | ⟨key', hkey, h⟩)
      · cases h
      cases hkey
      rcases h with h | ⟨v, hv, hempty⟩
      · obtain ⟨e, he, hfx⟩ := (isFxFetchError_requestJson_iff "FRED HTTP error").mpr h
        exact ⟨e, by simp only [he, bind, Except.bind], hfx⟩
      · have hparse := FredClient.parse_eq_none.mpr hempty
        refine ⟨.fxFetchError "FRED returned no usable USD/INR observations" none, ?_, trivial⟩
        simp only [requestJson_eq_ok.mpr hv, bind, Except.bind, hparse, Except.mapError]

theorem EcbClient.only_getLatestUsdInr :
    Only Raised.IsFxFetchError (EcbClient.getLatestUsdInr f http asOf) ↔ EcbClient.Handles f http asOf := by
  have hparse : ∀ v, Only Raised.IsFxFetchError (match EcbClient.parse f v with
      | .ok (.ok o) => pure o
      | .ok (.error text) => .error (.fxFetchError text none)
      | .error e =>
        .error (if EcbClient.Caught e then .fxFetchError "ECB parse error" (some e) else .other e)) ↔
        EcbClient.Shaped f v := by
    intro v
    rw [← EcbClient.only_parse]
    rcases EcbClient.parse f v with e | (text | o)
    · by_cases he : EcbClient.Caught e <;> simp [he, Raised.IsFxFetchError]
    · simp [Raised.IsFxFetchError]
    · simp
  unfold EcbClient.getLatestUsdInr EcbClient.Handles
  rw [only_bind]
  simp only [hparse, requestJson_eq_ok]
  constructor
  · rintro ⟨hrequest, hshaped⟩
    cases hreq : requestJson http "ECB HTTP error" (EcbClient.request asOf) with
    | error e => exact .inl ((isFxFetchError_requestJson_iff _).mp ⟨e, hreq, hrequest e hreq⟩)
    | ok v =>
      have hv := requestJson_eq_ok.mp hreq
      exact .inr ⟨v, hv, hshaped v hv⟩
  · rintro (h | ⟨v, hv, hshaped⟩)
    · obtain ⟨e, he, hfx⟩ := (isFxFetchError_requestJson_iff "ECB HTTP error").mpr h
      rw [he]
      refine ⟨(only_error e).mpr hfx, ?_⟩
      rintro v ⟨status, hr, hstatus⟩
      exact absurd hstatus (h status _ hr)
    · rw [requestJson_eq_ok.mpr hv]
      refine ⟨only_ok v, ?_⟩
      intro v' hv'
      rw [hv'.unique hv]
      exact hshaped

theorem EcbClient.request_ne {key : String} : EcbClient.request asOf ≠ FredClient.request key asOf := by
  intro h
  have hurl : ECB_BASE_URL = FRED_BASE_URL := congrArg Request.url h
  exact absurd hurl (by decide)

theorem FredClient.exists_of_answers (h : FredClient.Answers f http apiKey asOf) :
    ∃ o, FredClient.getLatestUsdInr f http apiKey asOf = .ok o ∧ o.rate.IsPositive := by
  obtain ⟨key, v, rate, d, hkey, hv, hfinds, hpos⟩ := h
  exact ⟨_, FredClient.getLatestUsdInr_eq_ok.mpr ⟨key, v, rate, d, hkey, hv, hfinds, rfl⟩, hpos⟩

/-- FRED's answer is that of the call. -/
theorem fallsBack_iff_of_ok {o : FxObservation}
    (hfred : FredClient.getLatestUsdInr f http apiKey asOf = .ok o) :
    FallsBack f http apiKey asOf ↔ FredClient.Answers f http apiKey asOf := by
  obtain ⟨key, v, rate, d, hkey, hv, hfinds, rfl⟩ := FredClient.getLatestUsdInr_eq_ok.mp hfred
  constructor
  · intro h
    refine ⟨key, v, rate, d, hkey, hv, hfinds, ?_⟩
    rcases h.answer with ⟨o, ho, hfrom⟩ | hmem
    · simp only [FredEcbClient.getLatestUsdInr, hfred, Except.ok.injEq] at ho
      rw [← ho] at hfrom
      exact hfrom.positive
    · simp [FredEcbClient.getLatestUsdInr, hfred, hkey, EcbClient.request_ne] at hmem
  · intro h
    obtain ⟨o, ho, hpos⟩ := FredClient.exists_of_answers h
    rw [hfred] at ho
    cases ho
    obtain ⟨before, obs, after, hl, -, hu⟩ := hfinds
    have hfrom : FromFred f http apiKey asOf (FredClient.observation rate d) :=
      ⟨hpos, ⟨rfl, rfl, rfl⟩, key, v, _, hkey, hv, hl, obs, by simp, hu⟩
    refine ⟨.inl ⟨_, by simp only [FredEcbClient.getLatestUsdInr, hfred], hfrom⟩, ?_⟩
    intro e he
    simp only [FredEcbClient.getLatestUsdInr, hfred] at he
    cases he

/-- The ECB has been asked, and its outcome is that of the call. -/
theorem fallsBack_iff_of_fetchError {e : Raised}
    (hfred : FredClient.getLatestUsdInr f http apiKey asOf = .error e) (hfx : e.IsFxFetchError) :
    FallsBack f http apiKey asOf ↔
      Only Raised.IsFxFetchError (EcbClient.getLatestUsdInr f http asOf) := by
  have hcall : FredEcbClient.getLatestUsdInr f http apiKey asOf =
      ⟨((FredClient.key apiKey).map fun key => FredClient.request key asOf).toList ++
        [EcbClient.request asOf], EcbClient.getLatestUsdInr f http asOf⟩ := by
    unfold FredEcbClient.getLatestUsdInr
    rw [hfred]
    cases e <;> first | rfl | exact absurd hfx id
  constructor
  · intro h e' he'
    exact (h.error e' (by rw [hcall]; exact he')).1
  · intro honly
    refine ⟨.inr (by rw [hcall]; simp), ?_⟩
    intro e' he'
    rw [hcall] at he'
    exact ⟨honly e' he', ⟨e, hfred⟩, ⟨e', he'⟩⟩

/-- Another error of FRED is that of the call. -/
theorem not_fallsBack_of_error {e : Raised}
    (hfred : FredClient.getLatestUsdInr f http apiKey asOf = .error e) (hfx : ¬e.IsFxFetchError) :
    ¬FallsBack f http apiKey asOf := by
  intro h
  have he : (FredEcbClient.getLatestUsdInr f http apiKey asOf).outcome = .error e := by
    unfold FredEcbClient.getLatestUsdInr
    rw [hfred]
    cases e <;> first | rfl | exact absurd trivial hfx
  exact hfx (h.error e he).1

/-- The composite client does what it is for exactly when FRED answers with a positive number, or
    FRED fails with its own error and the ECB is handled. -/
theorem fallsBack_iff (f : Floats F) (http : Request → Reply F) (apiKey : Option String)
    (asOf : Option Date) :
    FallsBack f http apiKey asOf ↔ FredClient.Answers f http apiKey asOf ∨
      (FredClient.Fails f http apiKey asOf ∧ EcbClient.Handles f http asOf) := by
  rw [← FredClient.isFxFetchError_iff, ← EcbClient.only_getLatestUsdInr]
  cases hfred : FredClient.getLatestUsdInr f http apiKey asOf with
  | ok o =>
    rw [fallsBack_iff_of_ok hfred, or_iff_left]
    rintro ⟨⟨e, he, -⟩, -⟩
    cases he
  | error e =>
    have hnot : ¬FredClient.Answers f http apiKey asOf := by
      intro h
      obtain ⟨o, ho, -⟩ := FredClient.exists_of_answers h
      rw [hfred] at ho
      cases ho
    rw [or_iff_right hnot]
    by_cases hfx : e.IsFxFetchError
    · rw [fallsBack_iff_of_fetchError hfred hfx, and_iff_right ⟨e, rfl, hfx⟩]
    · refine iff_of_false (not_fallsBack_of_error hfred hfx) ?_
      rintro ⟨⟨e', he', hfx'⟩, -⟩
      cases he'
      exact hfx hfx'

end Composite

/-- No doubles. -/
def noDoubles : Floats Empty where
  kind := nofun
  bool := nofun
  str := nofun

/-- FRED is behind a gateway that answers with a page of its own; the ECB has a rate. -/
def gatewayPage (request : Request) : Reply Empty :=
  if request.url = FRED_BASE_URL then .response 200 .malformed
  else
    .response 200 (.json (.obj [
      (py "dataSets", .arr [.obj [(py "series", .obj [(py "0:0:0:0:0",
        .obj [(py "observations", .obj [(py "0", .arr [.str (py "83.25")])])])])]]),
      (py "structure", .obj [(py "dimensions", .obj [(py "observation", .arr [.obj [
        (py "id", .str (py "TIME_PERIOD")),
        (py "values", .arr [.obj [(py "id", .str (py "2026-04-10"))]])]])])])]))

/-- A `JSONDecodeError` of FRED's body leaves the composite client, and the ECB, which would have
    answered, is not asked. -/
theorem notJson_escapes :
    ¬FallsBack noDoubles gatewayPage (some "k") none ∧
      FredEcbClient.getLatestUsdInr noDoubles gatewayPage (some "k") none =
        ⟨[FredClient.request "k" none], .error (.other .valueError)⟩ ∧
      (EcbClient.getLatestUsdInr noDoubles gatewayPage none).isOk = true := by
  have hcall : FredEcbClient.getLatestUsdInr noDoubles gatewayPage (some "k") none =
      ⟨[FredClient.request "k" none], .error (.other .valueError)⟩ := by decide +kernel
  refine ⟨?_, hcall, by decide +kernel⟩
  intro h
  exact (h.error (.other .valueError) (by rw [hcall])).1

end Nivara.MarketData
