import Nivara.Common.Json
import Nivara.Safety.RiskGuardian

/-!
# `RiskGuardian`: macro alerts and the run of all detectors

`safety/risk_guardian.py`, lines 233–390. `detect_macro_alerts` is best-effort by its docstring:
it catches an `httpx.HTTPError` of the request, and a `KeyError`, `TypeError` or `ValueError` of
the two values. The decoding of the body, the length of `observations` and a number too large for a
double are outside of that. `run_all` inserts what the three detectors have found when the last of
them has returned.

* The network is a function from requests to replies.
* Doubles and their texts are a parameter.
* `notifications` is modelled by what its columns refuse. The texts and numbers of a volatility or
  an earnings alert are those of shorter columns, and are taken. Limits on the size and the
  nesting of a payload are not modelled.

Results:

* `exists_macroChange`, `macroChange_eq_some`: the payloads the detector reads, and what it makes
  of them.
* `exists_detectMacroAlerts`: when the detector returns.
* `survives_iff`: when it does and the run keeps what the other detectors have found.
* `gatewayPage_loses_alerts`: a reply that is no JSON.
-/

namespace Nivara.Safety

open Raises

/-! ## Model -/

/-- Code points that UTF-8 does not encode. -/
def IsSurrogate (c : ℕ) : Prop := 0xD800 ≤ c ∧ c ≤ 0xDFFF

instance : DecidablePred IsSurrogate := fun _ => inferInstanceAs (Decidable (_ ∧ _))

/-- A code point that a text column takes. -/
def IsPlain (c : ℕ) : Prop := c ≠ 0 ∧ ¬IsSurrogate c

instance : DecidablePred IsPlain := fun _ => inferInstanceAs (Decidable (_ ∧ _))

/-- What the detector computes in doubles, and how Python prints values. -/
structure MacroFloats (F : Type) extends Floats F where
  /-- `float(text)`; `none` is a `ValueError`. -/
  ofText : PyStr → Option F
  /-- `float(n)`; `none` is an `OverflowError`. -/
  ofInt : ℤ → Option F
  /-- `float(b)`. -/
  ofBool : Bool → F
  sub : F → F → F
  /-- `abs(x) > MACRO_CHANGE_THRESHOLD`. -/
  material : F → Bool
  /-- `f"{x:+.2f}"`. -/
  signed2 : F → String
  /-- `str(v)` of a list or an object. -/
  repr : Json F → PyStr
  str_plain : ∀ x, ∀ c ∈ str x, IsPlain c
  /-- A string inside is escaped where it cannot be printed. -/
  repr_plain : ∀ v, ∀ c ∈ repr v, IsPlain c

section Model

variable {F : Type} (m : MacroFloats F)

/-- A change of a series that is above the threshold. -/
structure MacroChange (F : Type) where
  seriesId : String
  latest : F
  previous : F
  delta : F
  latestDate : Json F

/-- The `AlertEvent` of a macro alert. -/
structure MacroAlert (F : Type) where
  userId : UUID
  notificationType : String
  title : String
  body : PyStr
  payload : Json F

def FRED_BASE_URL : String := "https://api.stlouisfed.org/fred/series/observations"

/-- The request for a series (lines 259–265). -/
def macroRequest (apiKey seriesId : String) : Request where
  url := FRED_BASE_URL
  params := [("series_id", seriesId), ("api_key", apiKey), ("file_type", "json"), ("limit", "2"),
    ("sort_order", "desc")]
  headers := []

/-- `data.get("observations", [])`. -/
def getObservations : Json F → Except PyError (Json F)
  | .obj members => .ok ((members.lookup (py "observations")).getD (.arr []))
  | _ => .error .attributeError

/-- `len(v)`. -/
def pyLen : Json F → Except PyError ℕ
  | .str s => .ok s.length
  | .arr values => .ok values.length
  | .obj members => .ok members.length
  | _ => .error .typeError

/-- `v[i]`. -/
def pyIndex (i : ℕ) : Json F → Except PyError (Json F)
  | .arr values =>
    match values[i]? with
    | some v => .ok v
    | none => .error .indexError
  | .str s =>
    match s[i]? with
    | some c => .ok (.str [c])
    | none => .error .indexError
  | .obj _ => .error .keyError
  | _ => .error .typeError

/-- `float(v)`. -/
def pyFloat : Json F → Except PyError F
  | .bool b => .ok (m.ofBool b)
  | .int n =>
    match m.ofInt n with
    | some x => .ok x
    | none => .error .overflowError
  | .float x => .ok x
  | .str s =>
    match m.ofText s with
    | some x => .ok x
    | none => .error .valueError
  | _ => .error .typeError

/-- `float(obs["value"])`. -/
def valueOf (obs : Json F) : Except PyError F := do pyFloat m (← obs.itemAt (py "value"))

/-- Lines 291 and 292. -/
def lastTwo (observations : Json F) : Except PyError (F × F) := do
  let latest ← valueOf m (← pyIndex 0 observations)
  let previous ← valueOf m (← pyIndex 1 observations)
  return (latest, previous)

/-- Lines 290–306. -/
def changeOf (seriesId : String) (observations : Json F) : Except PyError (Option (MacroChange F)) :=
  match lastTwo m observations with
  | .error e =>
    -- `except (KeyError, TypeError, ValueError): continue`
    if e ∈ [.keyError, .typeError, .valueError] then .ok none else .error e
  | .ok (latest, previous) => do
    let delta := m.sub latest previous
    if m.material delta then
      let latestDate ← (← pyIndex 0 observations).get "date"
      return some ⟨seriesId, latest, previous, delta, latestDate⟩
    else return none

/-- Lines 287–306. -/
def macroChange (seriesId : String) (data : Json F) : Except PyError (Option (MacroChange F)) := do
  let observations ← getObservations data
  if (← pyLen observations) < 2 then return none
  changeOf m seriesId observations

/-- The body of the loop over the series (lines 258–306). -/
def seriesChange (http : Request → Reply F) (apiKey seriesId : String) :
    Except PyError (Option (MacroChange F)) :=
  match (http (macroRequest apiKey seriesId)).raiseForStatus with
  | .error _ => .ok none
  | .ok body => do macroChange m seriesId (← body.read)

/-- `str(v)`. -/
def pyText : Json F → PyStr
  | .null => py "None"
  | .bool b => py (if b then "True" else "False")
  | .int n => py (toString n)
  | .float x => m.str x
  | .str s => s
  | v => m.repr v

/-- The title (line 324). -/
def MacroChange.title (change : MacroChange F) : String :=
  "Macro alert: " ++ change.seriesId ++ " moved " ++ m.signed2 change.delta

/-- The body (lines 325–328). -/
def MacroChange.body (change : MacroChange F) : PyStr :=
  py change.seriesId ++ py " changed from " ++ m.str change.previous ++ py " to " ++ m.str change.latest ++
    py " (as of " ++ pyText m change.latestDate ++ py ")."

/-- The payload (lines 299–305). -/
def MacroChange.payload (change : MacroChange F) : Json F :=
  .obj [(py "series_id", .str (py change.seriesId)), (py "latest", .float change.latest),
    (py "previous", .float change.previous), (py "delta", .float change.delta),
    (py "latest_date", change.latestDate)]

/-- The event of lines 321–330. Pydantic takes no text that UTF-8 does not encode; its
    `ValidationError` is a `ValueError`. -/
def macroAlert (userId : UUID) (change : MacroChange F) : Except PyError (MacroAlert F) :=
  if ∃ c ∈ change.body m, IsSurrogate c then .error .valueError
  else
    .ok
      { userId := userId
        notificationType := "system"
        title := change.title m
        body := change.body m
        payload := change.payload }

/-- The series of a run. -/
def macroSeries : List String := ["DFF", "UNRATE"]

/-- `detect_macro_alerts`. -/
def detectMacroAlerts (http : Request → Reply F) (apiKey : Option String) (activeUsers : List UUID) :
    Except PyError (List (MacroAlert F)) :=
  match apiKey.filter (· ≠ "") with
  | none => .ok []
  | some apiKey => do
    let changes ← macroSeries.mapM (seriesChange m http apiKey)
    (activeUsers.product changes.reduceOption).mapM fun (userId, change) => macroAlert m userId change

/-! ### Storing -/

/-- The text of a JSON string that Postgres takes: no NUL, and surrogates in pairs only. -/
def storableText : PyStr → Bool
  | [] => true
  | c :: s =>
    if c = 0 then false
    else if 0xD800 ≤ c ∧ c < 0xDC00 then
      match s with
      | d :: s => 0xDC00 ≤ d && d ≤ 0xDFFF && storableText s
      | [] => false
    else !(0xDC00 ≤ c && c ≤ 0xDFFF) && storableText s

def FloatKind.isFinite : FloatKind → Bool
  | .finite _ => true
  | _ => false

mutual

/-- A value that a `JSONB` column takes. -/
def storable : Json F → Bool
  | .float x => FloatKind.isFinite (m.kind x)
  | .str s => storableText s
  | .arr values => storableValues values
  | .obj members => storableMembers members
  | _ => true

def storableValues : List (Json F) → Bool
  | [] => true
  | v :: values => storable v && storableValues values

def storableMembers : List (PyStr × Json F) → Bool
  | [] => true
  | (key, v) :: members => storableText key && storable v && storableMembers members

end

/-- What the detectors of a run have found. -/
inductive Event (F : Type)
  | watched (a : AlertEvent)
  | fred (a : MacroAlert F)

/-- The row of an event fits `title VARCHAR(255)`, `body TEXT` and `payload JSONB`. -/
def Event.fits : Event F → Bool
  | watched _ => true
  | fred a => a.title.length ≤ 255 && !a.body.contains 0 && storable m a.payload

/-- How a run ends early. -/
inductive RunError
  | raised (e : PyError)
  | dataError
  deriving DecidableEq

/-- `run_all` as far as `persist_alerts`: one flush inserts the rows of all detectors, or none. -/
def runAll (http : Request → Reply F) (apiKey : Option String) (activeUsers : List UUID)
    (found : List AlertEvent) : Except RunError (List (Event F)) := do
  let alerts ← (detectMacroAlerts m http apiKey activeUsers).mapError .raised
  let events := found.map Event.watched ++ alerts.map Event.fred
  if events.all (Event.fits m) then return events else .error .dataError

/-- The rows a run has inserted. -/
def persisted (outcome : Except RunError (List (Event F))) : List (Event F) := outcome.toOption.getD []

/-- The macro detector returns, and the run keeps what the other two have found. -/
structure Survives (http : Request → Reply F) (apiKey : Option String) (activeUsers : List UUID)
    (found : List AlertEvent) : Prop where
  returns : ∃ alerts, detectMacroAlerts m http apiKey activeUsers = .ok alerts
  persists : ∀ a ∈ found, Event.watched a ∈ persisted (runAll m http apiKey activeUsers found)

end Model

/-! ## What the detector reads -/

section Reading

variable {F : Type} (m : MacroFloats F)

/-- The observations of a payload. -/
def observationsOf : Json F → Json F
  | .obj members => (members.lookup (py "observations")).getD (.arr [])
  | _ => .null

def IsSized : Json F → Prop
  | .str _ | .arr _ | .obj _ => True
  | _ => False

/-- The value of an observation is an integer beyond the doubles. -/
def TooLarge (obs : Json F) : Prop := ∃ n, obs.field "value" = .int n ∧ m.ofInt n = none

/-- An object whose observations have a length, with no integer beyond the doubles among the values
    that are read. -/
structure Readable (v : Json F) : Prop where
  isObject : v.IsObject
  isSized : IsSized (observationsOf v)
  noOverflow : ∀ a b rest, observationsOf v = .arr (a :: b :: rest) →
    ¬TooLarge m a ∧ ((∃ x, valueOf m a = .ok x) → ¬TooLarge m b)

/-- The first two observations hold values whose difference is above the threshold. -/
structure Moves (seriesId : String) (v : Json F) (change : MacroChange F) : Prop where
  values : ∃ a b rest, observationsOf v = .arr (a :: b :: rest) ∧ valueOf m a = .ok change.latest ∧
    valueOf m b = .ok change.previous ∧ change.latestDate = a.field "date"
  delta : change.delta = m.sub change.latest change.previous
  material : m.material change.delta = true
  seriesId : change.seriesId = seriesId

variable {m}

theorem valueOf_eq_overflow {obs : Json F} : valueOf m obs = .error .overflowError ↔ TooLarge m obs := by
  unfold valueOf TooLarge
  cases obs with
  | obj members =>
    cases hv : members.lookup (py "value") with
    | none => simp [Json.itemAt, Json.field, hv, bind, Except.bind]
    | some v =>
      simp only [Json.itemAt, Json.field, hv, bind, Except.bind, Option.getD_some]
      cases v with
      | int n => cases hn : m.ofInt n <;> simp [pyFloat, hn]
      | str s => cases hs : m.ofText s <;> simp [pyFloat, hs]
      | _ => simp [pyFloat]
  | _ => simp [Json.itemAt, Json.field, bind, Except.bind]

/-- Apart from an overflow, what goes wrong with a value is caught. -/
theorem valueOf_error {obs : Json F} {e : PyError} (h : valueOf m obs = .error e) :
    e = .overflowError ∨ e ∈ [.keyError, .typeError, .valueError] := by
  unfold valueOf at h
  cases obs with
  | obj members =>
    cases hv : members.lookup (py "value") with
    | none => simp_all [Json.itemAt, bind, Except.bind]
    | some v =>
      simp only [Json.itemAt, hv, bind, Except.bind] at h
      cases v with
      | int n => cases hn : m.ofInt n <;> simp_all [pyFloat]
      | str s => cases hs : m.ofText s <;> simp_all [pyFloat]
      | _ => simp_all [pyFloat]
  | _ => simp_all [Json.itemAt, bind, Except.bind]

theorem isObject_of_valueOf {obs : Json F} {x : F} (h : valueOf m obs = .ok x) : obs.IsObject := by
  cases obs <;> trivial

theorem getObservations_eq_ok {v o : Json F} :
    getObservations v = .ok o ↔ v.IsObject ∧ observationsOf v = o := by
  cases v <;> simp [getObservations, Json.IsObject, observationsOf]

theorem lastTwo_arr (a b : Json F) (rest : List (Json F)) :
    lastTwo m (.arr (a :: b :: rest)) =
      valueOf m a >>= fun latest => valueOf m b >>= fun previous => pure (latest, previous) := rfl

theorem lastTwo_eq_ok {a b : Json F} {rest : List (Json F)} {latest previous : F} :
    lastTwo m (.arr (a :: b :: rest)) = .ok (latest, previous) ↔
      valueOf m a = .ok latest ∧ valueOf m b = .ok previous := by
  rw [lastTwo_arr]
  cases ha : valueOf m a with
  | error e => simp [bind, Except.bind]
  | ok x => cases hb : valueOf m b <;> simp [bind, Except.bind, pure, Except.pure]

/-- The first value that is not read decides. -/
theorem lastTwo_error {a b : Json F} {rest : List (Json F)} {e : PyError}
    (h : lastTwo m (.arr (a :: b :: rest)) = .error e) :
    valueOf m a = .error e ∨ ((∃ x, valueOf m a = .ok x) ∧ valueOf m b = .error e) := by
  rw [lastTwo_arr] at h
  rcases Loop.of_bind_eq_error h with h | ⟨x, hx, h⟩
  · exact .inl h
  · rcases Loop.of_bind_eq_error h with h | ⟨y, -, h⟩
    · exact .inr ⟨⟨x, hx⟩, h⟩
    · cases h

/-- A list is read when no value that is read is too large. -/
theorem exists_changeOf_arr {seriesId : String} {a b : Json F} {rest : List (Json F)} :
    (∃ r, changeOf m seriesId (.arr (a :: b :: rest)) = .ok r) ↔
      ¬TooLarge m a ∧ ((∃ x, valueOf m a = .ok x) → ¬TooLarge m b) := by
  unfold changeOf
  cases hlast : lastTwo m (.arr (a :: b :: rest)) with
  | ok p =>
    obtain ⟨ha, hb⟩ := lastTwo_eq_ok.mp hlast
    have hget := Json.get_of_isObject (isObject_of_valueOf ha) "date"
    rw [← valueOf_eq_overflow, ← valueOf_eq_overflow, ha, hb]
    simp only [pyIndex, List.getElem?_cons_zero, bind, Except.bind, hget]
    split <;> simp [pure, Except.pure]
  | error e =>
    rw [← valueOf_eq_overflow, ← valueOf_eq_overflow]
    rcases lastTwo_error hlast with ha | ⟨⟨x, hx⟩, hb⟩
    · rcases valueOf_error ha with rfl | he
      · simp [ha]
      · have hne : e ≠ .overflowError := by
          rintro rfl
          exact absurd he (by decide)
        simp [ha, he, hne]
    · rcases valueOf_error hb with rfl | he
      · simp [hx, hb]
      · have hne : e ≠ .overflowError := by
          rintro rfl
          exact absurd he (by decide)
        simp [hx, hb, he, hne]

/-- The detector reads a payload exactly when it is readable. -/
theorem exists_macroChange {seriesId : String} {v : Json F} :
    (∃ r, macroChange m seriesId v = .ok r) ↔ Readable m v := by
  constructor
  · rintro ⟨r, h⟩
    obtain ⟨o, ho, h⟩ := Loop.of_bind_eq_ok h
    obtain ⟨n, hn, h⟩ := Loop.of_bind_eq_ok h
    obtain ⟨hobj, rfl⟩ := getObservations_eq_ok.mp ho
    refine ⟨hobj, ?_, ?_⟩
    · cases hl : observationsOf v <;> rw [hl] at hn <;> trivial
    · intro a b rest hl
      rw [hl] at hn h
      cases hn
      have hlong : ¬(a :: b :: rest).length < 2 := by simp
      rw [if_neg hlong] at h
      exact exists_changeOf_arr.mp ⟨r, h⟩
  · rintro ⟨hobj, hsized, hover⟩
    unfold macroChange
    rw [getObservations_eq_ok.mpr ⟨hobj, rfl⟩]
    simp only [bind, Except.bind]
    cases hl : observationsOf v with
    | arr values =>
      rcases values with _ | ⟨a, _ | ⟨b, rest⟩⟩
      · exact ⟨none, rfl⟩
      · exact ⟨none, rfl⟩
      · obtain ⟨r, hr⟩ := exists_changeOf_arr.mpr (hover a b rest hl)
        exact ⟨r, by simpa [pyLen] using hr⟩
    | str s =>
      -- a character has no `"value"`
      rcases s with _ | ⟨c, _ | ⟨d, s⟩⟩ <;> exact ⟨none, rfl⟩
    | obj members =>
      rcases members with _ | ⟨a, _ | ⟨b, members⟩⟩ <;> exact ⟨none, rfl⟩
    | null | bool | int | float => rw [hl] at hsized; exact absurd hsized id

theorem exists_arr_of_lastTwo {o : Json F} {p : F × F} (h : lastTwo m o = .ok p) :
    ∃ a b rest, o = .arr (a :: b :: rest) := by
  cases o with
  | arr values =>
    rcases values with _ | ⟨a, _ | ⟨b, rest⟩⟩
    · cases h
    · obtain ⟨x, -, h⟩ := Loop.of_bind_eq_ok h
      obtain ⟨y, -, h⟩ := Loop.of_bind_eq_ok h
      cases h
    · exact ⟨a, b, rest, rfl⟩
  | str s => cases s <;> cases h
  | _ => cases h

theorem changeOf_arr {seriesId : String} {a b : Json F} {rest : List (Json F)} {latest previous : F}
    (ha : valueOf m a = .ok latest) (hb : valueOf m b = .ok previous) :
    changeOf m seriesId (.arr (a :: b :: rest)) =
      .ok (if m.material (m.sub latest previous) then
        some ⟨seriesId, latest, previous, m.sub latest previous, a.field "date"⟩ else none) := by
  unfold changeOf
  rw [lastTwo_eq_ok.mpr ⟨ha, hb⟩]
  simp only [pyIndex, List.getElem?_cons_zero, bind, Except.bind,
    Json.get_of_isObject (isObject_of_valueOf ha)]
  split <;> rfl

/-- What the detector makes of a payload. -/
theorem macroChange_eq_some {seriesId : String} {v : Json F} {change : MacroChange F} :
    macroChange m seriesId v = .ok (some change) ↔ Moves m seriesId v change := by
  constructor
  · intro h
    obtain ⟨o, ho, h⟩ := Loop.of_bind_eq_ok h
    obtain ⟨n, hn, h⟩ := Loop.of_bind_eq_ok h
    obtain ⟨-, rfl⟩ := getObservations_eq_ok.mp ho
    split_ifs at h with hlong
    · cases h
    -- a change has come from two values
    have hlast : ∃ p, lastTwo m (observationsOf v) = .ok p := by
      unfold changeOf at h
      cases hlast : lastTwo m (observationsOf v) with
      | ok p => exact ⟨p, rfl⟩
      | error e =>
        rw [hlast] at h
        dsimp only at h
        split_ifs at h
        cases h
    obtain ⟨⟨latest, previous⟩, hlast⟩ := hlast
    obtain ⟨a, b, rest, hl⟩ := exists_arr_of_lastTwo hlast
    rw [hl] at hlast h
    obtain ⟨ha, hb⟩ := lastTwo_eq_ok.mp hlast
    rw [changeOf_arr ha hb] at h
    split_ifs at h with hm
    · cases h
      exact ⟨⟨a, b, rest, hl, ha, hb, rfl⟩, rfl, hm, rfl⟩
    · cases h
  · rintro ⟨⟨a, b, rest, hl, ha, hb, hdate⟩, hdelta, hm, hid⟩
    have hobj : v.IsObject := by
      cases v <;> trivial
    unfold macroChange
    rw [getObservations_eq_ok.mpr ⟨hobj, hl⟩]
    have hlong : ¬(a :: b :: rest).length < 2 := by simp
    simp only [bind, Except.bind, pyLen, hlong, if_false, changeOf_arr ha hb, ← hdelta, hm, if_true]
    obtain ⟨seriesId', latest, previous, delta, latestDate⟩ := change
    cases hid
    cases hdate
    rfl

end Reading

/-! ## The detector and the run -/

section Run

variable {F : Type} (m : MacroFloats F) (http : Request → Reply F)

/-- No response or no success, or one that the detector reads. -/
def ReadableReply (r : Reply F) : Prop := r.Refused ∨ ∃ v, r.Answered v ∧ Readable m v

/-- The reply for a series holds a change above the threshold. -/
def Moved (apiKey seriesId : String) (change : MacroChange F) : Prop :=
  ∃ v, (http (macroRequest apiKey seriesId)).Answered v ∧ Moves m seriesId v change

/-- UTF-8 encodes the date, when it is a text. -/
def MacroChange.Encodes (change : MacroChange F) : Prop :=
  ∀ s, change.latestDate = .str s → ∀ c ∈ s, ¬IsSurrogate c

/-- The columns take the change: a title that is not too long, finite doubles, a date for JSONB. -/
structure MacroChange.Fits (change : MacroChange F) : Prop where
  title : (change.title m).length ≤ 255
  finite : FloatKind.isFinite (m.kind change.latest) ∧ FloatKind.isFinite (m.kind change.previous) ∧
    FloatKind.isFinite (m.kind change.delta)
  latestDate : storable m change.latestDate = true

variable {m http}

theorem exists_seriesChange {apiKey seriesId : String} :
    (∃ r, seriesChange m http apiKey seriesId = .ok r) ↔
      ReadableReply m (http (macroRequest apiKey seriesId)) := by
  unfold seriesChange ReadableReply
  cases hr : (http (macroRequest apiKey seriesId)).raiseForStatus with
  | error e =>
    have hrefused := Reply.exists_raiseForStatus_eq_error.mp ⟨e, hr⟩
    simp [hrefused]
  | ok body =>
    constructor
    · rintro ⟨r, h⟩
      obtain ⟨v, hv, h⟩ := Loop.of_bind_eq_ok h
      exact .inr ⟨v, Reply.exists_read_eq_ok.mp ⟨body, hr, hv⟩, exists_macroChange.mp ⟨r, h⟩⟩
    · rintro (h | ⟨v, hv, hread⟩)
      · obtain ⟨e, he⟩ := Reply.exists_raiseForStatus_eq_error.mpr h
        rw [hr] at he
        cases he
      · obtain ⟨body', hr', hv⟩ := Reply.exists_read_eq_ok.mpr hv
        rw [hr] at hr'
        cases hr'
        obtain ⟨r, h⟩ := exists_macroChange.mpr hread
        exact ⟨r, by simp only [hv, bind, Except.bind]; exact h⟩

theorem seriesChange_eq_some {apiKey seriesId : String} {change : MacroChange F} :
    seriesChange m http apiKey seriesId = .ok (some change) ↔ Moved m http apiKey seriesId change := by
  unfold seriesChange Moved
  cases hr : (http (macroRequest apiKey seriesId)).raiseForStatus with
  | error e =>
    have hrefused := Reply.exists_raiseForStatus_eq_error.mp ⟨e, hr⟩
    constructor
    · intro h
      cases h
    · rintro ⟨v, ⟨status, hv, hstatus⟩, -⟩
      exact absurd hstatus (hrefused status _ hv)
  | ok body =>
    constructor
    · intro h
      obtain ⟨v, hv, h⟩ := Loop.of_bind_eq_ok h
      exact ⟨v, Reply.exists_read_eq_ok.mp ⟨body, hr, hv⟩, macroChange_eq_some.mp h⟩
    · rintro ⟨v, hv, hmoves⟩
      obtain ⟨body', hr', hv⟩ := Reply.exists_read_eq_ok.mpr hv
      rw [hr] at hr'
      cases hr'
      simp only [hv, bind, Except.bind]
      exact macroChange_eq_some.mpr hmoves

/-! ### Texts -/

theorem isPlain_of_mem_toString {n : ℤ} {c : ℕ} (h : c ∈ py (toString n)) : IsPlain c := by
  obtain ⟨ch, hch, rfl⟩ := List.mem_map.mp h
  have hch : ch = '-' ∨ ch.isDigit = true := by
    rw [Int.toString_eq_repr, Int.repr_eq_if] at hch
    split_ifs at hch
    · rw [Nat.toList_repr] at hch
      exact .inr (Nat.isDigit_of_mem_toDigits (by decide) (by decide) hch)
    · rw [String.toList_append, List.mem_append, Nat.toList_repr] at hch
      rcases hch with hch | hch
      · left
        simpa using hch
      · exact .inr (Nat.isDigit_of_mem_toDigits (by decide) (by decide) hch)
  rcases hch with rfl | hdigit
  · decide
  · have hle : ch.toNat ≤ 57 := by
      simp only [Char.isDigit, Bool.and_eq_true, decide_eq_true_eq] at hdigit
      exact hdigit.2
    have hge : 48 ≤ ch.toNat := by
      simp only [Char.isDigit, Bool.and_eq_true, decide_eq_true_eq] at hdigit
      exact hdigit.1
    exact ⟨by omega, fun hs => absurd hs.1 (by omega)⟩

/-- What is not plain in a printed value comes from a text. -/
theorem mem_pyText {v : Json F} {c : ℕ} (hc : ¬IsPlain c) : c ∈ pyText m v ↔ ∃ s, v = .str s ∧ c ∈ s := by
  have hliteral : ∀ text ∈ [py "None", py "True", py "False"], c ∉ text := by
    intro text htext hmem
    have hplain : ∀ text ∈ [py "None", py "True", py "False"], ∀ c ∈ text, IsPlain c := by decide
    exact hc (hplain text htext c hmem)
  cases v with
  | null => simpa [pyText] using hliteral (py "None") (by simp)
  | bool b =>
    cases b
    · simpa [pyText] using hliteral (py "False") (by simp)
    · simpa [pyText] using hliteral (py "True") (by simp)
  | int n => simpa [pyText] using fun h => hc (isPlain_of_mem_toString h)
  | float x => simpa [pyText] using fun h => hc (m.str_plain x c h)
  | str s => simp [pyText]
  | arr values => simpa [pyText] using fun h => hc (m.repr_plain _ c h)
  | obj members => simpa [pyText] using fun h => hc (m.repr_plain _ c h)

theorem mem_body {change : MacroChange F} (hid : change.seriesId ∈ macroSeries) {c : ℕ} (hc : ¬IsPlain c) :
    c ∈ change.body m ↔ ∃ s, change.latestDate = .str s ∧ c ∈ s := by
  have hliteral : ∀ text ∈ [py "DFF", py "UNRATE", py " changed from ", py " to ", py " (as of ", py ")."],
      c ∉ text := by
    intro text htext hmem
    have hplain : ∀ text ∈ [py "DFF", py "UNRATE", py " changed from ", py " to ", py " (as of ", py ")."],
        ∀ c ∈ text, IsPlain c := by decide
    exact hc (hplain text htext c hmem)
  have hseries : c ∉ py change.seriesId := by
    rcases List.mem_cons.mp hid with h | h
    · rw [h]
      exact hliteral _ (by simp)
    · rw [List.mem_singleton.mp h]
      exact hliteral _ (by simp)
  have hstr : ∀ x, c ∉ m.str x := fun x h => hc (m.str_plain x c h)
  have hfrom := hliteral (py " changed from ") (by simp)
  have hto := hliteral (py " to ") (by simp)
  have hasOf := hliteral (py " (as of ") (by simp)
  have hend := hliteral (py ").") (by simp)
  unfold MacroChange.body
  simp only [List.mem_append, hseries, hstr, hfrom, hto, hasOf, hend, false_or, or_false, mem_pyText hc]

theorem exists_macroAlert {userId : UUID} {change : MacroChange F} (hid : change.seriesId ∈ macroSeries) :
    (∃ a, macroAlert m userId change = .ok a) ↔ change.Encodes := by
  have hbody : (∃ c ∈ change.body m, IsSurrogate c) ↔
      ∃ s, change.latestDate = .str s ∧ ∃ c ∈ s, IsSurrogate c := by
    constructor
    · rintro ⟨c, hmem, hc⟩
      obtain ⟨s, hs, hmem⟩ := (mem_body hid fun h => h.2 hc).mp hmem
      exact ⟨s, hs, c, hmem, hc⟩
    · rintro ⟨s, hs, c, hmem, hc⟩
      exact ⟨c, (mem_body hid fun h => h.2 hc).mpr ⟨s, hs, hmem⟩, hc⟩
  unfold macroAlert MacroChange.Encodes
  by_cases h : ∃ c ∈ change.body m, IsSurrogate c
  · obtain ⟨s, hs, c, hmem, hc⟩ := hbody.mp h
    rw [if_pos h]
    constructor
    · rintro ⟨a, ha⟩
      cases ha
    · intro hall
      exact absurd hc (hall s hs c hmem)
  · rw [if_neg h]
    refine iff_of_true ⟨_, rfl⟩ ?_
    intro s hs c hmem hc
    exact h (hbody.mpr ⟨s, hs, c, hmem, hc⟩)

theorem zero_not_mem_of_storableText {s : PyStr} (h : storableText s = true) : 0 ∉ s := by
  fun_induction storableText s with
  | case1 => simp
  | case2 => cases h
  | case3 c hzero hhigh d s ih =>
    simp only [Bool.and_eq_true, decide_eq_true_eq] at h
    have hd : 0 ≠ d := by omega
    simp [Ne.symm hzero, hd, ih h.2]
  | case4 => cases h
  | case5 c s hzero hhigh ih =>
    simp only [Bool.and_eq_true] at h
    simp [Ne.symm hzero, ih h.2]

/-- A row of an alert fits when the change does. -/
theorem fits_iff {userId : UUID} {change : MacroChange F} {a : MacroAlert F}
    (hid : change.seriesId ∈ macroSeries) (ha : macroAlert m userId change = .ok a) :
    (Event.fred a).fits m = true ↔ change.Fits m := by
  have hseries : storableText (py change.seriesId) = true := by
    have hall : ∀ id ∈ macroSeries, storableText (py id) = true := by decide +kernel
    exact hall _ hid
  have hkeys : ∀ key ∈ ["series_id", "latest", "previous", "delta", "latest_date"],
      storableText (py key) = true := by decide +kernel
  have hpayload : storable m change.payload = true ↔
      FloatKind.isFinite (m.kind change.latest) ∧ FloatKind.isFinite (m.kind change.previous) ∧
        FloatKind.isFinite (m.kind change.delta) ∧ storable m change.latestDate = true := by
    simp only [List.forall_mem_cons] at hkeys
    simp only [MacroChange.payload, storable, storableMembers, hkeys, hseries, Bool.true_and, Bool.and_true,
      Bool.and_eq_true]
  have hbody : storable m change.latestDate = true → ¬0 ∈ change.body m := by
    intro hdate hmem
    obtain ⟨s, hs, hmem⟩ := (mem_body hid fun h => h.1 rfl).mp hmem
    rw [hs] at hdate
    exact zero_not_mem_of_storableText (by simpa [storable] using hdate) hmem
  unfold macroAlert at ha
  split_ifs at ha
  cases ha
  simp only [Event.fits, Bool.and_eq_true, decide_eq_true_eq, hpayload, Bool.not_eq_true',
    List.contains_eq_mem, decide_eq_false_iff_not]
  constructor
  · rintro ⟨⟨htitle, -⟩, hlatest, hprevious, hdelta, hdate⟩
    exact ⟨htitle, ⟨hlatest, hprevious, hdelta⟩, hdate⟩
  · rintro ⟨htitle, ⟨hlatest, hprevious, hdelta⟩, hdate⟩
    exact ⟨⟨htitle, hbody hdate⟩, hlatest, hprevious, hdelta, hdate⟩

/-! ### The alerts of a run -/

/-- The reply of every series is read, and every change is encoded when there are users to tell. -/
structure Detects (m : MacroFloats F) (http : Request → Reply F) (key : String) (activeUsers : List UUID) :
    Prop where
  readable : ∀ id ∈ macroSeries, ReadableReply m (http (macroRequest key id))
  encodes : activeUsers ≠ [] → ∀ id ∈ macroSeries, ∀ change, Moved m http key id change → change.Encodes

theorem Moved.mem {key id : String} {change : MacroChange F} (h : Moved m http key id change)
    (hid : id ∈ macroSeries) : change.seriesId ∈ macroSeries := by
  obtain ⟨v, -, hmoves⟩ := h
  rw [hmoves.seriesId]
  exact hid

theorem mem_changes {key : String} {changes : List (Option (MacroChange F))}
    (h : macroSeries.mapM (seriesChange m http key) = .ok changes) {change : MacroChange F} :
    change ∈ changes.reduceOption ↔ ∃ id ∈ macroSeries, Moved m http key id change := by
  rw [List.reduceOption_mem_iff, mem_of_mapM h]
  simp only [seriesChange_eq_some]

/-- The alerts of a detector that returns. -/
theorem mem_detectMacroAlerts {apiKey : Option String} {key : String} {activeUsers : List UUID}
    {alerts : List (MacroAlert F)} (hkey : apiKey.filter (· ≠ "") = some key)
    (h : detectMacroAlerts m http apiKey activeUsers = .ok alerts) {a : MacroAlert F} :
    a ∈ alerts ↔ ∃ u ∈ activeUsers, ∃ id ∈ macroSeries, ∃ change, Moved m http key id change ∧
      macroAlert m u change = .ok a := by
  unfold detectMacroAlerts at h
  rw [hkey] at h
  obtain ⟨changes, hchanges, h⟩ := Loop.of_bind_eq_ok h
  rw [mem_of_mapM h]
  constructor
  · rintro ⟨⟨u, change⟩, hmem, ha⟩
    obtain ⟨hu, hchange⟩ := List.mem_product.mp hmem
    obtain ⟨id, hid, hmoved⟩ := (mem_changes hchanges).mp hchange
    exact ⟨u, hu, id, hid, change, hmoved, ha⟩
  · rintro ⟨u, hu, id, hid, change, hmoved, ha⟩
    exact ⟨(u, change), List.mem_product.mpr ⟨hu, (mem_changes hchanges).mpr ⟨id, hid, hmoved⟩⟩, ha⟩

/-- When the macro detector returns. -/
theorem exists_detectMacroAlerts {apiKey : Option String} {activeUsers : List UUID} :
    (∃ alerts, detectMacroAlerts m http apiKey activeUsers = .ok alerts) ↔
      ∀ key, apiKey.filter (· ≠ "") = some key → Detects m http key activeUsers := by
  unfold detectMacroAlerts
  cases hkey : apiKey.filter (· ≠ "") with
  | none => simp
  | some key =>
    constructor
    · rintro ⟨alerts, h⟩ _ ⟨⟩
      obtain ⟨changes, hchanges, h⟩ := Loop.of_bind_eq_ok h
      constructor
      · intro id hid
        exact exists_seriesChange.mp (exists_mapM_eq_ok.mp ⟨changes, hchanges⟩ id hid)
      · intro husers id hid change hmoved
        obtain ⟨u, hu⟩ := List.exists_mem_of_ne_nil _ husers
        have hmem := List.mem_product.mpr ⟨hu, (mem_changes hchanges).mpr ⟨id, hid, hmoved⟩⟩
        obtain ⟨a, ha⟩ := exists_mapM_eq_ok.mp ⟨alerts, h⟩ (u, change) hmem
        exact (exists_macroAlert (hmoved.mem hid)).mp ⟨a, ha⟩
    · intro h
      obtain ⟨hreadable, hencodes⟩ := h key rfl
      have hall : ∀ id ∈ macroSeries, ∃ r, seriesChange m http key id = .ok r := fun id hid =>
        exists_seriesChange.mpr (hreadable id hid)
      obtain ⟨changes, hchanges⟩ := exists_mapM_eq_ok.mpr hall
      simp only [hchanges, bind, Except.bind]
      apply exists_mapM_eq_ok.mpr
      rintro ⟨u, change⟩ hmem
      obtain ⟨hu, hchange⟩ := List.mem_product.mp hmem
      obtain ⟨id, hid, hmoved⟩ := (mem_changes hchanges).mp hchange
      exact (exists_macroAlert (hmoved.mem hid)).mpr (hencodes (List.ne_nil_of_mem hu) id hid change hmoved)

/-- A run whose detectors return inserts everything when all rows fit, and nothing otherwise. -/
theorem persisted_runAll {apiKey : Option String} {activeUsers : List UUID} {found : List AlertEvent}
    {alerts : List (MacroAlert F)} (h : detectMacroAlerts m http apiKey activeUsers = .ok alerts) :
    persisted (runAll m http apiKey activeUsers found) =
      if ∀ a ∈ alerts, (Event.fred a).fits m = true then
        found.map Event.watched ++ alerts.map Event.fred else [] := by
  have hall : (found.map Event.watched ++ alerts.map Event.fred).all (Event.fits m) = true ↔
      ∀ a ∈ alerts, (Event.fred a).fits m = true := by
    simp [Event.fits]
  unfold runAll
  simp only [h, Except.mapError, bind, Except.bind, hall]
  split_ifs <;> rfl

/-- What the volatility and the earnings detector have found. -/
def foundAlerts (f : Doubles) (t : WatchedTables) (getEarningsDate : String → Option ℤ) (today : ℤ) :
    List AlertEvent := (alertedRows f t getEarningsDate today).map Prod.snd

/-- The macro detector returns and the run keeps what the others have found exactly when there is no
    key, or the reply of each series is refused or readable, every change above the threshold is
    encoded when there are users to tell, and fits its row when there is something to lose. -/
theorem survives_iff (m : MacroFloats F) (http : Request → Reply F) (apiKey : Option String)
    (activeUsers : List UUID) (f : Doubles) (t : WatchedTables) (getEarningsDate : String → Option ℤ)
    (today : ℤ) :
    Survives m http apiKey activeUsers (foundAlerts f t getEarningsDate today) ↔
      ∀ key, apiKey.filter (· ≠ "") = some key → Detects m http key activeUsers ∧
        (foundAlerts f t getEarningsDate today ≠ [] → activeUsers ≠ [] →
          ∀ id ∈ macroSeries, ∀ change, Moved m http key id change → change.Fits m) := by
  generalize foundAlerts f t getEarningsDate today = found
  constructor
  · rintro ⟨⟨alerts, halerts⟩, hpersists⟩ key hkey
    have hdetects := exists_detectMacroAlerts.mp ⟨alerts, halerts⟩ key hkey
    refine ⟨hdetects, ?_⟩
    intro hfound husers id hid change hmoved
    obtain ⟨b, hb⟩ := List.exists_mem_of_ne_nil _ hfound
    obtain ⟨u, hu⟩ := List.exists_mem_of_ne_nil _ husers
    have hrow := hpersists b hb
    rw [persisted_runAll halerts] at hrow
    split_ifs at hrow with hfits
    · have hencodes := hdetects.encodes husers id hid change hmoved
      obtain ⟨a, ha⟩ : ∃ a, macroAlert m u change = .ok a :=
        (exists_macroAlert (hmoved.mem hid)).mpr hencodes
      have hmem := (mem_detectMacroAlerts hkey halerts).mpr ⟨u, hu, id, hid, change, hmoved, ha⟩
      exact (fits_iff (hmoved.mem hid) ha).mp (hfits a hmem)
    · cases hrow
  · intro h
    obtain ⟨alerts, halerts⟩ := exists_detectMacroAlerts.mpr fun key hkey => (h key hkey).1
    refine ⟨⟨alerts, halerts⟩, ?_⟩
    intro b hb
    have hfits : ∀ a ∈ alerts, (Event.fred a).fits m = true := by
      intro a ha
      cases hkey : apiKey.filter (· ≠ "") with
      | none =>
        unfold detectMacroAlerts at halerts
        rw [hkey] at halerts
        cases halerts
        cases ha
      | some key =>
        obtain ⟨u, hu, id, hid, change, hmoved, ha⟩ := (mem_detectMacroAlerts hkey halerts).mp ha
        exact (fits_iff (hmoved.mem hid) ha).mpr
          ((h key hkey).2 (List.ne_nil_of_mem hb) (List.ne_nil_of_mem hu) id hid change hmoved)
    rw [persisted_runAll halerts, if_pos hfits]
    exact List.mem_append_left _ (List.mem_map_of_mem hb)

end Run

/-- Doubles that are whole numbers. No list and no object is printed with them. -/
def wholeDoubles : MacroFloats ℤ where
  kind n := .finite n
  bool n := n ≠ 0
  str n := py (toString n) ++ py ".0"
  ofText := Literals.int
  ofInt := some
  ofBool b := b.toInt
  sub a b := a - b
  material n := n ≠ 0
  signed2 n := (if n < 0 then "-" else "+") ++ toString n.natAbs ++ ".00"
  repr _ := []
  str_plain n c h := by
    rcases List.mem_append.mp h with h | h
    · exact isPlain_of_mem_toString h
    · have hplain : ∀ c ∈ py ".0", IsPlain c := by decide
      exact hplain c h
  repr_plain _ c h := by cases h

/-- FRED is behind a gateway that answers with a page of its own: the detector raises, and the
    volatility alert that has been found is not inserted. -/
theorem gatewayPage_loses_alerts :
    ¬Survives wholeDoubles (fun _ => .response 200 .malformed) (some "k") [1]
      (foundAlerts exactDoubles soldOut (fun _ => none) 0) ∧
    detectMacroAlerts wholeDoubles (fun _ => .response 200 .malformed) (some "k") [1] =
      .error .valueError ∧
    foundAlerts exactDoubles soldOut (fun _ => none) 0 ≠ [] := by
  have hraises : detectMacroAlerts wholeDoubles (fun _ => .response 200 .malformed) (some "k") [1] =
      .error .valueError := rfl
  have hfound : (foundAlerts exactDoubles soldOut (fun _ => none) 0).isEmpty = false := by decide +kernel
  refine ⟨?_, hraises, fun h => by rw [h] at hfound; cases hfound⟩
  rintro ⟨⟨alerts, h⟩, -⟩
  rw [hraises] at h
  cases h

end Nivara.Safety
