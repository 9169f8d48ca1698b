import Nivara.Common.Literals
import Nivara.Lib.Raises

/-!
# JSON values and the replies they come in

What Python code sees of a JSON body: the values that `json.loads` makes, and which
exception an attribute, an index or a loop raises on a value of the wrong shape.

* The members of an object are a list of pairs in their order; a lookup finds the first.
* Doubles are a parameter.
* `str(value)` is not modelled for a list or an object: such a text opens with a bracket.

Results:

* `get_eq_ok`, `only_get`: `.get` is for objects.
* `mapM_get_eq_ok`, `only_mapM_get`: a `.get` of every entry of a list.
-/

namespace Nivara

open Raises

/-- The exceptions of the interpreter and of `httpx`. -/
inductive PyError
  | attributeError
  | typeError
  | valueError
  | keyError
  | indexError
  | overflowError
  | recursionError
  | stopIteration
  | httpError
  deriving DecidableEq, Repr

/-- What `json.loads` returns; `F` are the doubles. -/
inductive Json (F : Type)
  | null
  | bool (b : Bool)
  | int (n : ℤ)
  | float (x : F)
  | str (s : PyStr)
  | arr (values : List (Json F))
  | obj (members : List (PyStr × Json F))

/-- What a double is: no number, infinite, or finite with a whole part. -/
inductive FloatKind
  | nan
  | infinity
  | finite (whole : ℤ)

/-- What the code asks of doubles. -/
structure Floats (F : Type) where
  kind : F → FloatKind
  /-- `bool(x)`. -/
  bool : F → Bool
  /-- `str(x)`. -/
  str : F → PyStr

namespace Json

variable {F : Type} (f : Floats F)

def IsObject : Json F → Prop
  | obj _ => True
  | _ => False

/-- `v is None`. -/
def isNull : Json F → Bool
  | null => true
  | _ => false

/-- `v == text`. -/
def isText (text : String) : Json F → Bool
  | str s => s = py text
  | _ => false

/-- `bool(v)`. -/
def truthy : Json F → Bool
  | null => false
  | bool b => b
  | int n => n ≠ 0
  | float x => f.bool x
  | str s => !s.isEmpty
  | arr values => !values.isEmpty
  | obj members => !members.isEmpty

/-- `v or default`. -/
def orElse (v default : Json F) : Json F := if v.truthy f then v else default

/-- The member of an object, `null` when there is none. -/
def field (key : String) : Json F → Json F
  | obj members => (members.lookup (py key)).getD null
  | _ => null

/-- `v.get(key)`. -/
def get (key : String) : Json F → Except PyError (Json F)
  | obj members => .ok ((members.lookup (py key)).getD null)
  | _ => .error .attributeError

/-- `v[0]`. -/
def item0 : Json F → Except PyError (Json F)
  | arr (v :: _) => .ok v
  | arr [] => .error .indexError
  | str (c :: _) => .ok (str [c])
  | str [] => .error .indexError
  | obj _ => .error .keyError
  | _ => .error .typeError

/-- `v[key]` of a text. -/
def itemAt (key : PyStr) : Json F → Except PyError (Json F)
  | obj members =>
    match members.lookup key with
    | some v => .ok v
    | none => .error .keyError
  | _ => .error .typeError

/-- `next(iter(v.values()))`. -/
def firstValue : Json F → Except PyError (Json F)
  | obj (m :: _) => .ok m.2
  | obj [] => .error .stopIteration
  | _ => .error .attributeError

/-- `for x in v`. -/
def iter : Json F → Except PyError (List (Json F))
  | str s => .ok (s.map fun c => str [c])
  | arr values => .ok values
  | obj members => .ok (members.map fun m => str m.1)
  | _ => .error .typeError

/-- `int(v)`. -/
def toInt : Json F → Except PyError ℤ
  | bool b => .ok b.toInt
  | int n => .ok n
  | float x =>
    match f.kind x with
    | .nan => .error .valueError
    | .infinity => .error .overflowError
    | .finite whole => .ok whole
  | str s =>
    match Literals.int s with
    | some n => .ok n
    | none => .error .valueError
  | _ => .error .typeError

/-- `Decimal(str(v))`; `none` is an `InvalidOperation`. -/
def decimal : Json F → Option PyDecimal
  | int n => some (.finite (n < 0) n.natAbs 0)
  | float x => Literals.decimal (f.str x)
  | str s => Literals.decimal s
  -- `"None"`, `"True"`, `"False"`, `"[…]"` and `"{…}"` are no numbers
  | _ => none

/-- `date.fromisoformat(v)`. -/
def isoDate : Json F → Except PyError Date
  | str s =>
    match Date.fromisoformat s with
    | some d => .ok d
    | none => .error .valueError
  | _ => .error .typeError

theorem orElse_of_truthy {v : Json F} (h : v.truthy f = true) (default : Json F) :
    v.orElse f default = v := if_pos h

theorem truthy_orElse {v default : Json F} (hd : default.truthy f = false) :
    (v.orElse f default).truthy f = v.truthy f := by
  unfold orElse
  split_ifs with h
  · rfl
  · rw [hd]
    simpa using h

/-- `v or {}` is an object, unless `v` is true and none. -/
theorem isObject_orElse {v : Json F} :
    (v.orElse f (.obj [])).IsObject ↔ (v.truthy f = true → v.IsObject) := by
  unfold orElse
  split_ifs with h <;> simp [h, IsObject]

theorem field_orElse {v : Json F} (key : String) : (v.orElse f (.obj [])).field key = v.field key := by
  unfold orElse
  split_ifs with h
  · rfl
  · cases v with
    | obj members => cases members <;> simp_all [truthy, field]
    | _ => rfl

theorem isNull_of_decimal {v : Json F} {d : PyDecimal} (h : v.decimal f = some d) : v.isNull = false := by
  cases v with
  | null => cases h
  | _ => rfl

theorem get_eq_ok {v w : Json F} {key : String} : v.get key = .ok w ↔ v.IsObject ∧ v.field key = w := by
  cases v <;> simp [get, IsObject, field]

theorem get_of_isObject {v : Json F} (h : v.IsObject) (key : String) : v.get key = .ok (v.field key) :=
  get_eq_ok.mpr ⟨h, rfl⟩

@[simp] theorem only_get {P : PyError → Prop} {v : Json F} {key : String} :
    Only P (v.get key) ↔ v.IsObject ∨ P .attributeError := by
  cases v <;> simp [get, IsObject]

/-- What a loop gets an object from first is a list. -/
theorem eq_arr_of_iter {v a : Json F} {l : List (Json F)} (h : v.iter = .ok (a :: l)) (ha : a.IsObject) :
    v = .arr (a :: l) := by
  cases v with
  | arr values =>
    cases h
    rfl
  | str s =>
    cases s with
    | nil => cases h
    | cons c s =>
      cases h
      exact absurd ha id
  | obj members =>
    cases members with
    | nil => cases h
    | cons m members =>
      cases h
      exact absurd ha id
  | null | bool | int | float => cases h

/-- A loop over a true value has a first round. -/
theorem exists_cons_of_iter {v : Json F} {l : List (Json F)} (h : v.iter = .ok l) (hv : v.truthy f = true) :
    ∃ a rest, l = a :: rest := by
  cases v with
  | arr values => cases values <;> cases h <;> simp [truthy] at hv ⊢
  | str s => cases s <;> cases h <;> simp [truthy] at hv ⊢
  | obj members => cases members <;> cases h <;> simp [truthy] at hv ⊢
  | null | bool | int | float => cases h

theorem mapM_get_eq_ok {l out : List (Json F)} {key : String} :
    l.mapM (get key) = .ok out ↔ (∀ v ∈ l, v.IsObject) ∧ l.map (field key) = out := by
  rw [mapM_eq_ok]
  induction l generalizing out with
  | nil => simp [eq_comm]
  | cons v l ih =>
    rw [List.forall₂_cons_left_iff]
    constructor
    · rintro ⟨w, rest, hv, hrest, rfl⟩
      obtain ⟨hobj, rfl⟩ := get_eq_ok.mp hv
      obtain ⟨hall, rfl⟩ := ih.mp hrest
      exact ⟨List.forall_mem_cons.mpr ⟨hobj, hall⟩, rfl⟩
    · rintro ⟨hall, rfl⟩
      obtain ⟨hobj, hall⟩ := List.forall_mem_cons.mp hall
      exact ⟨_, _, get_eq_ok.mpr ⟨hobj, rfl⟩, ih.mpr ⟨hall, rfl⟩, rfl⟩

theorem only_mapM_get {P : PyError → Prop} (hP : ¬P .attributeError) {l : List (Json F)} {key : String} :
    Only P (l.mapM (get key)) ↔ ∀ v ∈ l, v.IsObject := by
  induction l with
  | nil => simp
  | cons v l ih =>
    rw [List.mapM_cons, List.forall_mem_cons]
    cases hv : v.get key with
    | error e =>
      have hobj : ¬v.IsObject := by
        intro h
        rw [get_of_isObject h] at hv
        cases hv
      have he : ¬Only P (v.get key) := by simp [hobj, hP]
      rw [hv, only_error] at he
      simp [hobj, he]
    | ok w =>
      obtain ⟨hobj, -⟩ := get_eq_ok.mp hv
      simpa [hobj] using ih

end Json

/-! ## Requests and replies -/

/-- A `GET`. -/
structure Request where
  url : String
  params : List (String × String)
  headers : List (String × String)
  deriving DecidableEq

/-- What `resp.json()` finds: a value, no JSON (in no encoding), or a value nested too deep. -/
inductive Body (F : Type)
  | json (v : Json F)
  | malformed
  | tooDeep

/-- `resp.json()`. A `JSONDecodeError` and a `UnicodeDecodeError` are `ValueError`s. -/
def Body.read {F : Type} : Body F → Except PyError (Json F)
  | .json v => .ok v
  | .malformed => .error .valueError
  | .tooDeep => .error .recursionError

/-- What `client.get` comes back with: an error of the transport, or a response. -/
inductive Reply (F : Type)
  | failed
  | response (status : ℕ) (body : Body F)

/-- `client.get(…)` and `resp.raise_for_status()`. -/
def Reply.raiseForStatus {F : Type} : Reply F → Except PyError (Body F)
  | .failed => .error .httpError
  | .response status body => if 200 ≤ status ∧ status < 300 then .ok body else .error .httpError

/-- There is no response, or its status is no success. -/
def Reply.Refused {F : Type} (r : Reply F) : Prop :=
  ∀ status body, r = .response status body → ¬(200 ≤ status ∧ status < 300)

/-- A success with the JSON value `v`. -/
def Reply.Answered {F : Type} (r : Reply F) (v : Json F) : Prop :=
  ∃ status, r = .response status (.json v) ∧ 200 ≤ status ∧ status < 300

theorem Reply.exists_raiseForStatus_eq_error {F : Type} {r : Reply F} :
    (∃ e, r.raiseForStatus = .error e) ↔ r.Refused := by
  unfold Reply.Refused
  rcases r with _ | ⟨status, body⟩
  · simp [Reply.raiseForStatus]
  · by_cases hstatus : 200 ≤ status ∧ status < 300
    · simp [Reply.raiseForStatus, hstatus]
    · have h300 : 200 ≤ status → 300 ≤ status := by omega
      simpa [Reply.raiseForStatus, hstatus] using h300

theorem Reply.exists_read_eq_ok {F : Type} {r : Reply F} {v : Json F} :
    (∃ body, r.raiseForStatus = .ok body ∧ body.read = .ok v) ↔ r.Answered v := by
  unfold Reply.Answered
  rcases r with _ | ⟨status, body⟩
  · simp [Reply.raiseForStatus]
  · by_cases hstatus : 200 ≤ status ∧ status < 300
    · cases body <;> simp [Reply.raiseForStatus, hstatus, Body.read]
    · cases body <;> simp [Reply.raiseForStatus, hstatus]

theorem Reply.Answered.unique {F : Type} {r : Reply F} {v w : Json F} (hv : r.Answered v)
    (hw : r.Answered w) : v = w := by
  obtain ⟨_, hr, -⟩ := hv
  obtain ⟨_, hr', -⟩ := hw
  rw [hr] at hr'
  cases hr'
  rfl

end Nivara
