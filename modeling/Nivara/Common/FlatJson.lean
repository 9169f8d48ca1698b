import Mathlib

/-!
# Texts of flat JSON objects

What `json.dumps` writes for a dictionary of names and scalars, and what `json.loads` reads of such a
text: no nesting, no integers, and no commas, colons or quotes in a name.

* Doubles are a parameter, with their texts. `json.dumps` writes the infinities as words, and
  `json.loads` reads them.
* A text is the list of its characters.

Results:

* `readToken_token`: the text of a scalar is read as the scalar.
* `loads_dumps`: the text of a dictionary is read as the dictionary.
-/

namespace Nivara.FlatJson

variable {F : Type}

/-- What a double is: no number, infinite (and whether it is negative), or finite. -/
inductive DoubleKind
  | nan
  | infinity (negative : Bool)
  | finite
  deriving DecidableEq

/-- What `json` asks of doubles. -/
structure Doubles (F : Type) where
  kind : F → DoubleKind
  /-- `float.__repr__(x)`. -/
  repr : F → List Char
  /-- `float(text)` of a number with a fraction or an exponent; `none` for another text. -/
  float : List Char → Option F
  /-- `float("nan")`. -/
  nan : F
  /-- `float("inf")` and `float("-inf")`. -/
  infinity : Bool → F
  /-- `bool(x)`. -/
  bool : F → Bool

/-- A value of such a dictionary. -/
inductive Scalar (F : Type)
  | null
  | bool (b : Bool)
  | float (x : F)

/-- The words of JSON. -/
def nullWord : List Char := ['n', 'u', 'l', 'l']

def trueWord : List Char := ['t', 'r', 'u', 'e']

def falseWord : List Char := ['f', 'a', 'l', 's', 'e']

def nanWord : List Char := ['N', 'a', 'N']

def infinityWord : Bool → List Char
  | true => ['-', 'I', 'n', 'f', 'i', 'n', 'i', 't', 'y']
  | false => ['I', 'n', 'f', 'i', 'n', 'i', 't', 'y']

def words : List (List Char) :=
  [nullWord, trueWord, falseWord, nanWord, infinityWord false, infinityWord true]

section Model

variable (d : Doubles F)

/-- The text of a double. -/
def floatstr (x : F) : List Char :=
  match d.kind x with
  | .nan => nanWord
  | .infinity negative => infinityWord negative
  | .finite => d.repr x

/-- The text of a scalar. -/
def token : Scalar F → List Char
  | .null => nullWord
  | .bool true => trueWord
  | .bool false => falseWord
  | .float x => floatstr d x

/-- `"name": value`. -/
def item (member : List Char × Scalar F) : List Char :=
  '"' :: (member.1 ++ '"' :: ':' :: ' ' :: token d member.2)

/-- `json.dumps(members)`. -/
def dumps (members : List (List Char × Scalar F)) : List Char :=
  '\x7b' :: ([',', ' '].intercalate (members.map (item d)) ++ ['\x7d'])

/-- The scalar of a text. -/
def readToken (text : List Char) : Option (Scalar F) :=
  if text = nullWord then some .null
  else if text = trueWord then some (.bool true)
  else if text = falseWord then some (.bool false)
  else if text = nanWord then some (.float d.nan)
  else if text = infinityWord false then some (.float (d.infinity false))
  else if text = infinityWord true then some (.float (d.infinity true))
  else (d.float text).map .float

/-- A text between quotes. -/
def unquote : List Char → Option (List Char)
  | '"' :: text => if text.getLast? = some '"' then some text.dropLast else none
  | _ => none

def skipSpaces (text : List Char) : List Char := text.dropWhile (· = ' ')

/-- One member, between two commas. -/
def readItem (text : List Char) : Option (List Char × Scalar F) :=
  match text.splitOn ':' with
  | [key, value] => do
    let key ← unquote (skipSpaces key)
    let value ← readToken d (skipSpaces value)
    return (key, value)
  | _ => none

/-- `json.loads(text)`; `none` for a text that is not of this form. -/
def loads : List Char → Option (List (List Char × Scalar F))
  | '\x7b' :: text =>
    if text.getLast? = some '\x7d' then (text.dropLast.splitOn ',').mapM (readItem d) else none
  | _ => none

end Model

/-! ## Scalars -/

/-- The characters of the text of a finite double. -/
def literalChars : List Char :=
  ['0', '1', '2', '3', '4', '5', '6', '7', '8', '9', '+', '-', '.', 'e']

/-- What is documented of doubles: a finite one is read back from its text, which is a number, and
    there are two infinite ones. -/
structure Doubles.Documented (d : Doubles F) : Prop where
  eq_infinity : ∀ x negative, d.kind x = .infinity negative → x = d.infinity negative
  repr_literal : ∀ x, d.kind x = .finite → ∀ c ∈ d.repr x, c ∈ literalChars
  float_repr : ∀ x, d.kind x = .finite → d.float (d.repr x) = some x

/-- A scalar other than `NaN`. -/
def Scalar.IsRead (d : Doubles F) : Scalar F → Prop
  | .float x => d.kind x ≠ .nan
  | _ => True

variable {d : Doubles F}

/-- The words are no numbers. -/
theorem exists_not_literal : ∀ word ∈ words, ∃ c ∈ word, c ∉ literalChars := by
  simp [words, nullWord, trueWord, falseWord, nanWord, infinityWord, literalChars]

/-- The text of a scalar is a word, or that of a finite double. -/
theorem token_cases (v : Scalar F) :
    token d v ∈ words ∨ ∃ x, v = .float x ∧ d.kind x = .finite ∧ token d v = d.repr x := by
  have hwords : ∀ negative, infinityWord negative ∈ words := by decide
  cases v with
  | null => exact .inl List.mem_cons_self
  | bool b =>
    cases b with
    | false => exact .inl (show falseWord ∈ words by decide)
    | true => exact .inl (show trueWord ∈ words by decide)
  | float x =>
    show floatstr d x ∈ words ∨ _
    unfold floatstr
    cases hkind : d.kind x with
    | nan => exact .inl (show nanWord ∈ words by decide)
    | infinity negative => exact .inl (hwords negative)
    | finite =>
      refine .inr ⟨x, rfl, hkind, ?_⟩
      show floatstr d x = _
      unfold floatstr
      rw [hkind]

theorem readToken_repr (hd : d.Documented) {x : F} (hx : d.kind x = .finite) :
    readToken d (d.repr x) = some (.float x) := by
  have hword : ∀ word ∈ words, d.repr x ≠ word := by
    rintro word hmem rfl
    obtain ⟨c, hc, hnot⟩ := exists_not_literal _ hmem
    exact hnot (hd.repr_literal x hx c hc)
  simp only [words, List.forall_mem_cons] at hword
  obtain ⟨hnull, htrue, hfalse, hnan, hinf, hneg, -⟩ := hword
  rw [readToken, if_neg hnull, if_neg htrue, if_neg hfalse, if_neg hnan, if_neg hinf, if_neg hneg,
    hd.float_repr x hx]
  rfl

theorem readToken_infinityWord (d : Doubles F) (negative : Bool) :
    readToken d (infinityWord negative) = some (.float (d.infinity negative)) := by
  cases negative <;> rfl

theorem readToken_token (hd : d.Documented) {v : Scalar F} (hv : v.IsRead d) :
    readToken d (token d v) = some v := by
  cases v with
  | null => rfl
  | bool b => cases b <;> rfl
  | float x =>
    show readToken d (floatstr d x) = _
    unfold floatstr
    cases hkind : d.kind x with
    | nan => exact absurd hkind hv
    | infinity negative =>
      rw [hd.eq_infinity x negative hkind]
      exact readToken_infinityWord d negative
    | finite => exact readToken_repr hd hkind

theorem separators_not_mem_words : ∀ word ∈ words, ∀ c ∈ [',', ':', ' '], c ∉ word := by
  simp [words, nullWord, trueWord, falseWord, nanWord, infinityWord]

theorem separators_not_literal : ∀ c ∈ [',', ':', ' '], c ∉ literalChars := by
  simp [literalChars]

/-- The text of a scalar holds no comma, no colon and no space. -/
theorem not_mem_token (hd : d.Documented) {c : Char} (hc : c ∈ [',', ':', ' ']) (v : Scalar F) :
    c ∉ token d v := by
  rcases token_cases (d := d) v with hmem | ⟨x, -, hkind, htoken⟩
  · exact separators_not_mem_words _ hmem c hc
  · rw [htoken]
    exact fun h => separators_not_literal c hc (hd.repr_literal x hkind c h)

/-! ## Objects -/

/-- A name without commas, colons and quotes. -/
def IsPlain (name : List Char) : Prop := ∀ c ∈ name, c ∉ [',', ':', '"']

theorem skipSpaces_of_head {text : List Char} (h : text.head? ≠ some ' ') : skipSpaces text = text := by
  cases text with
  | nil => rfl
  | cons c text =>
    have hc : c ≠ ' ' := fun hc => h (congrArg some hc)
    exact List.dropWhile_cons_of_neg (by simpa using hc)

theorem unquote_quoted (name : List Char) : unquote ('"' :: (name ++ ['"'])) = some name := by
  simp [unquote]

/-- The item is read, with the space before it or without. -/
theorem readItem_item (hd : d.Documented) {member : List Char × Scalar F} (hname : IsPlain member.1)
    (hv : member.2.IsRead d) {spaces : List Char} (hspaces : spaces = [] ∨ spaces = [' ']) :
    readItem d (spaces ++ item d member) = some member := by
  obtain ⟨name, v⟩ := member
  have hcolon : ':' ∉ spaces ++ '"' :: (name ++ ['"']) := by
    have hname : ':' ∉ name := fun h => hname _ h (by decide)
    rcases hspaces with rfl | rfl <;> simpa using hname
  have hvalue : ':' ∉ ' ' :: token d v := by
    simpa using not_mem_token hd (c := ':') (by decide) v
  have hsplit : (spaces ++ item d (name, v)).splitOn ':' =
      [spaces ++ '"' :: (name ++ ['"']), ' ' :: token d v] := by
    have hitem : spaces ++ item d (name, v) =
        (spaces ++ '"' :: (name ++ ['"'])) ++ ':' :: ' ' :: token d v := by
      simp [item]
    rw [hitem, List.splitOn_append_cons_self_of_not_mem hcolon, List.splitOn_eq_singleton hvalue]
  have hkey : skipSpaces (spaces ++ '"' :: (name ++ ['"'])) = '"' :: (name ++ ['"']) := by
    rcases hspaces with rfl | rfl <;> rfl
  have htoken : skipSpaces (' ' :: token d v) = token d v := by
    have hhead : (token d v).head? ≠ some ' ' := fun h =>
      not_mem_token hd (c := ' ') (by decide) v (List.mem_of_mem_head? h)
    exact skipSpaces_of_head hhead
  unfold readItem
  rw [hsplit]
  dsimp only
  rw [hkey, htoken, unquote_quoted, readToken_token hd hv]
  rfl

theorem comma_not_mem_item (hd : d.Documented) {member : List Char × Scalar F} (hname : IsPlain member.1) :
    ',' ∉ item d member := by
  have hname : ',' ∉ member.1 := fun h => hname _ h (by decide)
  have hvalue := not_mem_token hd (c := ',') (by decide) member.2
  simp [item, hname, hvalue]

/-- The pieces between the commas: all but the first begin with a space. -/
theorem splitOn_items {text : List Char} {texts : List (List Char)} (h : ∀ t ∈ text :: texts, ',' ∉ t) :
    ([',', ' '].intercalate (text :: texts)).splitOn ',' = text :: texts.map (' ' :: ·) := by
  induction texts generalizing text with
  | nil =>
    rw [List.intercalate_singleton, List.splitOn_eq_singleton (h text (by simp))]
    rfl
  | cons next texts ih =>
    have htail : ∀ t ∈ next :: texts, ',' ∉ t := fun t ht => h t (List.mem_cons_of_mem _ ht)
    have hcons : [',', ' '].intercalate (text :: next :: texts) =
        text ++ ',' :: ' ' :: [',', ' '].intercalate (next :: texts) := by
      rw [List.intercalate_cons_cons, List.append_assoc]
      rfl
    rw [hcons, List.splitOn_append_cons_self_of_not_mem (h text (by simp)),
      List.splitOn_cons_eq_if_modifyHead, if_neg (by decide), ih htail]
    rfl

/-- The text of a dictionary is read as the dictionary. -/
theorem loads_dumps (hd : d.Documented) {members : List (List Char × Scalar F)} (hne : members ≠ [])
    (hmembers : ∀ member ∈ members, IsPlain member.1 ∧ member.2.IsRead d) :
    loads d (dumps d members) = some members := by
  obtain ⟨first, rest, rfl⟩ := List.exists_cons_of_ne_nil hne
  have hcommas : ∀ text ∈ item d first :: rest.map (item d), ',' ∉ text := by
    intro text htext
    obtain ⟨member, hmember, rfl⟩ := List.mem_map.mp (List.map_cons ▸ htext)
    exact comma_not_mem_item hd (hmembers member hmember).1
  have hfirst : readItem d (item d first) = some first :=
    readItem_item hd (hmembers first (by simp)).1 (hmembers first (by simp)).2 (.inl rfl)
  have hrest : ∀ member ∈ rest, readItem d (' ' :: item d member) = some member := by
    intro member hmember
    have hmember := hmembers member (List.mem_cons_of_mem _ hmember)
    exact readItem_item hd hmember.1 hmember.2 (.inr rfl)
  have hread : (rest.map fun member => ' ' :: item d member).mapM (readItem d) = some rest := by
    clear hmembers hcommas hne
    induction rest with
    | nil => rfl
    | cons member rest ih =>
      rw [List.map_cons, List.mapM_cons, hrest member (by simp),
        ih fun m hm => hrest m (List.mem_cons_of_mem _ hm)]
      rfl
  have hpieces : ([',', ' '].intercalate ((first :: rest).map (item d))).splitOn ',' =
      item d first :: rest.map fun member => ' ' :: item d member := by
    rw [List.map_cons, splitOn_items hcommas, List.map_map]
    rfl
  have hbody : loads d (dumps d (first :: rest)) =
      (([',', ' '].intercalate ((first :: rest).map (item d))).splitOn ',').mapM (readItem d) := by
    unfold dumps
    rw [loads, List.getLast?_concat, if_pos rfl, List.dropLast_concat]
  rw [hbody, hpieces, List.mapM_cons, hfirst, hread]
  rfl

end Nivara.FlatJson
