import Nivara.Common.Time
import Nivara.Lib.ReadThrough
import Nivara.MarketData.CacheKeys

/-!
# The cache of the data providers

`get_ohlcv`, `get_fundamentals` and `get_quote` of `YahooProvider` (`data/yahoo.py`, lines 147-165,
211-221 and 256-264) and `get_fundamentals` of `EdgarProvider` (`data/edgar.py`, lines 192-214), over
`get_model`, `set_model` and their list variants (`data/cache.py`, lines 62-102).

* `str.upper` and the serialisation of the models are parameters; a model that is dumped is validated.
* What an upstream answers, and when it fails, is an input of the run.
* A Redis command that fails raises out of the call.
* `invalidate_symbol` deletes the keys of its scan here in one step.

Results:

* `cacheKey_injective`: no two requests share a key.
* `quiet_of_invalidate`: after `invalidate_symbol` no request of the symbol is cached.
* `providers_served`: what the providers return, in every interleaving.
-/

namespace Nivara.MarketData

open ExpiringKeys ReadThrough Transition

/-! ## Model -/

/-- A call of a provider that is cached, with its normalised arguments. -/
inductive DataRequest
  | ohlcv (symbol : String) (lookbackDays : ℤ)
  | fundamentals (symbol : String)
  | quote (symbol : String)
  /-- `EdgarProvider.get_fundamentals`. -/
  | edgar (symbol : String)
  deriving DecidableEq

namespace DataRequest

/-- `YahooProvider.get_ohlcv`. -/
def getOhlcv (symbol : String) (lookbackDays : ℤ) : DataRequest := .ohlcv symbol lookbackDays

/-- `EdgarProvider.get_fundamentals`: the symbol is normalised. -/
def getEdgarFundamentals (upper : String → String) (symbol : String) : DataRequest :=
  .edgar (strip (upper symbol))

def provider : DataRequest → String
  | ohlcv .. | fundamentals _ | quote _ => "yahoo"
  | edgar _ => "edgar"

def symbol : DataRequest → String
  | ohlcv symbol _ | fundamentals symbol | quote symbol | edgar symbol => symbol

def cacheKey : DataRequest → String
  | ohlcv symbol lookbackDays => ohlcvKey "yahoo" symbol lookbackDays
  | fundamentals symbol => fundamentalsKey "yahoo" symbol
  | quote symbol => quoteKey "yahoo" symbol
  | edgar symbol => fundamentalsKey "edgar" symbol

/-- `OHLCV_TTL_SECONDS`, `FUNDAMENTALS_TTL_SECONDS`, `QUOTE_TTL_SECONDS`. -/
def ttl : DataRequest → ℤ
  | ohlcv .. => seconds (60 * 60)
  | fundamentals _ | edgar _ => seconds (24 * 60 * 60)
  | quote _ => seconds 60

/-- The arguments that are not refused. -/
def valid : DataRequest → Bool
  | ohlcv _ lookbackDays => 0 < lookbackDays
  | fundamentals _ | quote _ => true
  | edgar symbol => symbol ≠ ""

end DataRequest

/-- A model class, and a list of its models as `set_model_list` writes it. -/
structure Pydantic (M : Type) where
  modelDumpJson : M → String
  modelValidateJson : String → Option M
  /-- `TypeAdapter(list[model]).validate_json`. -/
  validateList : String → Option (List M)
  validate_dump : ∀ m, modelValidateJson (modelDumpJson m) = some m
  validateList_dump : ∀ ms,
    validateList ("[" ++ String.intercalate "," (ms.map modelDumpJson) ++ "]") = some ms

section Classes

variable {Bar Fundamentals Quote EdgarFundamentals : Type}

/-- What a request is answered with. -/
abbrev Answer (Bar Fundamentals Quote EdgarFundamentals : Type) : DataRequest → Type
  | .ohlcv .. => List Bar
  | .fundamentals _ => Fundamentals
  | .quote _ => Quote
  | .edgar _ => EdgarFundamentals

/-- The model classes. -/
structure Classes (Bar Fundamentals Quote EdgarFundamentals : Type) where
  bar : Pydantic Bar
  fundamentals : Pydantic Fundamentals
  quote : Pydantic Quote
  edgar : Pydantic EdgarFundamentals

variable (m : Classes Bar Fundamentals Quote EdgarFundamentals)

/-- The payload of `set_model` or `set_model_list`. -/
def dump : (r : DataRequest) → Answer Bar Fundamentals Quote EdgarFundamentals r → String
  | .ohlcv .., bars => "[" ++ String.intercalate "," (bars.map m.bar.modelDumpJson) ++ "]"
  | .fundamentals _, f => m.fundamentals.modelDumpJson f
  | .quote _, q => m.quote.modelDumpJson q
  | .edgar _, f => m.edgar.modelDumpJson f

/-- What `get_model` or `get_model_list` makes of a payload: a `ValidationError` is a miss. -/
def validate : (r : DataRequest) → String → Option (Answer Bar Fundamentals Quote EdgarFundamentals r)
  | .ohlcv .., raw => m.bar.validateList raw
  | .fundamentals _, raw => m.fundamentals.modelValidateJson raw
  | .quote _, raw => m.quote.modelValidateJson raw
  | .edgar _, raw => m.edgar.modelValidateJson raw

theorem validate_dump (r : DataRequest) (v : Answer Bar Fundamentals Quote EdgarFundamentals r) :
    validate m r (dump m r v) = some v := by
  cases r with
  | ohlcv _ _ => exact m.bar.validateList_dump v
  | fundamentals _ => exact m.fundamentals.validate_dump v
  | quote _ => exact m.quote.validate_dump v
  | edgar _ => exact m.edgar.validate_dump v

end Classes

/-! ## Keys -/

theorem colon_not_mem_toString (n : ℤ) : ':' ∉ (toString n).toList := by
  intro h
  rw [Int.toString_eq_repr, Int.repr_eq_if] at h
  split_ifs at h
  · rw [Nat.toList_repr] at h
    exact absurd (Nat.isDigit_of_mem_toDigits (by decide) (by decide) h) (by decide)
  · rw [String.toList_append, List.mem_append, Nat.toList_repr] at h
    rcases h with h | h
    · exact absurd h (by decide)
    · exact absurd (Nat.isDigit_of_mem_toDigits (by decide) (by decide) h) (by decide)

/-- The symbol and the lookback of a key. -/
theorem ohlcvKey_inj {provider symbol other : String} {d d' : ℤ}
    (h : ohlcvKey provider symbol d = ohlcvKey provider other d') : symbol = other ∧ d = d' := by
  have hlist : (s!"data:{provider}:ohlcv:{symbol}").toList ++ ':' :: (toString d).toList =
      (s!"data:{provider}:ohlcv:{other}").toList ++ ':' :: (toString d').toList := by
    have heq := congrArg String.toList h
    simpa [ohlcvKey, toString] using heq
  obtain ⟨hsymbol, hdays⟩ :=
    of_append_separator (colon_not_mem_toString d) (colon_not_mem_toString d') hlist
  refine ⟨(String.append_right_inj _).mp (String.toList_inj.mp hsymbol), ?_⟩
  have hrepr := String.toList_inj.mp hdays
  rw [Int.toString_eq_repr, Int.toString_eq_repr] at hrepr
  exact Int.repr_inj.mp hrepr

theorem fundamentalsKey_inj {provider symbol symbol' : String}
    (h : fundamentalsKey provider symbol = fundamentalsKey provider symbol') : symbol = symbol' :=
  (String.append_right_inj _).mp h

theorem quoteKey_inj {provider symbol symbol' : String}
    (h : quoteKey provider symbol = quoteKey provider symbol') : symbol = symbol' :=
  (String.append_right_inj _).mp h

/-- The provider and the first letter of the kind. -/
def DataRequest.front : DataRequest → String
  | .ohlcv .. => "data:yahoo:o"
  | .fundamentals _ => "data:yahoo:f"
  | .quote _ => "data:yahoo:q"
  | .edgar _ => "data:edgar:f"

theorem exists_cacheKey_eq (r : DataRequest) : ∃ rest, r.cacheKey = r.front ++ rest := by
  have hohlcv : "data:" ++ "yahoo" ++ ":ohlcv:" = "data:yahoo:o" ++ "hlcv:" := by decide
  have hyahoo : "data:" ++ "yahoo" ++ ":fundamentals:" = "data:yahoo:f" ++ "undamentals:" := by decide
  have hquote : "data:" ++ "yahoo" ++ ":quote:" = "data:yahoo:q" ++ "uote:" := by decide
  have hedgar : "data:" ++ "edgar" ++ ":fundamentals:" = "data:edgar:f" ++ "undamentals:" := by decide
  cases r with
  | ohlcv symbol lookbackDays =>
    refine ⟨"hlcv:" ++ symbol ++ ":" ++ toString lookbackDays, ?_⟩
    show "data:" ++ "yahoo" ++ ":ohlcv:" ++ symbol ++ ":" ++ toString lookbackDays = _
    rw [hohlcv]
    simp only [String.append_assoc, DataRequest.front]
  | fundamentals symbol =>
    refine ⟨"undamentals:" ++ symbol, ?_⟩
    show "data:" ++ "yahoo" ++ ":fundamentals:" ++ symbol = _
    rw [hyahoo, String.append_assoc]
    rfl
  | quote symbol =>
    refine ⟨"uote:" ++ symbol, ?_⟩
    show "data:" ++ "yahoo" ++ ":quote:" ++ symbol = _
    rw [hquote, String.append_assoc]
    rfl
  | edgar symbol =>
    refine ⟨"undamentals:" ++ symbol, ?_⟩
    show "data:" ++ "edgar" ++ ":fundamentals:" ++ symbol = _
    rw [hedgar, String.append_assoc]
    rfl

theorem front_eq_of_cacheKey_eq {r r' : DataRequest} (h : r.cacheKey = r'.cacheKey) :
    r.front = r'.front := by
  have hlength : ∀ r : DataRequest, r.front.toList.length = 12 := fun r => by
    cases r <;> simp [DataRequest.front]
  obtain ⟨rest, hrest⟩ := exists_cacheKey_eq r
  obtain ⟨rest', hrest'⟩ := exists_cacheKey_eq r'
  have hlist : r.front.toList ++ rest.toList = r'.front.toList ++ rest'.toList := by
    rw [← String.toList_append, ← String.toList_append, ← hrest, ← hrest', h]
  exact String.toList_inj.mp (List.append_inj hlist ((hlength r).trans (hlength r').symm)).1

theorem cacheKey_injective : Function.Injective DataRequest.cacheKey := by
  intro r r' h
  have hfront := front_eq_of_cacheKey_eq h
  cases r <;> cases r'
  case ohlcv.ohlcv =>
    obtain ⟨rfl, rfl⟩ := ohlcvKey_inj h
    rfl
  case fundamentals.fundamentals => exact congrArg _ (fundamentalsKey_inj h)
  case quote.quote => exact congrArg _ (quoteKey_inj h)
  case edgar.edgar => exact congrArg _ (fundamentalsKey_inj h)
  all_goals simp [DataRequest.front] at hfront

/-- Every key of a request is one of its symbol under its provider. -/
theorem keyOf_cacheKey (r : DataRequest) : KeyOf r.provider r.symbol r.cacheKey := by
  cases r with
  | ohlcv symbol lookbackDays => exact .ohlcv lookbackDays
  | fundamentals symbol => exact .fundamentals
  | quote symbol => exact .quote
  | edgar symbol => exact .fundamentals

/-! ## Runs -/

section Runs

variable {Bar Fundamentals Quote EdgarFundamentals : Type}

/-- How the providers cache. -/
def policy (m : Classes Bar Fundamentals Quote EdgarFundamentals) :
    Policy String String (Answer Bar Fundamentals Quote EdgarFundamentals) where
  key := DataRequest.cacheKey
  ttl := DataRequest.ttl
  valid := DataRequest.valid
  encode := dump m
  decode := validate m
  key_injective := cacheKey_injective
  decode_encode := validate_dump m

variable {ι : Type}

/-- The state after `invalidate_symbol`, which has deleted the keys of its scan. -/
def invalidated (keys : List String)
    (s : State String String ι (Answer Bar Fundamentals Quote EdgarFundamentals)) :
    State String String ι (Answer Bar Fundamentals Quote EdgarFundamentals) :=
  { s with store := keys.foldl (fun store key => ExpiringKeys.delete key store) s.store }

/-- The keys of a scan: those that are there and match, among others perhaps. -/
def IsScan (provider symbol : String) (keys : List String) (clock : ℤ) (store : Store String String ℤ) :
    Prop :=
  ∀ key, getKey clock key store ≠ none → scanMatches (pattern provider symbol) key → key ∈ keys

theorem getKey_foldl_delete {clock : ℤ} {key : String} (keys : List String) {store : Store String String ℤ}
    (h : getKey clock key store = none ∨ key ∈ keys) :
    getKey clock key (keys.foldl (fun store key => ExpiringKeys.delete key store) store) = none := by
  induction keys generalizing store with
  | nil => exact h.resolve_right List.not_mem_nil
  | cons first keys ih =>
    apply ih
    by_cases hkey : key = first
    · left
      rw [hkey]
      exact getKey_delete_self
    · refine h.imp (fun hnone => ?_) fun hmem => (List.mem_cons.mp hmem).resolve_left hkey
      show getKey clock key (Function.update store first none) = none
      rw [getKey_update_of_ne hkey]
      exact hnone

variable (m : Classes Bar Fundamentals Quote EdgarFundamentals)
  {s : State String String ι (Answer Bar Fundamentals Quote EdgarFundamentals)}

/-- No call is between its lookup and its write for a request. -/
def NotInFlight (s : State String String ι (Answer Bar Fundamentals Quote EdgarFundamentals))
    (r : DataRequest) : Prop :=
  (∀ i began, s.calls i ≠ .fetch r began) ∧ ∀ i v began ended, s.calls i ≠ .store ⟨r, v, began, ended⟩

theorem quiet_of_invalidate {provider symbol : String} (hprovider : Plain provider) (hsymbol : Plain symbol)
    {keys : List String} (hscan : IsScan provider symbol keys s.clock s.store) {r : DataRequest}
    (hr : r.provider = provider ∧ r.symbol = symbol) (hflight : NotInFlight s r) :
    Quiet (policy m) (invalidated keys s) r := by
  obtain ⟨rfl, rfl⟩ := hr
  have hmatch : scanMatches (pattern r.provider r.symbol) r.cacheKey :=
    (matches_plain_iff hprovider hsymbol).mpr (keyOf_cacheKey r).hasForm
  refine ⟨getKey_foldl_delete keys ?_, hflight.1, hflight.2⟩
  by_cases hnone : getKey s.clock r.cacheKey s.store = none
  · exact .inl hnone
  · exact .inr (hscan _ hnone hmatch)

variable [DecidableEq ι]

/-- The deletions are steps. -/
theorem run_invalidated (keys : List String)
    (s : State String String ι (Answer Bar Fundamentals Quote EdgarFundamentals)) :
    Run (fun s l t => State.step (policy m) s l = some t) (Unreadable (policy m)) s
      (invalidated keys s) := by
  induction keys generalizing s with
  | nil => exact .refl
  | cons key keys ih =>
    have hstep : State.step (policy m) s (.delete key) =
        some { s with store := ExpiringKeys.delete key s.store } := rfl
    exact (Run.tail (.delete key) .refl trivial hstep).trans (ih _)

/-- In every interleaving of calls of the providers, deletions, failures and time, where what others put
    under the keys cannot be read: a call returns what was fetched for its own request, just then or
    within the time to live of what it was stored as; and after `invalidate_symbol` only what was
    fetched since, for the requests of the symbol of which none was being fetched. -/
theorem providers_served (clock : ℤ)
    {s t : State String String ι (Answer Bar Fundamentals Quote EdgarFundamentals)}
    (hs : Run (fun s l t => State.step (policy m) s l = some t) (Unreadable (policy m)) (initial clock) s)
    {provider symbol : String} (hprovider : Plain provider) (hsymbol : Plain symbol)
    {keys : List String} (hscan : IsScan provider symbol keys s.clock s.store)
    (ht : Run (fun s l t => State.step (policy m) s l = some t) (Unreadable (policy m))
      (invalidated keys s) t) :
    (∀ i r v time, t.calls i = .returned r v time → time ≤ t.clock ∧ t.Served (policy m) r v time) ∧
      ∀ r, r.provider = provider ∧ r.symbol = symbol → NotInFlight s r → ∀ i v time,
        t.calls i = .returned r v time →
          s.calls i = .returned r v time ∨ FetchedSince s.clock t r v := by
  obtain ⟨hserved, hsince⟩ := served_of_run (policy m) clock (hs.trans (run_invalidated m keys s)) ht
  exact ⟨hserved, fun r hr hflight =>
    hsince r (quiet_of_invalidate m hprovider hsymbol hscan hr hflight)⟩

end Runs

theorem count_brace_intercalate (ms : List Unit) :
    (String.intercalate "," (ms.map fun _ => "\x7b\x7d")).toList.count '\x7b' = ms.length := by
  induction ms with
  | nil => rfl
  | cons m ms ih =>
    cases ms with
    | nil => simp [String.intercalate_singleton]
    | cons m' ms =>
      simp only [List.map_cons] at ih ⊢
      rw [String.intercalate_cons_cons]
      simp only [String.toList_append, List.count_append, ih]
      simp
      omega

/-- A model without fields. -/
def noFields : Pydantic Unit where
  modelDumpJson _ := "\x7b\x7d"
  modelValidateJson raw := if raw = "\x7b\x7d" then some () else none
  validateList raw :=
    let models := List.replicate (raw.toList.count '\x7b') ()
    if raw = "[" ++ String.intercalate "," (models.map fun _ => "\x7b\x7d") ++ "]" then some models else
      none
  validate_dump _ := rfl
  validateList_dump ms := by
    have hcount : ("[" ++ String.intercalate "," (ms.map fun _ => "\x7b\x7d") ++ "]").toList.count '\x7b' =
        ms.length := by
      simp only [String.toList_append, List.count_append, count_brace_intercalate]
      simp
    have hms : List.replicate ms.length () = ms := (List.eq_replicate_of_mem fun _ _ => rfl).symm
    simp only [hcount, hms, if_true]

abbrev NoFields := Answer Unit Unit Unit Unit

def noClasses : Classes Unit Unit Unit Unit := ⟨noFields, noFields, noFields, noFields⟩

/-- The upstream knows quotes. -/
def onlyQuotes : (r : DataRequest) → Option (NoFields r)
  | .quote _ => some ()
  | _ => none

/-- A quote that is fetched and cached, and found half a minute later. -/
def quoteTwice : List (Label String String (Fin 3) NoFields) :=
  [.start 0 (.quote "AAPL"), .read 0, .answer 0 onlyQuotes, .write 0, .wait 30000000,
    .start 1 (.quote "AAPL"),
    .read 1]

/-- And fetched again when it has been invalidated. -/
def quoteAgain : List (Label String String (Fin 3) NoFields) :=
  [.start 2 (.quote "AAPL"), .read 2, .answer 2 onlyQuotes, .write 2]

theorem providers_served_sample : ∃ s t : State String String (Fin 3) NoFields,
    quoteTwice.foldlM (fun s a => State.step (policy noClasses) s a) (initial 0) = some s ∧
    quoteAgain.foldlM (fun s a => State.step (policy noClasses) s a)
      (invalidated ["data:yahoo:quote:AAPL"] s) = some t ∧
    (∀ i r v time, t.calls i = .returned r v time → time ≤ t.clock ∧ t.Served (policy noClasses) r v time) ∧
      ∀ r, r.provider = "yahoo" ∧ r.symbol = "AAPL" → NotInFlight s r → ∀ i v time,
        t.calls i = .returned r v time →
          s.calls i = .returned r v time ∨ FetchedSince s.clock t r v := by
  obtain ⟨t, ht⟩ : ∃ t,
    (quoteTwice.foldlM (fun s a => State.step (policy noClasses) s a) (initial 0)).bind (fun s =>
      quoteAgain.foldlM (fun s a => State.step (policy noClasses) s a)
        (invalidated ["data:yahoo:quote:AAPL"] s)) = some t := ⟨_, rfl⟩
  obtain ⟨s, hs, ht⟩ := Option.bind_eq_some_iff.mp ht
  have hstore : s.store = setEx 0 "data:yahoo:quote:AAPL" "\x7b\x7d" (seconds 60) fun _ => none :=
    (Option.some.inj (congrArg (Option.map State.store) hs)).symm
  have hscan : IsScan "yahoo" "AAPL" ["data:yahoo:quote:AAPL"] s.clock s.store := by
    intro key hkey _
    rw [hstore] at hkey
    by_contra hmem
    rw [setEx, getKey_update_of_ne (by simpa using hmem)] at hkey
    exact hkey rfl
  have hplain : Plain "yahoo" ∧ Plain "AAPL" := by
    unfold Plain
    decide +kernel
  exact ⟨s, t, hs, ht, providers_served noClasses 0 (run_of_foldlM _ (by simp [quoteTwice]) hs)
    hplain.1 hplain.2 hscan (run_of_foldlM _ (by simp [quoteAgain]) ht)⟩

end Nivara.MarketData
