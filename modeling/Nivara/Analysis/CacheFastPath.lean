import Nivara.Analysis.IndicatorCache
import Nivara.Analysis.TechnicalArithmetic
import Nivara.Common.FlatJson
import Nivara.Common.Redis

/-!
# The fast path of the indicator cache

`analyze_with_cache` (`analysis/technical.py`, lines 421–549) with the texts of its entries, on the
keys of Redis. The commands run at times of their own.

* The arithmetic and the texts of doubles are parameters.
* The keys hold what `cache_indicators` has written: `value` and `raw` are a double or null.

Results:

* `deserialize_serialize`: an entry is read back as it was written.
* `cacheIndicators_written`, `cacheIndicators_other`: which keys a run writes, and what stands there.
* `fastPath`: after the writes of a run with all six indicators the analysis is assembled as it was,
  and those of any other run alone are not enough to assemble one.
-/

namespace Nivara.Analysis.Technical

open Redis FlatJson

variable {F Frame : Type}

/-! ## Model -/

/-- `_cache_key`. -/
def cacheKey (instrumentId indicator : String) : String := "tech:" ++ instrumentId ++ ":" ++ indicator

def valueName : List Char := ['v', 'a', 'l', 'u', 'e']

def rawName : List Char := ['r', 'a', 'w']

def insufficientDataName : List Char :=
  ['i', 'n', 's', 'u', 'f', 'f', 'i', 'c', 'i', 'e', 'n', 't', '_', 'd', 'a', 't', 'a']

/-- A number or `None`. -/
def scalarOf : Option F → Scalar F
  | none => .null
  | some x => .float x

section Model

variable (d : Doubles F)

/-- The dictionary of an entry. -/
def members (r : IndicatorResult F) : List (List Char × Scalar F) :=
  [(valueName, scalarOf r.value), (rawName, scalarOf r.raw),
    (insufficientDataName, .bool r.insufficientData)]

/-- `_serialize_indicator`. -/
def serializeIndicator (r : IndicatorResult F) : String := String.ofList (dumps d (members r))

/-- `data[name]`; of two members with the name, `json.loads` keeps the last. -/
def item (data : List (List Char × Scalar F)) (name : List Char) : Option (Scalar F) :=
  data.reverse.lookup name

/-- A number or `None`, from a scalar. -/
def ofScalar : Scalar F → Option (Option F)
  | .null => some none
  | .float x => some (some x)
  | .bool _ => none

/-- `bool(v)`. -/
def truthy : Scalar F → Bool
  | .null => false
  | .bool b => b
  | .float x => d.bool x

/-- `_deserialize_indicator`; `none` for a corrupt entry. -/
def deserializeIndicator (payload : String) : Option (IndicatorResult F) := do
  let data ← loads d payload.toList
  let value ← ofScalar (← item data valueName)
  let raw ← ofScalar (← item data rawName)
  let flag ← item data insufficientDataName
  return ⟨value, raw, truthy d flag⟩

/-- What `redis.get` returns of a value. -/
def payloadOf : Value → String
  | .text payload => payload
  | .integer n => toString n

/-- `cache_indicators`, for the indicators it has yet to write. -/
def cacheIndicators (now : Indicator → ℤ) (instrumentId : String) (analysis : TechnicalAnalysis F)
    (ttlSeconds : ℤ) : List Indicator → Keys → Except ResponseError Keys
  | [], redis => .ok redis
  | name :: names, redis =>
    let result := analysis.result name
    if result.insufficientData then cacheIndicators now instrumentId analysis ttlSeconds names redis
    else do
      let redis ← setEx (now name) (cacheKey instrumentId name.name) (.text (serializeIndicator d result))
        ttlSeconds redis
      cacheIndicators now instrumentId analysis ttlSeconds names redis

/-- `load_cached_indicators`. -/
def loadCachedIndicators (now : Indicator → ℤ) (instrumentId : String) (redis : Keys) :
    List (Indicator × IndicatorResult F) :=
  indicators.filterMap fun name =>
    (find (now name) (cacheKey instrumentId name.name) redis).bind fun e =>
      (deserializeIndicator d (payloadOf e.value)).map fun result => (name, result)

variable (ar : Arithmetic F) (signals : Signals Frame F)

/-- `_assemble_from_cache`, for all six indicators. -/
def assembleFromCache (cached : List (Indicator × IndicatorResult F)) (ohlcv : Frame) :
    TechnicalAnalysis F :=
  let flags := flagged cached
  let composite := compositeOf ar cached
  { result := fun k => (cached.lookup k).getD insufficient
    compositeScore := composite
    action := composite.map (actionFor ar)
    barsAnalyzed := signals.bars ohlcv
    insufficientDataFlags := flags }

/-- `analyze_with_cache`, which reads the keys at `getAt` and writes them at `setAt`. -/
def analyzeWithCache (getAt setAt : Indicator → ℤ) (redis : Keys) (instrumentId : String) (ohlcv : Frame)
    (ttlSeconds : ℤ) : Except ResponseError (TechnicalAnalysis F × Keys) :=
  let cached := loadCachedIndicators d getAt instrumentId redis
  if cached.length = indicators.length then .ok (assembleFromCache ar signals cached ohlcv, redis)
  else do
    let analysis := analyzeTechnical ar signals ohlcv
    let redis ← cacheIndicators d setAt instrumentId analysis ttlSeconds indicators redis
    return (analysis, redis)

end Model

/-! ## What is to hold -/

/-- The six indicators of the frame have enough data. -/
def Sufficient (ar : Arithmetic F) (signals : Signals Frame F) (frame : Frame) : Prop :=
  ∀ k, ((analyzeTechnical ar signals frame).result k).insufficientData = false

/-- A run with all six indicators is assembled as it was, on the same frame and before its keys
    expire, whatever was cached before. Another run does not write all six keys. -/
structure FastPath (d : Doubles F) (ar : Arithmetic F) (signals : Signals Frame F) : Prop where
  hit : ∀ (frame : Frame) (instrumentId : String) (ttlSeconds : ℤ) (setAt getAt setAt' : Indicator → ℤ)
    (redis : Keys), Sufficient ar signals frame →
    (∀ k, setAt k ≤ getAt k ∧ getAt k < setAt k + ttlSeconds * 1000) →
    ∃ redis', cacheIndicators d setAt instrumentId (analyzeTechnical ar signals frame) ttlSeconds indicators
        redis = .ok redis' ∧
      analyzeWithCache d ar signals getAt setAt' redis' instrumentId frame ttlSeconds =
        .ok (analyzeTechnical ar signals frame, redis')
  miss : ∀ (frame : Frame) (instrumentId : String) (ttlSeconds : ℤ) (setAt getAt : Indicator → ℤ)
    (redis redis' : Keys), ¬ Sufficient ar signals frame →
    (∀ k : Indicator, find (getAt k) (cacheKey instrumentId k.name) redis = none) →
    cacheIndicators d setAt instrumentId (analyzeTechnical ar signals frame) ttlSeconds indicators redis =
      .ok redis' →
    (loadCachedIndicators d getAt instrumentId redis').length ≠ indicators.length

/-- No analysis holds a `NaN`. -/
structure Documented (d : Doubles F) (ar : Arithmetic F) : Prop where
  doubles : d.Documented
  kind_ne_nan : ∀ x, ar.isNaN x = false → d.kind x ≠ .nan

/-! ## An entry -/

section

variable {d : Doubles F} {ar : Arithmetic F} {signals : Signals Frame F}

theorem isPlain_names : IsPlain valueName ∧ IsPlain rawName ∧ IsPlain insufficientDataName := by
  refine ⟨?_, ?_, ?_⟩ <;> simp [IsPlain, valueName, rawName, insufficientDataName]

theorem ofScalar_scalarOf (x : Option F) : ofScalar (scalarOf x) = some x := by
  cases x <;> rfl

theorem item_members (r : IndicatorResult F) :
    item (members r) valueName = some (scalarOf r.value) ∧
      item (members r) rawName = some (scalarOf r.raw) ∧
      item (members r) insufficientDataName = some (.bool r.insufficientData) := by
  refine ⟨?_, ?_, ?_⟩ <;> simp [item, members, List.lookup, valueName, rawName, insufficientDataName]

/-- An entry is read back as it was written. -/
theorem deserialize_serialize (hd : d.Documented) {r : IndicatorResult F}
    (hread : ∀ x, r.value = some x ∨ r.raw = some x → d.kind x ≠ .nan) :
    deserializeIndicator d (serializeIndicator d r) = some r := by
  have hscalar : ∀ x, r.value = x ∨ r.raw = x → (scalarOf x).IsRead d := by
    intro x hx
    cases x with
    | none => trivial
    | some x => exact hread x hx
  have hmembers : ∀ member ∈ members r, IsPlain member.1 ∧ member.2.IsRead d := by
    obtain ⟨hvalue, hraw, hflag⟩ := isPlain_names
    simp only [members, List.forall_mem_cons]
    exact ⟨⟨hvalue, hscalar _ (.inl rfl)⟩, ⟨hraw, hscalar _ (.inr rfl)⟩, ⟨hflag, trivial⟩,
      fun _ h => absurd h List.not_mem_nil⟩
  have hloads : loads d (serializeIndicator d r).toList = some (members r) := by
    rw [serializeIndicator, String.toList_ofList]
    exact loads_dumps hd (List.cons_ne_nil _ _) hmembers
  obtain ⟨hvalue, hraw, hflag⟩ := item_members r
  unfold deserializeIndicator
  simp only [hloads, hvalue, hraw, hflag, Option.bind_eq_bind, Option.bind_some, ofScalar_scalarOf]
  rfl

/-! ## The keys -/

theorem cacheKey_injective {instrumentId : String} {k k' : Indicator}
    (h : cacheKey instrumentId k.name = cacheKey instrumentId k'.name) : k = k' := by
  have hname : k.name = k'.name := by
    have hchars := congrArg String.toList h
    simp only [cacheKey, String.toList_append, List.append_cancel_left_eq] at hchars
    exact String.toList_injective hchars
  cases k <;> cases k' <;> first | rfl | exact absurd hname (by decide)

variable {setAt getAt : Indicator → ℤ} {instrumentId : String} {analysis : TechnicalAnalysis F}
  {ttlSeconds : ℤ} {redis redis' : Keys}

/-- A run leaves a key as it is that it does not write. -/
theorem cacheIndicators_other {names : List Indicator}
    (h : cacheIndicators d setAt instrumentId analysis ttlSeconds names redis = .ok redis') {key : String}
    (hkey : ∀ k ∈ names, (analysis.result k).insufficientData = false →
      key ≠ cacheKey instrumentId k.name) :
    redis' key = redis key := by
  induction names generalizing redis with
  | nil =>
    cases h
    rfl
  | cons name names ih =>
    have hrest := fun k hk => hkey k (List.mem_cons_of_mem _ hk)
    unfold cacheIndicators at h
    dsimp only at h
    split_ifs at h with hflag
    · exact ih h hrest
    · unfold setEx at h
      split_ifs at h with httl
      · cases h
      · rw [ih h hrest]
        exact setTtl_of_ne (hkey name List.mem_cons_self (Bool.eq_false_iff.mpr hflag)) ..

/-- What a run with a positive time to live writes. -/
theorem cacheIndicators_written {names : List Indicator} (hnodup : names.Nodup) (httl : 0 < ttlSeconds)
    (redis : Keys) :
    ∃ redis', cacheIndicators d setAt instrumentId analysis ttlSeconds names redis = .ok redis' ∧
      ∀ k ∈ names, (analysis.result k).insufficientData = false →
        redis' (cacheKey instrumentId k.name) =
          some ⟨.text (serializeIndicator d (analysis.result k)), some (setAt k + ttlSeconds * 1000)⟩ := by
  induction names generalizing redis with
  | nil => exact ⟨redis, rfl, fun _ h => absurd h List.not_mem_nil⟩
  | cons name names ih =>
    obtain ⟨hname, hnodup⟩ := List.nodup_cons.mp hnodup
    unfold cacheIndicators
    dsimp only
    split_ifs with hflag
    · obtain ⟨redis', hok, hwritten⟩ := ih hnodup redis
      refine ⟨redis', hok, fun k hk hfull => ?_⟩
      rcases List.mem_cons.mp hk with rfl | hk
      · rw [hflag] at hfull
        cases hfull
      · exact hwritten k hk hfull
    · let redis₁ := setTtl (setAt name) (cacheKey instrumentId name.name)
        (.text (serializeIndicator d (analysis.result name))) ttlSeconds redis
      obtain ⟨redis', hok, hwritten⟩ := ih hnodup redis₁
      have hset : setEx (setAt name) (cacheKey instrumentId name.name)
          (.text (serializeIndicator d (analysis.result name))) ttlSeconds redis = .ok redis₁ :=
        if_neg (not_le.mpr httl)
      refine ⟨redis', by rw [hset]; exact hok, fun k hk hfull => ?_⟩
      rcases List.mem_cons.mp hk with rfl | hk
      · -- the writes after it are of other keys
        have hother : redis' (cacheKey instrumentId k.name) = redis₁ (cacheKey instrumentId k.name) := by
          refine cacheIndicators_other hok fun k' hk' _ heq => hname ?_
          rwa [cacheKey_injective heq]
        rw [hother]
        show Function.update redis _ _ _ = _
        rw [Function.update_self, if_neg (not_le.mpr httl)]
      · exact hwritten k hk hfull

/-! ## The two paths -/

variable {frame : Frame}

/-- An indicator with enough data has a value and a reading that are numbers. -/
theorem calcIndicator_sufficient {k : Indicator}
    (h : (calcIndicator ar signals frame k).insufficientData = false) :
    ∀ x, (calcIndicator ar signals frame k).value = some x ∨
        (calcIndicator ar signals frame k).raw = some x → ar.isNaN x = false := by
  intro x hx
  unfold calcIndicator at h hx
  split_ifs at h hx with hbars
  · cases h
  · rcases hsignal : signals.signal frame k with _ | ⟨signal, raw⟩
    · rw [hsignal] at h
      cases h
    · rw [hsignal] at h hx
      dsimp only at h hx
      split_ifs at h hx with hnan
      · cases h
      · obtain ⟨hvalue, hraw⟩ := Bool.or_eq_false_iff.mp (Bool.eq_false_iff.mpr hnan)
        rcases hx with hx | hx
        · rwa [← Option.some.inj hx]
        · rwa [← Option.some.inj hx]

theorem lookup_map (f : Indicator → IndicatorResult F) (k : Indicator) :
    (indicators.map fun k => (k, f k)).lookup k = some (f k) := by
  cases k <;> rfl

/-- With all six indicators, the analysis is what would be assembled of its results. -/
theorem analyzeTechnical_of_sufficient (h : Sufficient ar signals frame) :
    analyzeTechnical ar signals frame = assembleFromCache ar signals (results ar signals frame) frame ∧
      ∀ k, (analyzeTechnical ar signals frame).result k = calcIndicator ar signals frame k := by
  by_cases hbars : signals.bars frame < minBarsForAnyAnalysis
  · have hnone := h .rsi
    rw [analyzeTechnical, if_pos hbars] at hnone
    cases hnone
  · have hresult : ∀ k, ((results ar signals frame).lookup k).getD insufficient =
        calcIndicator ar signals frame k := fun k => congrArg (Option.getD · _) (lookup_map _ k)
    constructor
    · rw [analyzeTechnical, if_neg hbars, assembleFromCache, funext hresult]
    · intro k
      rw [analyzeTechnical, if_neg hbars]

/-- What is found of a key. -/
theorem load_eq_results (hdoc : Documented d ar) (h : Sufficient ar signals frame)
    (htimes : ∀ k, getAt k < setAt k + ttlSeconds * 1000)
    (hwritten : ∀ k : Indicator, redis' (cacheKey instrumentId k.name) =
      some ⟨.text (serializeIndicator d ((analyzeTechnical ar signals frame).result k)),
        some (setAt k + ttlSeconds * 1000)⟩) :
    loadCachedIndicators d getAt instrumentId redis' = results ar signals frame := by
  obtain ⟨-, hresult⟩ := analyzeTechnical_of_sufficient h
  refine List.filterMap_eq_map_iff_forall_eq_some.mpr fun k _ => ?_
  have hcalc : (calcIndicator ar signals frame k).insufficientData = false := hresult k ▸ h k
  have hread := deserialize_serialize hdoc.doubles (r := calcIndicator ar signals frame k) fun x hx =>
    hdoc.kind_ne_nan x (calcIndicator_sufficient hcalc x hx)
  rw [find_of_lt (hwritten k) (htimes k), hresult k, Option.bind_some]
  show Option.map _ (deserializeIndicator d (serializeIndicator d (calcIndicator ar signals frame k))) = _
  rw [hread]
  rfl

/-- The fast path, in every arithmetic of doubles that are read back from their texts. -/
theorem fastPath (d : Doubles F) (ar : Arithmetic F) (signals : Signals Frame F) (hdoc : Documented d ar) :
    FastPath d ar signals where
  hit frame instrumentId ttlSeconds setAt getAt setAt' redis h htimes := by
    have httl : 0 < ttlSeconds := by
      have hrsi := htimes .rsi
      omega
    have hdistinct : indicators.Nodup := by decide
    obtain ⟨redis', hok, hwritten⟩ := cacheIndicators_written hdistinct httl redis
    have hload := load_eq_results hdoc h (fun k => (htimes k).2) fun k =>
      hwritten k (mem_indicators k) (h k)
    refine ⟨redis', hok, ?_⟩
    unfold analyzeWithCache
    rw [hload, (analyzeTechnical_of_sufficient h).1]
    exact if_pos (List.length_map ..)
  miss frame instrumentId ttlSeconds setAt getAt redis redis' h hnone hok hfull := by
    obtain ⟨k, hk⟩ := not_forall.mp h
    have hother : redis' (cacheKey instrumentId k.name) = redis (cacheKey instrumentId k.name) := by
      refine cacheIndicators_other hok fun k' _ hk' heq => hk ?_
      rwa [cacheKey_injective heq]
    have hmissing : find (getAt k) (cacheKey instrumentId k.name) redis' = none := by
      unfold find
      rw [hother]
      exact hnone k
    have hsome := List.filterMap_length_eq_length.mp hfull k (mem_indicators k)
    rw [hmissing] at hsome
    cases hsome

end

/-! ## A frame without a signal -/

/-- The doubles that the analysis of a neutral frame comes across, and `NaN`. -/
def sampleNumbers : List (ℚ × List Char) :=
  [(0, ['0', '.', '0']), (1, ['1', '.', '0']), (-1, ['-', '1', '.', '0']), (1 / 10, ['0', '.', '1']),
    (3 / 20, ['0', '.', '1', '5']), (1 / 5, ['0', '.', '2']), (1 / 4, ['0', '.', '2', '5']),
    (3 / 5, ['0', '.', '6']), (-(1 / 5), ['-', '0', '.', '2']), (-(3 / 5), ['-', '0', '.', '6'])]

/-- A place in the list; the last one is `NaN`. -/
abbrev SampleDouble := Fin 11

def SampleDouble.number (x : SampleDouble) : ℚ := (sampleNumbers[x.val]?.map Prod.fst).getD 0

/-- The double of a number. -/
def SampleDouble.of (q : ℚ) : SampleDouble := Fin.ofNat 11 (sampleNumbers.findIdx fun p => p.1 = q)

def sampleDoubles : Doubles SampleDouble where
  kind x := if x = 10 then .nan else .finite
  repr x := (sampleNumbers[x.val]?.map Prod.snd).getD []
  float text := if text ∈ sampleNumbers.map Prod.snd then
      some (Fin.ofNat 11 (sampleNumbers.findIdx fun p => p.2 = text)) else none
  nan := 10
  infinity _ := 10
  bool x := x ≠ 0

def sampleArithmetic : Arithmetic SampleDouble where
  ofRat := SampleDouble.of
  mul a b := SampleDouble.of (a.number * b.number)
  div a b := SampleDouble.of (a.number / b.number)
  sum start values := SampleDouble.of (start.number + (values.map SampleDouble.number).sum)
  lt a b := a.number < b.number
  isNaN x := x = 10

theorem sampleDoubles_documented : Documented sampleDoubles sampleArithmetic where
  doubles :=
    { eq_infinity := by decide +kernel
      repr_literal := by
        intro x _
        fin_cases x <;> simp [sampleDoubles, sampleNumbers, literalChars]
      float_repr := by decide +kernel }
  kind_ne_nan := by decide +kernel

/-- A year of bars, with all six signals at zero. -/
def neutralSignals : Signals Unit SampleDouble := ⟨fun _ => 252, fun _ _ => some (0, 0)⟩

example : (analyzeTechnical sampleArithmetic neutralSignals ()).compositeScore = some 0 ∧
    (analyzeTechnical sampleArithmetic neutralSignals ()).action = some .hold := by decide +kernel

theorem fastPath_sample : FastPath sampleDoubles sampleArithmetic neutralSignals :=
  fastPath sampleDoubles sampleArithmetic neutralSignals sampleDoubles_documented

end Nivara.Analysis.Technical
