import Nivara.Common.Binary64
import Nivara.Common.Text

/-!
# Scores that are kept

`analysis/finbert.py`: the scores of single texts and of batches (lines 118–234), with what they write to
the cache.

* The scores of the labels are finite doubles, read as rationals. A label is in lower case.
* `digest` is the SHA-256 of a text, `pipeline` the classifier, which is loaded.
* A payload of the cache is what `f"{scalar:.6f}"` writes, or another text with the number that `float`
  reads out of it, if there is one.
* A call takes place at one time. Before it, any of the keys may have expired.

Results:

* `scoreBatch_eq`: a batch gives each text what is known of it, or its own score.
* `scoreBatch_close`: which is close to its score without a cache.
* `threeOver128_is_further`: but not as close as half a unit of the sixth decimal.
-/

namespace Nivara.Analysis.FinBertScores

open Binary64 Decimal

/-! ## Model -/

/-- A dict of a prediction; there is no number when `float` raises. -/
structure LabelScore where
  label : String
  score : Option ℚ
  deriving DecidableEq, Repr

/-- What the pipeline says of a text: a list, with its dicts, or a single dict. -/
inductive PerItem
  | list (entries : List (Option LabelScore))
  | dict (entry : LabelScore)
  | other
  deriving DecidableEq, Repr

def PerItem.toDict : PerItem → Option LabelScore
  | dict entry => some entry
  | _ => none

/-- `_flatten_prediction`. -/
def flattenPrediction : List PerItem → List LabelScore
  | [] => []
  | .list entries :: _ => entries.reduceOption
  | .dict entry :: rest => (.dict entry :: rest).filterMap PerItem.toDict
  | .other :: _ => []

/-- The scores of the labels that count; the last one of a label stays. -/
def posNeg : List LabelScore → ℚ × ℚ → ℚ × ℚ
  | [], s => s
  | entry :: labels, (pos, neg) =>
    let score := entry.score.getD 0
    posNeg labels (if entry.label = "positive" then (score, neg)
      else if entry.label = "negative" then (pos, score) else (pos, neg))

/-- `_scalar_from_labels`. -/
def scalarFromLabels (labels : List LabelScore) : ℚ :=
  let (pos, neg) := posNeg labels (0, 0)
  max (-1) (min 1 (toDouble (pos - neg)))

/-- A payload of the cache. -/
inductive Payload
  | fixed (negative : Bool) (millionths : ℕ)
  | other (number : Option ℚ)
  deriving DecidableEq, Repr

/-- `f"{scalar:.6f}"`. -/
def sixDecimals (scalar : ℚ) : Payload :=
  .fixed (scalar < 0) (roundHalfEven (|scalar| * 10 ^ 6)).toNat

/-- `float(cached_raw)`. -/
def Payload.float : Payload → Option ℚ
  | fixed negative millionths =>
    some (toDouble (if negative then -((millionths : ℚ) / 10 ^ 6) else millionths / 10 ^ 6))
  | other number => number

abbrev Cache := String → Option Payload

section Model

variable (digest : String → String) (pipeline : List String → List PerItem)

/-- `_cache_key`. -/
def cacheKey (text : String) : String := "analysis:finbert:sentiment:" ++ digest text

/-- The number that is cached for a text. -/
def cached (redis : Option Cache) (text : String) : Option ℚ :=
  redis.bind fun cache => (cache (cacheKey digest text)).bind Payload.float

/-- `redis.set` of a score. -/
def keep (redis : Option Cache) (text : String) (scalar : ℚ) : Option Cache :=
  redis.map fun cache => Function.update cache (cacheKey digest text) (some (sixDecimals scalar))

/-- `score_text`, with the cache afterwards. -/
def scoreText (redis : Option Cache) (text : String) : ℚ × Option Cache :=
  let text := strip text
  if text = "" then (0, redis)
  else
    match cached digest redis text with
    | some x => (x, redis)
    | none =>
      let scalar := scalarFromLabels (flattenPrediction (pipeline [text]))
      (scalar, keep digest redis text scalar)

/-- The first pass of `score_batch`: the results that are known, and the texts that are left. -/
def firstPass (redis : Option Cache) :
    List (String × ℕ) → List (Option ℚ) × List (ℕ × String) → List (Option ℚ) × List (ℕ × String)
  | [], s => s
  | (raw, idx) :: texts, (results, toScore) =>
    let text := strip raw
    if text = "" then firstPass redis texts (results.set idx (some 0), toScore)
    else
      match cached digest redis text with
      | some x => firstPass redis texts (results.set idx (some x), toScore)
      | none => firstPass redis texts (results, toScore ++ [(idx, text)])

/-- The loop over the predictions. -/
def secondPass : List ((ℕ × String) × PerItem) → List (Option ℚ) × Option Cache →
    List (Option ℚ) × Option Cache
  | [], s => s
  | ((idx, text), perItem) :: rest, (results, redis) =>
    let scalar := scalarFromLabels (flattenPrediction [perItem])
    secondPass rest (results.set idx (some scalar), keep digest redis text scalar)

/-- What `zip(…, strict=True)` raises. -/
inductive BatchError
  | valueError
  deriving DecidableEq, Repr

/-- `score_batch`, with the cache afterwards. -/
def scoreBatch (redis : Option Cache) (texts : List String) :
    Except BatchError (List ℚ × Option Cache) :=
  if texts = [] then .ok ([], redis)
  else
    let (results, toScore) := firstPass digest redis texts.zipIdx (texts.map fun _ => none, [])
    if toScore = [] then .ok (results.map (·.getD 0), redis)
    else
      let prediction := pipeline (toScore.map Prod.snd)
      if prediction.length ≠ toScore.length then .error .valueError
      else
        let (results, redis) := secondPass digest (toScore.zip prediction) (results, redis)
        .ok (results.map (·.getD 0), redis)

/-! ## Properties -/

/-- The caches that earlier calls have built, from texts of a set. -/
inductive Built (played : Set String) : Cache → Prop
  | empty : Built played fun _ => none
  | scoreText {cache cache' : Cache} {text : String} {scalar : ℚ} (hbuilt : Built played cache)
      (hplayed : strip text ∈ played)
      (hcall : scoreText digest pipeline (some cache) text = (scalar, some cache')) : Built played cache'
  | scoreBatch {cache cache' : Cache} {texts : List String} {scores : List ℚ} (hbuilt : Built played cache)
      (hplayed : ∀ text ∈ texts, strip text ∈ played)
      (hcall : scoreBatch digest pipeline (some cache) texts = .ok (scores, some cache')) :
      Built played cache'
  | expire {cache cache' : Cache} (hbuilt : Built played cache)
      (hexpired : ∀ key, cache' key = cache key ∨ cache' key = none) : Built played cache'

/-- A batch has a score for each text, in their order, that is close to the score of the text alone without
    a cache. -/
def Close (redis : Option Cache) (texts : List String) (bound : ℚ) : Prop :=
  ∃ scores redis', scoreBatch digest pipeline redis texts = .ok (scores, redis') ∧
    scores.length = texts.length ∧
    ∀ (i : ℕ) (text : String) (score : ℚ), texts[i]? = some text → scores[i]? = some score →
      |score - (scoreText digest pipeline none text).1| ≤ bound

end Model

/-! ## A batch -/

section Batch

variable {digest : String → String} {pipeline : List String → List PerItem} {predict : String → PerItem}
  {redis redis' : Option Cache} {played : Set String} {cache : Cache}

/-- The score of a text that is not looked up. -/
def own (predict : String → PerItem) (text : String) : ℚ :=
  scalarFromLabels (flattenPrediction [predict text])

/-- What is known of a text before the pipeline runs. -/
def known (digest : String → String) (redis : Option Cache) (text : String) : Option ℚ :=
  if strip text = "" then some 0 else cached digest redis (strip text)

/-- The texts that are left to the pipeline, with their places. -/
def left (digest : String → String) (redis : Option Cache) : ℕ → List String → List (ℕ × String)
  | _, [] => []
  | idx, text :: texts =>
    match known digest redis text with
    | some _ => left digest redis (idx + 1) texts
    | none => (idx, strip text) :: left digest redis (idx + 1) texts

/-- The score of a text in a batch. -/
def value (digest : String → String) (predict : String → PerItem) (redis : Option Cache) (text : String) :
    ℚ :=
  (known digest redis text).getD (own predict (strip text))

theorem set_after {α : Type*} (done : List α) (old new : α) (rest : List α) :
    (done ++ old :: rest).set done.length new = done ++ [new] ++ rest := by
  rw [List.set_append_right _ _ le_rfl, Nat.sub_self, List.set_cons_zero, List.append_assoc,
    List.singleton_append]

/-- The first pass writes down what is known, and leaves the other texts with their places. -/
theorem firstPass_eq (digest : String → String) (redis : Option Cache) (texts : List String)
    (done : List (Option ℚ)) (toScore : List (ℕ × String)) :
    firstPass digest redis (texts.zipIdx done.length) (done ++ texts.map fun _ => none, toScore) =
      (done ++ texts.map (known digest redis), toScore ++ left digest redis done.length texts) := by
  induction texts generalizing done toScore with
  | nil => simp [firstPass, left]
  | cons raw texts ih =>
    have hstep : ∀ (x : Option ℚ) (toScore : List (ℕ × String)),
        firstPass digest redis (texts.zipIdx (done.length + 1))
            (done ++ [x] ++ texts.map fun _ => none, toScore) =
          (done ++ [x] ++ texts.map (known digest redis),
            toScore ++ left digest redis (done.length + 1) texts) := by
      intro x toScore
      have hrest := ih (done ++ [x]) toScore
      rw [List.length_append, List.length_singleton] at hrest
      exact hrest
    rw [List.zipIdx_cons, List.map_cons, List.map_cons, firstPass, left]
    unfold known at hstep ⊢
    split_ifs with hempty
    · rw [set_after, hstep]
      simp
    · cases hcached : cached digest redis (strip raw) with
      | some x =>
        simp only [set_after, hstep]
        simp
      | none =>
        have hnone := hstep none (toScore ++ [(done.length, strip raw)])
        rw [List.append_assoc, List.singleton_append] at hnone
        simp only [hnone]
        simp

/-- What the second pass writes to the cache. -/
def writes (digest : String → String) (predict : String → PerItem) :
    List (ℕ × String) → Option Cache → Option Cache
  | [], redis => redis
  | (_, text) :: rest, redis => writes digest predict rest (keep digest redis text (own predict text))

/-- The second pass puts the scores of the pipeline into the free places. -/
theorem secondPass_eq (digest : String → String) (predict : String → PerItem) (redis : Option Cache)
    (texts : List String) (done : List (Option ℚ)) (redis' : Option Cache) :
    secondPass digest ((left digest redis done.length texts).zip
        (((left digest redis done.length texts).map Prod.snd).map predict))
        (done ++ texts.map (known digest redis), redis') =
      (done ++ texts.map fun text => some (value digest predict redis text),
        writes digest predict (left digest redis done.length texts) redis') := by
  induction texts generalizing done redis' with
  | nil =>
    rw [List.map_nil, List.map_nil, left, List.map_nil, List.map_nil, List.zip_nil_left, secondPass, writes]
  | cons raw texts ih =>
    have hstep := fun (x : Option ℚ) redis' => ih (done ++ [x]) redis'
    simp only [List.length_append, List.length_singleton] at hstep
    rw [List.map_cons, List.map_cons, left]
    cases hknown : known digest redis raw with
    | some x =>
      have hrest := hstep (some x) redis'
      rw [List.append_assoc, List.singleton_append, List.append_assoc, List.singleton_append] at hrest
      have hvalue : value digest predict redis raw = x := by
        unfold value
        rw [hknown, Option.getD_some]
      simp only [hrest, hvalue]
    | none =>
      have hvalue : value digest predict redis raw = own predict (strip raw) := by
        unfold value
        rw [hknown, Option.getD_none]
      simp only [List.map_cons, List.zip_cons_cons, secondPass, set_after, writes, hvalue]
      rw [show scalarFromLabels (flattenPrediction [predict (strip raw)]) = own predict (strip raw) from rfl,
        hstep, List.append_assoc, List.singleton_append]

/-- A batch gives each text what is known of it, or else its own score. -/
theorem scoreBatch_eq (hpipeline : ∀ batch, pipeline batch = batch.map predict) (texts : List String) :
    scoreBatch digest pipeline redis texts = .ok (texts.map (value digest predict redis),
      writes digest predict (left digest redis 0 texts) redis) := by
  have hfirst := firstPass_eq digest redis texts [] []
  have hsecond := secondPass_eq digest predict redis texts [] redis
  rw [List.length_nil, List.nil_append, List.nil_append] at hfirst hsecond
  have hresults : (texts.map fun text => some (value digest predict redis text)).map (·.getD 0) =
      texts.map (value digest predict redis) := by
    simp only [List.map_map, Function.comp_def, Option.getD_some]
  unfold scoreBatch
  split_ifs with hempty
  · subst hempty
    rfl
  rw [hfirst]
  dsimp only
  rw [List.nil_append]
  split_ifs with hleft hlength
  · rw [hleft] at hsecond ⊢
    have hsame := Prod.mk.inj hsecond
    rw [← hresults, ← hsame.1]
    rfl
  · exact absurd (by rw [hpipeline, List.length_map, List.length_map]) hlength
  · rw [hpipeline, hsecond, ← hresults]

end Batch

/-! ## The cache -/

section Cache

variable {digest : String → String} {pipeline : List String → List PerItem} {predict : String → PerItem}
  {played : Set String} {cache cache' : Cache} {text : String}

/-- A cache holds the scores of texts of the set, with six decimals. -/
def Written (digest : String → String) (predict : String → PerItem) (played : Set String)
    (cache : Cache) : Prop :=
  ∀ key payload, cache key = some payload →
    ∃ text ∈ played, key = cacheKey digest text ∧ payload = sixDecimals (own predict text)

theorem Written.keep (h : Written digest predict played cache) (htext : text ∈ played)
    (hkeep : keep digest (some cache) text (own predict text) = some cache') :
    Written digest predict played cache' := by
  obtain rfl := Option.some.inj hkeep
  intro key payload hpayload
  dsimp only at hpayload
  by_cases hkey : key = cacheKey digest text
  · subst hkey
    rw [Function.update_self] at hpayload
    exact ⟨text, htext, rfl, (Option.some.inj hpayload).symm⟩
  · rw [Function.update_of_ne hkey] at hpayload
    exact h key payload hpayload

theorem Written.writes {toScore : List (ℕ × String)} (h : Written digest predict played cache)
    (htexts : ∀ entry ∈ toScore, entry.2 ∈ played)
    (hwrites : writes digest predict toScore (some cache) = some cache') :
    Written digest predict played cache' := by
  induction toScore generalizing cache with
  | nil => exact Option.some.inj hwrites ▸ h
  | cons entry toScore ih =>
    exact ih (h.keep (htexts entry List.mem_cons_self) rfl)
      (fun entry hentry => htexts entry (List.mem_cons_of_mem _ hentry)) hwrites

theorem mem_left {redis : Option Cache} {idx : ℕ} {texts : List String} {entry : ℕ × String}
    (h : entry ∈ left digest redis idx texts) : ∃ text ∈ texts, entry.2 = strip text := by
  induction texts generalizing idx with
  | nil => cases h
  | cons text texts ih =>
    unfold left at h
    split at h
    · obtain ⟨text', hmem, heq⟩ := ih h
      exact ⟨text', List.mem_cons_of_mem _ hmem, heq⟩
    · rcases List.mem_cons.mp h with rfl | h
      · exact ⟨text, List.mem_cons_self, rfl⟩
      · obtain ⟨text', hmem, heq⟩ := ih h
        exact ⟨text', List.mem_cons_of_mem _ hmem, heq⟩

/-- The calls write nothing else to the cache. -/
theorem Built.written (hpipeline : ∀ batch, pipeline batch = batch.map predict)
    (h : Built digest pipeline played cache) : Written digest predict played cache := by
  induction h with
  | empty => exact fun key payload h => by cases h
  | @scoreText cache cache' text scalar hbuilt hplayed hcall ih =>
    unfold FinBertScores.scoreText at hcall
    dsimp only at hcall
    split_ifs at hcall
    · cases hcall
      exact ih
    · split at hcall
      · cases hcall
        exact ih
      · rw [hpipeline] at hcall
        exact ih.keep hplayed (Prod.mk.inj hcall).2
  | @scoreBatch cache cache' texts scores hbuilt hplayed hcall ih =>
    rw [scoreBatch_eq hpipeline] at hcall
    refine ih.writes (fun entry hentry => ?_) (Prod.mk.inj (Except.ok.inj hcall)).2
    obtain ⟨text, htext, heq⟩ := mem_left hentry
    exact heq ▸ hplayed text htext
  | @expire cache cache' hbuilt hexpired ih =>
    intro key payload hpayload
    rcases hexpired key with hsame | hgone
    · exact ih key payload (hsame ▸ hpayload)
    · rw [hgone] at hpayload
      cases hpayload

theorem abs_own_le (text : String) : |own predict text| ≤ 1 :=
  abs_le.mpr ⟨le_max_left _ _, max_le (by norm_num) (min_le_left _ _)⟩

/-- What is written with six decimals is half a unit of the last one away at most. -/
theorem exists_written {scalar : ℚ} (hscalar : |scalar| ≤ 1) :
    ∃ v, (sixDecimals scalar).float = some (toDouble v) ∧ |v| ≤ 1 ∧ |v - scalar| ≤ 5 / 10 ^ 7 := by
  have hscaled : 0 ≤ |scalar| * 10 ^ 6 ∧ |scalar| * 10 ^ 6 ≤ ((10 ^ 6 : ℤ) : ℚ) := by
    refine ⟨by positivity, ?_⟩
    push_cast
    linarith
  have hlo : ((0 : ℤ) : ℚ) ≤ |scalar| * 10 ^ 6 := by exact_mod_cast hscaled.1
  have hmem := roundHalfEven_mem hlo hscaled.2
  have hcast : ((roundHalfEven (|scalar| * 10 ^ 6)).toNat : ℚ) = roundHalfEven (|scalar| * 10 ^ 6) := by
    exact_mod_cast Int.toNat_of_nonneg hmem.1
  have hlow : (0 : ℚ) ≤ roundHalfEven (|scalar| * 10 ^ 6) := by exact_mod_cast hmem.1
  have hhigh : (roundHalfEven (|scalar| * 10 ^ 6) : ℚ) ≤ 10 ^ 6 := by exact_mod_cast hmem.2
  have hhalf := abs_le.mp (abs_roundHalfEven_sub_le (|scalar| * 10 ^ 6))
  unfold sixDecimals Payload.float
  dsimp only
  rw [hcast]
  generalize (roundHalfEven (|scalar| * 10 ^ 6) : ℚ) = n at hlow hhigh hhalf ⊢
  rcases lt_or_ge scalar 0 with hneg | hnonneg
  · rw [abs_of_neg hneg] at hhalf
    rw [if_pos (decide_eq_true hneg)]
    exact ⟨_, rfl, abs_le.mpr ⟨by linarith, by linarith⟩, abs_le.mpr ⟨by linarith, by linarith⟩⟩
  · rw [abs_of_nonneg hnonneg] at hhalf
    rw [if_neg (by simpa using hnonneg)]
    exact ⟨_, rfl, abs_le.mpr ⟨by linarith, by linarith⟩, abs_le.mpr ⟨by linarith, by linarith⟩⟩

/-- A number that is written with six decimals and read again. -/
theorem float_sixDecimals_close {scalar x : ℚ} (hscalar : |scalar| ≤ 1)
    (h : (sixDecimals scalar).float = some x) : |x - scalar| ≤ 5 / 10 ^ 7 + 1 / 2 ^ 54 := by
  obtain ⟨v, hv, hsize, hclose⟩ := exists_written hscalar
  obtain rfl := Option.some.inj (hv.symm.trans h)
  calc |toDouble v - scalar| ≤ |toDouble v - v| + |v - scalar| := abs_sub_le _ _ _
    _ ≤ 1 / 2 ^ 54 + 5 / 10 ^ 7 := add_le_add (abs_toDouble_sub_le hsize) hclose
    _ = 5 / 10 ^ 7 + 1 / 2 ^ 54 := add_comm _ _

/-- What is found for a text is close to its score. -/
theorem Written.cached (h : Written digest predict played cache) (hdigest : Set.InjOn digest played)
    (htext : text ∈ played) {x : ℚ} (hx : cached digest (some cache) text = some x) :
    |x - own predict text| ≤ 5 / 10 ^ 7 + 1 / 2 ^ 54 := by
  have hlookup : (cache (cacheKey digest text)).bind Payload.float = some x := hx
  obtain ⟨payload, hpayload, hfloat⟩ := Option.bind_eq_some_iff.mp hlookup
  obtain ⟨text', htext', hkey, rfl⟩ := h _ payload hpayload
  have hsame : text = text' := hdigest htext htext' (String.append_right_inj _ |>.mp hkey)
  subst hsame
  exact float_sixDecimals_close (abs_own_le text) hfloat

end Cache

/-! ## Main result -/

/-- A batch has a score for each text in their order, close to that of the text alone without a cache, on
    every cache that earlier calls have built. -/
theorem scoreBatch_close (digest : String → String) (pipeline : List String → List PerItem)
    (predict : String → PerItem) (hpipeline : ∀ batch, pipeline batch = batch.map predict)
    (played : Set String) (hdigest : Set.InjOn digest played) (redis : Option Cache)
    (hbuilt : ∀ cache ∈ redis, Built digest pipeline played cache) (texts : List String)
    (hplayed : ∀ text ∈ texts, strip text ∈ played) :
    Close digest pipeline redis texts (5 / 10 ^ 7 + 1 / 2 ^ 54) := by
  refine ⟨_, _, scoreBatch_eq hpipeline texts, List.length_map _, fun i text score htext hscore => ?_⟩
  rw [List.getElem?_map, htext] at hscore
  obtain rfl := Option.some.inj hscore
  have hmem := hplayed text (List.mem_of_getElem? htext)
  unfold value known scoreText
  dsimp only
  split_ifs with hempty
  · norm_num
  have halone : cached digest none (strip text) = none := rfl
  rw [halone, hpipeline]
  dsimp only
  cases hcached : cached digest redis (strip text) with
  | none =>
    rw [Option.getD_none, List.map_singleton]
    unfold own
    norm_num
  | some x =>
    cases redis with
    | none => cases hcached
    | some cache => exact ((hbuilt cache rfl).written hpipeline).cached hdigest hmem hcached

/-- A classifier that says the same of every text. -/
def threeOver128 (_ : String) : PerItem := .list [some ⟨"positive", some (3 / 128)⟩]

/-- The cache after a first call. -/
def oneKept : Cache :=
  Function.update (fun _ => none) (cacheKey id "Profits rise")
    (some (sixDecimals (own threeOver128 "Profits rise")))

theorem built_oneKept : Built id (List.map threeOver128) Set.univ oneKept := by
  have hstrip : strip "Profits rise" = "Profits rise" := by decide +kernel
  have hcall : scoreText id (List.map threeOver128) (some fun _ => none) "Profits rise" =
      (own threeOver128 "Profits rise", some oneKept) := by
    unfold scoreText
    rw [hstrip]
    exact if_neg (by decide)
  exact .scoreText .empty (Set.mem_univ (strip "Profits rise")) hcall

theorem scoreBatch_close_sample :
    Close id (List.map threeOver128) (some oneKept) ["Profits rise", "", "Profits fall", "Profits rise"]
      (5 / 10 ^ 7 + 1 / 2 ^ 54) :=
  scoreBatch_close id (List.map threeOver128) threeOver128 (fun _ => rfl) Set.univ
    Function.injective_id.injOn (some oneKept) (fun _ h => Option.some.inj h ▸ built_oneKept) _ fun _ _ => Set.mem_univ _

/-- A score of `0.0234375` is read again as the double next to `0.023438`, which is above it. -/
theorem threeOver128_is_further :
    ¬ ∀ (texts : List String) (cache : Cache), Built id (List.map threeOver128) Set.univ cache →
      Close id (List.map threeOver128) (some cache) texts (5 / 10 ^ 7) := by
  intro h
  obtain ⟨scores, redis', hscores, -, hclose⟩ := h ["Profits rise"] _ built_oneKept
  rw [scoreBatch_eq fun _ => rfl] at hscores
  obtain ⟨rfl, -⟩ := Prod.mk.inj (Except.ok.inj hscores)
  have hfar := hclose 0 _ _ rfl rfl
  revert hfar
  decide +kernel

end Nivara.Analysis.FinBertScores
