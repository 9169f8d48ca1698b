import Nivara.Common.Json
import Nivara.Lib.Blend

/-!
# Composite sentiment

`analysis/sentiment.py`, `score_batch` of `analysis/finbert.py` (lines 126–163, 192–234) and
`fetch_posts` of `data/reddit.py` (lines 83–175).

* Arithmetic is exact; `0.5 ** x` is a parameter that is not negative.
* An instant is its number of microseconds since the epoch, in UTC.
* A source that fails raises its own `…Unavailable`, or another exception, which
  `compute_sentiment` does not catch.
* A cached score is one that `score_batch` has written: it lies between -1 and 1.

Results:

* `scoreBatch_spec`, `abs_computeMacroScore_le`: the scores of the legs lie between -1 and 1.
* `sentimentResult_weighted`: the weights are those of the available legs.
* `computeSentiment_degrades`: which legs have weight 0, and where the composite lies.
* `finBertOutage_is_neutral`: a leg that could not be scored keeps its weight.
-/

namespace Nivara.Analysis

/-! ## Model -/

/-- What a client or the scorer raises: its own `…Unavailable`, or another exception. -/
inductive Failure
  | unavailable
  | other (e : PyError)
  deriving DecidableEq

/-- `max(-1.0, min(1.0, x))`. -/
def clamp (x : ℚ) : ℚ := max (-1) (min 1 x)

/-! ### FinBERT -/

/-- The cache and the pipeline of FinBERT. A prediction is the list of its labels, in lower case, with
    their scores. -/
structure FinBert where
  cached : String → Option {x : ℚ // |x| ≤ 1}
  pipeline : Except Failure (List String → Except PyError (List (List (String × ℚ))))

/-- The last score of a label; 0 when there is none. -/
def labelScore (label : String) (labels : List (String × ℚ)) : ℚ :=
  (((labels.filter fun l => l.1 = label).getLast?).map Prod.snd).getD 0

/-- `_scalar_from_labels`. -/
def scalarFromLabels (labels : List (String × ℚ)) : ℚ :=
  clamp (labelScore "positive" labels - labelScore "negative" labels)

/-- A result of the first pass of `score_batch`; `none` is left to the pipeline. -/
def FinBert.known (finbert : FinBert) (text : String) : Option ℚ :=
  let text := strip text
  if text = "" then some 0 else (finbert.cached text).map Subtype.val

/-- The results with the scores of the pipeline in the free slots. -/
def fill : List (Option ℚ) → List ℚ → List ℚ
  | [], _ => []
  | some x :: results, scores => x :: fill results scores
  | none :: results, x :: scores => x :: fill results scores
  | none :: results, [] => 0 :: fill results []

/-- `score_batch`. -/
def scoreBatch (finbert : FinBert) (texts : List String) : Except Failure (List ℚ) := do
  let results := texts.map finbert.known
  let toScore := (texts.filter fun text => (finbert.known text).isNone).map strip
  if toScore.isEmpty then return fill results []
  let pipeline ← finbert.pipeline
  let prediction ← (pipeline toScore).mapError .other
  -- `zip(…, strict=True)`
  if prediction.length ≠ toScore.length then .error (.other .valueError)
  else return fill results (prediction.map scalarFromLabels)

/-! ### Reddit -/

/-- A PRAW submission; `readable` when its score and its time are numbers. -/
structure Submission where
  title : String
  selftext : String
  createdUtc : Option ℤ
  readable : Bool

/-- `RedditPost`, as far as it is scored. -/
structure RedditPost where
  title : String
  body : String
  createdAt : ℤ
  deriving DecidableEq

/-- `_submission_to_post`. -/
def submissionToPost (submission : Submission) : Option RedditPost :=
  if !submission.readable then none
  else
    submission.createdUtc.bind fun createdAt =>
      if submission.title = "" then none else some ⟨submission.title, submission.selftext, createdAt⟩

/-- A Reddit client. `praw` is `none` when the import or the constructor raises; its searches give
    the submissions they yield before they end or raise. -/
structure RedditClient where
  clientId : Option String
  clientSecret : Option String
  praw : Option ((subreddit symbol : String) → (limit : ℕ) → List Submission)
  subreddits : List String

/-- `_build_reddit`; `none` is a `RedditUnavailable`. -/
def RedditClient.buildReddit (c : RedditClient) :
    Option ((subreddit symbol : String) → (limit : ℕ) → List Submission) :=
  if c.clientId.getD "" = "" ∨ c.clientSecret.getD "" = "" then none else c.praw

/-- `fetch_posts`. The exception of a search is logged, and the next subreddit is searched. -/
def RedditClient.fetchPosts (c : RedditClient) (symbol : String) (limit : ℕ) : Option (List RedditPost) :=
  c.buildReddit.map fun search =>
    let perSubLimit := max (limit / max c.subreddits.length 1) 1
    (c.subreddits.flatMap fun sub => (search sub symbol perSubLimit).filterMap submissionToPost).take limit

/-! ### Legs -/

/-- `0.5 ** x`. -/
structure HalfPower where
  pow : ℚ → ℚ
  pow_nonneg : ∀ x, 0 ≤ pow x

/-- `_decay_weight`. -/
def decayWeight (half : HalfPower) (ageHours halfLifeHours : ℚ) : ℚ :=
  if ageHours ≤ 0 then 1 else half.pow (ageHours / halfLifeHours)

/-- `_age_hours`. -/
def ageHours (itemTs now : ℤ) : ℚ := max ((now - itemTs : ℤ) / hours 1) 0

/-- `_weighted_mean`. -/
def weightedMean (values weights : List ℚ) : Except PyError ℚ :=
  if values = [] then .ok 0
  else
    let totalWeight := weights.sum
    if totalWeight ≤ 0 then .ok 0
    else if values.length ≠ weights.length then .error .valueError
    else .ok ((List.zipWith (· * ·) values weights).sum / totalWeight)

/-- `_resolve_weights`: the weights of news, social and macro. -/
def resolveWeights (newsAvailable socialAvailable macroAvailable : Bool) : ℚ × ℚ × ℚ :=
  match newsAvailable, socialAvailable, macroAvailable with
  | false, false, false => (0, 0, 0)
  | true, false, true => (3 / 5, 0, 2 / 5)
  | true, true, false => (7 / 10, 3 / 10, 0)
  | true, false, false => (1, 0, 0)
  | false, true, true => (0, 2 / 5, 3 / 5)
  | false, true, false => (0, 1, 0)
  | false, false, true => (0, 0, 1)
  | true, true, true => (1 / 2, 1 / 5, 3 / 10)

/-- What the two text legs share: texts with their times, and a half-life. -/
def scoreLeg (finbert : FinBert) (half : HalfPower) (halfLifeHours : ℚ) (now : ℤ)
    (items : List (String × ℤ)) : Except PyError ℚ :=
  if items = [] then .ok 0
  else
    match scoreBatch finbert (items.map Prod.fst) with
    | .error .unavailable => .ok 0
    | .error (.other e) => .error e
    | .ok scores =>
      weightedMean scores (items.map fun item => decayWeight half (ageHours item.2 now) halfLifeHours)

/-- `NewsArticle`, as far as it is scored. -/
structure NewsArticle where
  title : String
  summary : String
  publishedAt : ℤ
  deriving DecidableEq

/-- `f"{title}. {text[:400]}"`. -/
def legText (title text : String) : String := title ++ ". " ++ String.ofList (text.toList.take 400)

/-- `_score_news_leg`. -/
def scoreNewsLeg (finbert : FinBert) (half : HalfPower) (now : ℤ) (articles : List NewsArticle) :
    Except PyError ℚ :=
  scoreLeg finbert half 24 now (articles.map fun a => (legText a.title a.summary, a.publishedAt))

/-- `_score_social_leg`. -/
def scoreSocialLeg (finbert : FinBert) (half : HalfPower) (now : ℤ) (posts : List RedditPost) :
    Except PyError ℚ :=
  scoreLeg finbert half 1 now (posts.map fun p => (legText p.title p.body, p.createdAt))

/-! ### Macro -/

/-- Series of FRED observations. -/
abbrev FredObservations := List (String × List (ℤ × ℚ))

/-- `_latest`. -/
def latestOf (fred : FredObservations) (seriesId : String) : Option (ℤ × ℚ) :=
  ((fred.lookup seriesId).getD []).getLast?

/-- `_value_at_or_before`. -/
def valueAtOrBefore (fred : FredObservations) (seriesId : String) (target : ℤ) : Option (ℤ × ℚ) :=
  (((fred.lookup seriesId).getD []).takeWhile fun o => o.1 ≤ target).getLast?

/-- `ts.replace(year=ts.year - 1)`. -/
def yearBefore (ts : ℤ) : Except PyError ℤ :=
  let (year, month, day) := civilFromDays (ts / hours 24)
  match Date.ofYmd (year - 1).toNat month.toNat day.toNat with
  | some d => .ok (d.days * hours 24 + ts % hours 24)
  | none => .error .valueError

/-- `ts - timedelta(days=90)`; the year 1 is the first. -/
def ninetyDaysBefore (ts : ℤ) : Except PyError ℤ :=
  let target := ts - hours (24 * 90)
  if target < -719162 * hours 24 then .error .overflowError else .ok target

/-- A component: the latest value of a series and the one at or before `target` of its time. -/
def component (fred : FredObservations) (seriesId : String) (target : ℤ → Except PyError ℤ)
    (signal : ℚ → ℚ → Option ℚ) : Except PyError (Option ℚ) :=
  match latestOf fred seriesId with
  | none => .ok none
  | some latest => do
    let prior := valueAtOrBefore fred seriesId (← target latest.1)
    return prior.bind fun prior => (signal latest.2 prior.2).map clamp

/-- Lines 265–274. -/
def unemploymentComponent (fred : FredObservations) : Except PyError (Option ℚ) :=
  component fred "UNRATE" yearBefore fun latest prior => some (-(latest - prior))

/-- Lines 276–285. -/
def fedFundsComponent (fred : FredObservations) : Except PyError (Option ℚ) :=
  component fred "FEDFUNDS" ninetyDaysBefore fun latest prior => some (-((latest - prior) * 100) / 50)

/-- Lines 287–294. -/
def gdpComponent (fred : FredObservations) : Except PyError (Option ℚ) :=
  component fred "GDPC1" yearBefore fun latest prior =>
    if 0 < prior then some ((latest - prior) / prior * 100 / 5) else none

/-- `compute_macro_score`. -/
def computeMacroScore (fred : FredObservations) : Except PyError ℚ :=
  if fred = [] then .ok 0
  else do
    let unemployment ← unemploymentComponent fred
    let fedFunds ← fedFundsComponent fred
    let gdp ← gdpComponent fred
    let components := [unemployment, fedFunds, gdp].reduceOption
    return if components = [] then 0 else components.sum / components.length

/-! ### Composite -/

/-- What `compute_sentiment` is given. -/
structure Sources where
  /-- `gnews.search_for_symbols([symbol], max_results=limit)`. -/
  gnews : Option ((symbol : String) → (limit : ℕ) → Except Failure (List NewsArticle))
  /-- `rss.fetch_for_symbol(symbol, max_results=limit)`; `none` is any exception. -/
  rss : Option ((symbol : String) → (limit : ℕ) → Option (List NewsArticle))
  reddit : Option RedditClient
  finbert : FinBert
  fredObservations : Option FredObservations

/-- `SentimentBreakdown`. -/
structure SentimentBreakdown where
  newsWeight : ℚ
  socialWeight : ℚ
  macroWeight : ℚ
  newsAvailable : Bool
  socialAvailable : Bool
  macroAvailable : Bool
  deriving DecidableEq

/-- `SentimentResult`. -/
structure SentimentResult where
  symbol : String
  composite : ℚ
  newsScore : ℚ
  socialScore : ℚ
  macroScore : ℚ
  articleCount : ℕ
  redditCount : ℕ
  breakdown : SentimentBreakdown
  computedAt : ℤ
  deriving DecidableEq

/-- The bounds of the fields. -/
def SentimentResult.IsValid (r : SentimentResult) : Prop :=
  (∀ score ∈ [r.composite, r.newsScore, r.socialScore, r.macroScore], -1 ≤ score ∧ score ≤ 1) ∧
    ∀ w ∈ [r.breakdown.newsWeight, r.breakdown.socialWeight, r.breakdown.macroWeight], 0 ≤ w ∧ w ≤ 1

instance (r : SentimentResult) : Decidable r.IsValid := inferInstanceAs (Decidable (_ ∧ _))

/-- Lines 325–338. -/
def Sources.articles (s : Sources) (symbol : String) (limit : ℕ) : Except PyError (List NewsArticle) := do
  let articles ←
    match s.gnews with
    | none => pure []
    | some search =>
      match search symbol limit with
      | .ok articles => pure articles
      | .error .unavailable => pure []
      | .error (.other e) => .error e
  if articles = [] then return (s.rss.bind fun fetch => fetch symbol limit).getD [] else return articles

/-- Lines 345–354; `none` when Reddit is not available. -/
def Sources.posts (s : Sources) (symbol : String) (limit : ℕ) : Option (List RedditPost) :=
  s.reddit.bind fun reddit => reddit.fetchPosts symbol limit

/-- Lines 373–394. -/
def sentimentResult (symbol : String) (now : ℤ) (articleCount redditCount : ℕ)
    (newsAvailable socialAvailable macroAvailable : Bool) (newsScore socialScore macroScore : ℚ) :
    SentimentResult :=
  let (wNews, wSocial, wMacro) := resolveWeights newsAvailable socialAvailable macroAvailable
  { symbol := symbol
    composite := clamp (wNews * newsScore + wSocial * socialScore + wMacro * macroScore)
    newsScore := newsScore
    socialScore := socialScore
    macroScore := macroScore
    articleCount := articleCount
    redditCount := redditCount
    breakdown := ⟨wNews, wSocial, wMacro, newsAvailable, socialAvailable, macroAvailable⟩
    computedAt := now }

/-- `compute_sentiment`. -/
def computeSentiment (upper : String → String) (half : HalfPower) (s : Sources) (symbol : String) (now : ℤ)
    (newsLimit redditLimit : ℕ) : Except PyError SentimentResult := do
  let symbolU := strip (upper symbol)
  let articles ← s.articles symbolU newsLimit
  let newsAvailable : Bool := articles ≠ []
  let newsScore ← (if newsAvailable then scoreNewsLeg s.finbert half now articles else pure 0)
  let socialAvailable := (s.posts symbolU redditLimit).isSome
  let posts := (s.posts symbolU redditLimit).getD []
  let socialScore ←
    (if socialAvailable && posts ≠ [] then scoreSocialLeg s.finbert half now posts else pure 0)
  let fred := s.fredObservations.getD []
  let macroAvailable : Bool := fred ≠ []
  let macroScore ← (if macroAvailable then computeMacroScore fred else pure 0)
  let result := sentimentResult symbolU now articles.length posts.length
    newsAvailable socialAvailable macroAvailable newsScore socialScore macroScore
  -- Pydantic's `ValidationError` is a `ValueError`
  if result.IsValid then return result else .error .valueError

/-! ## Range of the scores -/

theorem abs_clamp_le (x : ℚ) : |clamp x| ≤ 1 :=
  abs_le.mpr ⟨le_max_left _ _, max_le (by norm_num) (min_le_left _ _)⟩

/-- Clamping keeps an order with a bound in `[-1, 1]`. -/
theorem le_clamp {x y : ℚ} (hx : |x| ≤ 1) (h : x ≤ y) : x ≤ clamp y :=
  le_max_of_le_right (le_min (abs_le.mp hx).2 h)

theorem clamp_le {x y : ℚ} (hx : |x| ≤ 1) (h : y ≤ x) : clamp y ≤ x :=
  max_le (abs_le.mp hx).1 ((min_le_right _ _).trans h)

theorem fill_length (results : List (Option ℚ)) (scores : List ℚ) :
    (fill results scores).length = results.length := by
  fun_induction fill results scores <;> simp_all

theorem abs_fill_le {results : List (Option ℚ)} {scores : List ℚ}
    (hr : ∀ x ∈ results.reduceOption, |x| ≤ 1) (hs : ∀ x ∈ scores, |x| ≤ 1) :
    ∀ x ∈ fill results scores, |x| ≤ 1 := by
  fun_induction fill results scores with
  | case1 => simp
  | case2 scores y results ih => simp_all
  | case3 results y scores ih => simp_all
  | case4 results ih => simp_all

theorem FinBert.abs_known_le (finbert : FinBert) (texts : List String) :
    ∀ x ∈ (texts.map finbert.known).reduceOption, |x| ≤ 1 := by
  intro x hx
  obtain ⟨text, -, hknown⟩ := List.mem_map.mp (List.reduceOption_mem_iff.mp hx)
  unfold FinBert.known at hknown
  dsimp only at hknown
  split at hknown
  · cases hknown
    simp
  · obtain ⟨y, -, rfl⟩ := Option.map_eq_some_iff.mp hknown
    exact y.2

/-- The scores of a batch are one for each text, and they lie between -1 and 1. -/
theorem scoreBatch_spec {finbert : FinBert} {texts : List String} {scores : List ℚ}
    (h : scoreBatch finbert texts = .ok scores) :
    scores.length = texts.length ∧ ∀ x ∈ scores, |x| ≤ 1 := by
  have hfill : ∃ new : List ℚ, scores = fill (texts.map finbert.known) new ∧ ∀ x ∈ new, |x| ≤ 1 := by
    unfold scoreBatch at h
    dsimp only at h
    split at h
    · exact ⟨[], (Except.ok.inj h).symm, by simp⟩
    · obtain ⟨pipeline, -, h⟩ := Loop.of_bind_eq_ok h
      obtain ⟨prediction, -, h⟩ := Loop.of_bind_eq_ok h
      split at h
      · cases h
      · refine ⟨_, (Except.ok.inj h).symm, ?_⟩
        simp [scalarFromLabels, abs_clamp_le]
  obtain ⟨new, rfl, hnew⟩ := hfill
  exact ⟨by rw [fill_length, List.length_map], abs_fill_le (finbert.abs_known_le texts) hnew⟩

theorem decayWeight_nonneg (half : HalfPower) (age halfLife : ℚ) : 0 ≤ decayWeight half age halfLife := by
  unfold decayWeight
  split
  · exact zero_le_one
  · exact half.pow_nonneg _

/-- A weighted mean of values between -1 and 1 lies between them. -/
theorem abs_weightedMean_le {values weights : List ℚ} {x : ℚ} (hv : ∀ v ∈ values, |v| ≤ 1)
    (hw : ∀ w ∈ weights, 0 ≤ w) (h : weightedMean values weights = .ok x) : |x| ≤ 1 := by
  unfold weightedMean at h
  simp only at h
  split_ifs at h with hempty hpos hlen
  · cases h
    simp
  · cases h
    simp
  · cases h
    push Not at hpos hlen
    set ks := values.zip weights with hks
    have htotal : Blend.total Prod.snd ks = weights.sum := by
      unfold Blend.total
      rw [hks, List.map_snd_zip hlen.ge]
    have hblend : (List.zipWith (· * ·) values weights).sum = Blend.blend Prod.snd Prod.fst ks := by
      unfold Blend.blend
      rw [hks, List.zip, List.map_zipWith]
      simp only [mul_comm]
    have hk : ∀ k ∈ ks, 0 ≤ k.2 := fun k hk => hw _ (List.of_mem_zip hk).2
    have hle := Blend.blend_le_total_mul hk fun k hk => (abs_le.mp (hv _ (List.of_mem_zip hk).1)).2
    have hge := Blend.total_mul_le_blend hk fun k hk => (abs_le.mp (hv _ (List.of_mem_zip hk).1)).1
    rw [htotal] at hle hge
    rw [hblend, abs_le, le_div_iff₀ hpos, div_le_iff₀ hpos]
    constructor <;> linarith

theorem exists_weightedMean {values weights : List ℚ} (h : values.length = weights.length) :
    ∃ x, weightedMean values weights = .ok x := by
  unfold weightedMean
  simp only [h, ne_eq, not_true_eq_false, if_false]
  split_ifs <;> exact ⟨_, rfl⟩

/-! ## Legs -/

theorem abs_scoreLeg_le {finbert : FinBert} {half : HalfPower} {halfLife : ℚ} {now : ℤ}
    {items : List (String × ℤ)} {x : ℚ} (h : scoreLeg finbert half halfLife now items = .ok x) :
    |x| ≤ 1 := by
  unfold scoreLeg at h
  split_ifs at h
  · cases h
    simp
  · split at h
    · cases h
      simp
    · cases h
    · rename_i scores hscores
      refine abs_weightedMean_le (scoreBatch_spec hscores).2 (fun w hw => ?_) h
      obtain ⟨item, -, rfl⟩ := List.mem_map.mp hw
      exact decayWeight_nonneg _ _ _

/-- A leg whose texts FinBERT does not score is neutral. -/
theorem scoreLeg_of_unavailable {finbert : FinBert} {half : HalfPower} {halfLife : ℚ} {now : ℤ}
    {items : List (String × ℤ)} (h : scoreBatch finbert (items.map Prod.fst) = .error .unavailable) :
    scoreLeg finbert half halfLife now items = .ok 0 := by
  unfold scoreLeg
  rw [h]
  split <;> rfl

/-- FinBERT fails with `FinBertUnavailable` only, and predicts one list of labels for each text. -/
structure FinBert.Handled (finbert : FinBert) : Prop where
  raises : ∀ e, finbert.pipeline ≠ .error (.other e)
  predicts : ∀ p, finbert.pipeline = .ok p →
    ∀ texts, ∃ prediction, p texts = .ok prediction ∧ prediction.length = texts.length

theorem scoreBatch_of_handled {finbert : FinBert} (h : finbert.Handled) (texts : List String) :
    scoreBatch finbert texts = .error .unavailable ∨ ∃ scores, scoreBatch finbert texts = .ok scores := by
  unfold scoreBatch
  dsimp only
  split
  · exact .inr ⟨_, rfl⟩
  · cases hp : finbert.pipeline with
    | error e =>
      cases e with
      | unavailable => exact .inl rfl
      | other e => exact absurd hp (h.raises e)
    | ok p =>
      obtain ⟨prediction, hpred, hlen⟩ :=
        h.predicts p hp ((texts.filter fun text => (finbert.known text).isNone).map strip)
      refine .inr ⟨fill (texts.map finbert.known) (prediction.map scalarFromLabels), ?_⟩
      simp only [Bind.bind, Except.bind, hpred, Except.mapError, hlen, ne_eq, not_true_eq_false, if_false]
      rfl

theorem exists_scoreLeg {finbert : FinBert} (h : finbert.Handled) (half : HalfPower) (halfLife : ℚ)
    (now : ℤ) (items : List (String × ℤ)) : ∃ x, scoreLeg finbert half halfLife now items = .ok x := by
  obtain hdown | ⟨scores, hscores⟩ := scoreBatch_of_handled h (items.map Prod.fst)
  · exact ⟨0, scoreLeg_of_unavailable hdown⟩
  · unfold scoreLeg
    split_ifs
    · exact ⟨0, rfl⟩
    · rw [hscores]
      refine exists_weightedMean ?_
      rw [(scoreBatch_spec hscores).1, List.length_map, List.length_map]

theorem abs_component_le {fred : FredObservations} {seriesId : String} {target : ℤ → Except PyError ℤ}
    {signal : ℚ → ℚ → Option ℚ} {c : Option ℚ} (h : component fred seriesId target signal = .ok c) :
    ∀ x ∈ c, |x| ≤ 1 := by
  unfold component at h
  split at h
  · cases h
    simp
  · obtain ⟨t, -, h⟩ := Loop.of_bind_eq_ok h
    cases h
    intro x hx
    obtain ⟨prior, -, hx⟩ := Option.bind_eq_some_iff.mp hx
    obtain ⟨y, -, rfl⟩ := Option.map_eq_some_iff.mp hx
    exact abs_clamp_le y

/-- The macro score is a mean of components between -1 and 1. -/
theorem abs_computeMacroScore_le {fred : FredObservations} {x : ℚ} (h : computeMacroScore fred = .ok x) :
    |x| ≤ 1 := by
  unfold computeMacroScore at h
  split_ifs at h with hempty
  · cases h
    simp
  · obtain ⟨unemployment, hu, h⟩ := Loop.of_bind_eq_ok h
    obtain ⟨fedFunds, hf, h⟩ := Loop.of_bind_eq_ok h
    obtain ⟨gdp, hg, h⟩ := Loop.of_bind_eq_ok h
    dsimp only at h
    set components := [unemployment, fedFunds, gdp].reduceOption with hc
    have hrange : ∀ y ∈ components, |y| ≤ 1 := by
      intro y hy
      have hmem := List.reduceOption_mem_iff.mp hy
      simp only [List.mem_cons, List.not_mem_nil, or_false] at hmem
      obtain hy | hy | hy := hmem
      · exact abs_component_le hu y hy.symm
      · exact abs_component_le hf y hy.symm
      · exact abs_component_le hg y hy.symm
    cases h
    split_ifs with hnil
    · simp
    · have hsum : Blend.blend (fun _ => 1) id components = components.sum := by simp [Blend.blend]
      have htotal : Blend.total (fun _ => (1 : ℚ)) components = components.length := by simp [Blend.total]
      have hle := Blend.blend_le_total_mul (w := fun _ => (1 : ℚ)) (v := id) (by simp)
        fun y hy => (abs_le.mp (hrange y hy)).2
      have hge := Blend.total_mul_le_blend (w := fun _ => (1 : ℚ)) (v := id) (by simp)
        fun y hy => (abs_le.mp (hrange y hy)).1
      have hpos : (0 : ℚ) < components.length := by
        exact_mod_cast List.length_pos_iff.mpr hnil
      rw [hsum, htotal] at hle hge
      rw [abs_le, le_div_iff₀ hpos, div_le_iff₀ hpos]
      constructor <;> linarith

/-! ## Composite of the available legs -/

/-- A leg of a result. -/
structure Leg where
  available : Bool
  weight : ℚ
  score : ℚ

/-- The legs of a result: news, social and macro. -/
def SentimentResult.legs (r : SentimentResult) : List Leg :=
  [⟨r.breakdown.newsAvailable, r.breakdown.newsWeight, r.newsScore⟩,
    ⟨r.breakdown.socialAvailable, r.breakdown.socialWeight, r.socialScore⟩,
    ⟨r.breakdown.macroAvailable, r.breakdown.macroWeight, r.macroScore⟩]

/-- The weights of a result are those of its available legs, and its composite is their blend. -/
structure SentimentResult.Weighted (r : SentimentResult) : Prop where
  unavailable : ∀ leg ∈ r.legs, leg.available = false → leg.weight = 0
  available : ∀ leg ∈ r.legs, leg.available = true → 0 < leg.weight
  total : (∃ leg ∈ r.legs, leg.available = true) → Blend.total Leg.weight r.legs = 1
  nothing : (∀ leg ∈ r.legs, leg.available = false) → r.composite = 0
  composite : r.composite = clamp (Blend.blend Leg.weight Leg.score r.legs)

theorem sentimentResult_weighted (symbol : String) (now : ℤ) (articleCount redditCount : ℕ)
    (news social macroAvailable : Bool) (newsScore socialScore macroScore : ℚ) :
    (sentimentResult symbol now articleCount redditCount news social macroAvailable
      newsScore socialScore macroScore).Weighted := by
  constructor
  · cases news <;> cases social <;> cases macroAvailable <;>
      simp [SentimentResult.legs, sentimentResult, resolveWeights]
  · cases news <;> cases social <;> cases macroAvailable <;>
      simp [SentimentResult.legs, sentimentResult, resolveWeights]
  · cases news <;> cases social <;> cases macroAvailable <;>
      simp [SentimentResult.legs, sentimentResult, resolveWeights] <;> norm_num
  · cases news <;> cases social <;> cases macroAvailable <;>
      simp [SentimentResult.legs, sentimentResult, resolveWeights, clamp]
  · simp [SentimentResult.legs, sentimentResult, add_assoc]

/-- The composite lies between the scores of two available legs. -/
theorem SentimentResult.Weighted.between {r : SentimentResult} (h : r.Weighted)
    (hscore : ∀ leg ∈ r.legs, |leg.score| ≤ 1) (hsome : ∃ leg ∈ r.legs, leg.available = true) :
    (∃ leg ∈ r.legs, leg.available = true ∧ leg.score ≤ r.composite) ∧
      ∃ leg ∈ r.legs, leg.available = true ∧ r.composite ≤ leg.score := by
  have hnonneg : ∀ leg ∈ r.legs, 0 ≤ leg.weight := by
    intro leg hleg
    cases ha : leg.available with
    | false => exact (h.unavailable leg hleg ha).ge
    | true => exact (h.available leg hleg ha).le
  have havailable : ∀ leg ∈ r.legs, leg.weight ≠ 0 → leg.available = true := by
    intro leg hleg hw
    by_contra ha
    exact hw (h.unavailable leg hleg (Bool.eq_false_of_not_eq_true ha))
  rw [h.composite]
  constructor
  · obtain ⟨leg, hleg, hw, hle⟩ := Blend.exists_le_blend (v := Leg.score) hnonneg (h.total hsome)
    exact ⟨leg, hleg, havailable leg hleg hw, le_clamp (hscore leg hleg) hle⟩
  · obtain ⟨leg, hleg, hw, hle⟩ := Blend.exists_blend_le (v := Leg.score) hnonneg (h.total hsome)
    exact ⟨leg, hleg, havailable leg hleg hw, clamp_le (hscore leg hleg) hle⟩

theorem sentimentResult_isValid {symbol : String} {now : ℤ} {articleCount redditCount : ℕ}
    {news social macroAvailable : Bool} {newsScore socialScore macroScore : ℚ}
    (hn : |newsScore| ≤ 1) (hs : |socialScore| ≤ 1) (hm : |macroScore| ≤ 1) :
    (sentimentResult symbol now articleCount redditCount news social macroAvailable
      newsScore socialScore macroScore).IsValid := by
  constructor
  · simp [sentimentResult, ← abs_le, abs_clamp_le, hn, hs, hm]
  · cases news <;> cases social <;> cases macroAvailable <;>
      simp [sentimentResult, resolveWeights] <;> norm_num

/-! ## Failures of the sources -/

/-- Neither GNews nor the RSS feeds give an article. -/
def Sources.NewsDown (s : Sources) (symbol : String) (limit : ℕ) : Prop :=
  (∀ search ∈ s.gnews, search symbol limit = .error .unavailable ∨ search symbol limit = .ok []) ∧
    ∀ fetch ∈ s.rss, fetch symbol limit = none ∨ fetch symbol limit = some []

/-- There is no Reddit client, or it cannot be built. -/
def Sources.SocialDown (s : Sources) : Prop := ∀ reddit ∈ s.reddit, reddit.buildReddit = none

/-- There is no FRED series. -/
def Sources.MacroDown (s : Sources) : Prop := ∀ fred ∈ s.fredObservations, fred = []

/-- Nothing fails but with its `…Unavailable`, and the times of the observations have a year before. -/
structure Sources.Handled (s : Sources) (symbol : String) (limit : ℕ) : Prop where
  gnews : ∀ search ∈ s.gnews, ∀ e, search symbol limit ≠ .error (.other e)
  finbert : s.finbert.Handled
  fred : ∃ x, computeMacroScore (s.fredObservations.getD []) = .ok x

theorem Sources.articles_of_newsDown {s : Sources} {symbol : String} {limit : ℕ}
    (h : s.NewsDown symbol limit) : s.articles symbol limit = .ok [] := by
  obtain ⟨hgnews, hrss⟩ := h
  have hfetch : (s.rss.bind fun fetch => fetch symbol limit).getD [] = [] := by
    cases hr : s.rss with
    | none => rfl
    | some fetch => obtain h | h := hrss fetch hr <;> simp [h]
  unfold Sources.articles
  cases hg : s.gnews with
  | none => exact congrArg Except.ok hfetch
  | some search =>
    obtain h | h := hgnews search hg
    · simp only [h]
      exact congrArg Except.ok hfetch
    · simp only [h]
      exact congrArg Except.ok hfetch

theorem Sources.exists_articles {s : Sources} {symbol : String} {limit : ℕ}
    (h : ∀ search ∈ s.gnews, ∀ e, search symbol limit ≠ .error (.other e)) :
    ∃ articles, s.articles symbol limit = .ok articles := by
  have hreturn : ∀ l : List NewsArticle, ∃ articles, (if l = [] then
      return (s.rss.bind fun fetch => fetch symbol limit).getD [] else return l : Except PyError _) =
        .ok articles := by
    intro l
    split_ifs <;> exact ⟨_, rfl⟩
  unfold Sources.articles
  cases hg : s.gnews with
  | none => exact hreturn []
  | some search =>
    cases hs : search symbol limit with
    | ok l =>
      simp only [hs]
      exact hreturn l
    | error e =>
      cases e with
      | unavailable =>
        simp only [hs]
        exact hreturn []
      | other e => exact absurd hs (h search hg e)

theorem Sources.posts_of_socialDown {s : Sources} {symbol : String} {limit : ℕ} (h : s.SocialDown) :
    s.posts symbol limit = none := by
  unfold Sources.posts
  cases hr : s.reddit with
  | none => rfl
  | some reddit => simp [RedditClient.fetchPosts, h reddit hr]

theorem Sources.fred_of_macroDown {s : Sources} (h : s.MacroDown) : s.fredObservations.getD [] = [] := by
  cases hf : s.fredObservations with
  | none => rfl
  | some fred => exact h fred hf

theorem scoreNewsLeg_nil (finbert : FinBert) (half : HalfPower) (now : ℤ) :
    scoreNewsLeg finbert half now [] = .ok 0 := rfl

theorem scoreSocialLeg_nil (finbert : FinBert) (half : HalfPower) (now : ℤ) :
    scoreSocialLeg finbert half now [] = .ok 0 := rfl

theorem computeMacroScore_nil : computeMacroScore [] = .ok 0 := rfl

/-- What a run returns. -/
theorem computeSentiment_eq_ok_iff {upper : String → String} {half : HalfPower} {s : Sources}
    {symbol : String} {now : ℤ} {newsLimit redditLimit : ℕ} {r : SentimentResult} :
    computeSentiment upper half s symbol now newsLimit redditLimit = .ok r ↔
      ∃ articles newsScore socialScore macroScore,
        s.articles (strip (upper symbol)) newsLimit = .ok articles ∧
        scoreNewsLeg s.finbert half now articles = .ok newsScore ∧
        scoreSocialLeg s.finbert half now ((s.posts (strip (upper symbol)) redditLimit).getD []) =
          .ok socialScore ∧
        computeMacroScore (s.fredObservations.getD []) = .ok macroScore ∧
        sentimentResult (strip (upper symbol)) now articles.length
          ((s.posts (strip (upper symbol)) redditLimit).getD []).length (articles ≠ [])
          (s.posts (strip (upper symbol)) redditLimit).isSome (s.fredObservations.getD [] ≠ [])
          newsScore socialScore macroScore = r := by
  -- a leg without items scores 0 with or without the guard in front of it
  have hnews : ∀ articles, (if (decide (articles ≠ []) : Bool) then scoreNewsLeg s.finbert half now articles
      else pure 0) = scoreNewsLeg s.finbert half now articles := by
    intro articles
    cases articles <;> simp [scoreNewsLeg_nil, pure, Except.pure]
  have hsocial : ∀ posts : Option (List RedditPost),
      (if posts.isSome && decide (posts.getD [] ≠ []) then scoreSocialLeg s.finbert half now (posts.getD [])
      else pure 0) = scoreSocialLeg s.finbert half now (posts.getD []) := by
    intro posts
    cases posts with
    | none => rfl
    | some posts => cases posts <;> simp [scoreSocialLeg_nil, pure, Except.pure]
  have hfred : ∀ fred : FredObservations,
      (if (decide (fred ≠ []) : Bool) then computeMacroScore fred else pure 0) = computeMacroScore fred := by
    intro fred
    cases fred <;> simp [computeMacroScore_nil, pure, Except.pure]
  unfold computeSentiment
  dsimp only
  simp only [hnews, hsocial, hfred]
  constructor
  · intro h
    obtain ⟨articles, ha, h⟩ := Loop.of_bind_eq_ok h
    obtain ⟨newsScore, hn, h⟩ := Loop.of_bind_eq_ok h
    obtain ⟨socialScore, hs, h⟩ := Loop.of_bind_eq_ok h
    obtain ⟨macroScore, hm, h⟩ := Loop.of_bind_eq_ok h
    split at h
    · exact ⟨articles, newsScore, socialScore, macroScore, ha, hn, hs, hm, Except.ok.inj h⟩
    · cases h
  · rintro ⟨articles, newsScore, socialScore, macroScore, ha, hn, hs, hm, rfl⟩
    simp only [ha, hn, hs, hm, Bind.bind, Except.bind]
    exact if_pos
      (sentimentResult_isValid (abs_scoreLeg_le hn) (abs_scoreLeg_le hs) (abs_computeMacroScore_le hm))

/-! ## Main result -/

/-- How a result degrades: a leg whose source gives nothing is not available and has weight 0; the
    weights of the available legs sum to 1, and the composite lies between the scores of two of
    them; a leg whose items FinBERT does not score stays available, with the score 0. -/
structure Degrades (s : Sources) (symbol : String) (newsLimit redditLimit : ℕ) (r : SentimentResult) :
    Prop where
  newsDown : s.NewsDown symbol newsLimit → r.breakdown.newsAvailable = false
  socialDown : s.SocialDown → r.breakdown.socialAvailable = false
  macroDown : s.MacroDown → r.breakdown.macroAvailable = false
  news : ∀ articles, s.articles symbol newsLimit = .ok articles → articles ≠ [] →
    r.breakdown.newsAvailable = true
  social : ∀ posts, s.posts symbol redditLimit = some posts → posts ≠ [] →
    r.breakdown.socialAvailable = true
  fred : ∀ fred ∈ s.fredObservations, (∃ series ∈ fred, series.2 ≠ []) → r.breakdown.macroAvailable = true
  weighted : r.Weighted
  between : (∃ leg ∈ r.legs, leg.available = true) →
    (∃ leg ∈ r.legs, leg.available = true ∧ leg.score ≤ r.composite) ∧
      ∃ leg ∈ r.legs, leg.available = true ∧ r.composite ≤ leg.score
  neutralNews : ∀ articles, s.articles symbol newsLimit = .ok articles →
    scoreBatch s.finbert (articles.map fun a => legText a.title a.summary) = .error .unavailable →
    r.newsScore = 0
  neutralSocial : ∀ posts, s.posts symbol redditLimit = some posts →
    scoreBatch s.finbert (posts.map fun p => legText p.title p.body) = .error .unavailable →
    r.socialScore = 0

/-- Every run that returns degrades so; and every run returns in which nothing fails but with its
    `…Unavailable`. -/
theorem computeSentiment_degrades (upper : String → String) (half : HalfPower) (s : Sources)
    (symbol : String) (now : ℤ) (newsLimit redditLimit : ℕ) :
    (∀ r, computeSentiment upper half s symbol now newsLimit redditLimit = .ok r →
      Degrades s (strip (upper symbol)) newsLimit redditLimit r) ∧
    (s.Handled (strip (upper symbol)) newsLimit →
      ∃ r, computeSentiment upper half s symbol now newsLimit redditLimit = .ok r) := by
  constructor
  · intro r h
    obtain ⟨articles, newsScore, socialScore, macroScore, ha, hn, hs, hm, rfl⟩ :=
      computeSentiment_eq_ok_iff.mp h
    have hweighted := sentimentResult_weighted (strip (upper symbol)) now articles.length
      ((s.posts (strip (upper symbol)) redditLimit).getD []).length (articles ≠ [])
      (s.posts (strip (upper symbol)) redditLimit).isSome (s.fredObservations.getD [] ≠ [])
      newsScore socialScore macroScore
    refine ⟨fun hdown => ?_, fun hdown => ?_, fun hdown => ?_, fun l hl hne => ?_, fun posts hp _ => ?_,
      fun fred hf hne => ?_, hweighted, hweighted.between ?_, fun l hl hfin => ?_, fun posts hp hfin => ?_⟩
    · rw [Sources.articles_of_newsDown hdown] at ha
      cases ha
      rfl
    · simp [sentimentResult, Sources.posts_of_socialDown hdown]
    · simp [sentimentResult, Sources.fred_of_macroDown hdown]
    · rw [hl] at ha
      cases ha
      simp [sentimentResult, hne]
    · simp [sentimentResult, hp]
    · obtain ⟨series, hmem, -⟩ := hne
      simp [sentimentResult, Option.mem_def.mp hf, List.ne_nil_of_mem hmem]
    · simp only [SentimentResult.legs, List.forall_mem_cons]
      exact ⟨abs_scoreLeg_le hn, abs_scoreLeg_le hs, abs_computeMacroScore_le hm, by simp⟩
    · rw [hl] at ha
      cases ha
      have hzero : scoreNewsLeg s.finbert half now articles = .ok 0 :=
        scoreLeg_of_unavailable (by simpa [Function.comp_def] using hfin)
      rw [hzero] at hn
      exact (Except.ok.inj hn).symm
    · rw [hp] at hs
      have hzero : scoreSocialLeg s.finbert half now posts = .ok 0 :=
        scoreLeg_of_unavailable (by simpa [Function.comp_def] using hfin)
      rw [Option.getD_some, hzero] at hs
      exact (Except.ok.inj hs).symm
  · rintro ⟨hgnews, hfinbert, macroScore, hm⟩
    obtain ⟨articles, ha⟩ := Sources.exists_articles hgnews
    obtain ⟨newsScore, hn⟩ := exists_scoreLeg hfinbert half 24 now
      (articles.map fun a => (legText a.title a.summary, a.publishedAt))
    obtain ⟨socialScore, hs⟩ := exists_scoreLeg hfinbert half 1 now
      (((s.posts (strip (upper symbol)) redditLimit).getD []).map fun p =>
        (legText p.title p.body, p.createdAt))
    exact ⟨_, computeSentiment_eq_ok_iff.mpr
      ⟨articles, newsScore, socialScore, macroScore, ha, hn, hs, hm, rfl⟩⟩

/-- GNews has one article, and the GDP has grown by 5 per cent in a year. -/
def sampleSources (finbert : FinBert) : Sources where
  gnews := some fun _ _ => .ok [⟨"Profits rise", "A record quarter", 0⟩]
  rss := none
  reddit := some ⟨none, none, none, ["stocks"]⟩
  finbert := finbert
  fredObservations := some [("GDPC1", [(0, 100), (366 * hours 24, 105)])]

/-- `0.5 ** x` by whole half-lives. -/
def sampleHalf : HalfPower := ⟨fun x => (1 / 2) ^ x.floor.toNat, fun _ => by positivity⟩

theorem computeSentiment_degrades_sample :
    ∃ r, computeSentiment id sampleHalf
        (sampleSources ⟨fun _ => none, .ok fun texts => .ok (texts.map fun _ => [("positive", 1 / 2)])⟩)
        "AAPL" 0 15 30 = .ok r ∧
      Degrades
        (sampleSources ⟨fun _ => none, .ok fun texts => .ok (texts.map fun _ => [("positive", 1 / 2)])⟩)
        (strip (id "AAPL")) 15 30 r := by
  have h := computeSentiment_degrades id sampleHalf
    (sampleSources ⟨fun _ => none, .ok fun texts => .ok (texts.map fun _ => [("positive", 1 / 2)])⟩)
    "AAPL" 0 15 30
  obtain ⟨r, hr⟩ := h.2
    { gnews := by simp [sampleSources]
      finbert := ⟨by simp [sampleSources], by simp [sampleSources]⟩
      fred := ⟨1, by decide +kernel⟩ }
  exact ⟨r, hr, h.1 r hr⟩

/-- While FinBERT is not installed, an article counts as a neutral observation: the news leg keeps
    the weight 3/5, and the composite is below the score of the only leg that was scored. -/
theorem finBertOutage_is_neutral :
    scoreBatch ⟨fun _ => none, .error .unavailable⟩ [legText "Profits rise" "A record quarter"] =
        .error .unavailable ∧
      ∃ r, computeSentiment id sampleHalf (sampleSources ⟨fun _ => none, .error .unavailable⟩)
          "AAPL" 0 15 30 = .ok r ∧
        r.breakdown.newsWeight = 3 / 5 ∧ r.breakdown.socialWeight = 0 ∧ r.macroScore = 1 ∧
        r.composite = 2 / 5 := by
  have h : computeSentiment id sampleHalf (sampleSources ⟨fun _ => none, .error .unavailable⟩)
      "AAPL" 0 15 30 = .ok ⟨"AAPL", 2 / 5, 0, 0, 1, 1, 0, ⟨3 / 5, 0, 2 / 5, true, false, true⟩, 0⟩ := by
    decide +kernel
  exact ⟨by decide +kernel, _, h, rfl, rfl, rfl, rfl⟩

end Nivara.Analysis
