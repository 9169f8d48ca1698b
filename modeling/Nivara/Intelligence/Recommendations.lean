import Nivara.Common.Decimal
import Nivara.Intelligence.Synthesizer
import Nivara.Portfolio.Catalog

/-!
# Recommendations of a user

`_resolve_shadow_mode`, `_load_technical`, `list_recommendations` and `generate_recommendation`
(`api/recommendations.py`, lines 54–201), over the tables `recommendations` and `audit_log` and the
queue `ai_analysis`.

* Arithmetic is exact, and an instant is a number of microseconds.
* What the technical engine comes to, whether the queue takes a task and whether the transaction
  commits are inputs of a call, as are the row's id and the clock of the database.
* Rows created at one instant are listed in the order in which they were added.

Results:

* `response_eq`: what the synthesizer makes of the technical engine alone.
* `generate_eq`: what a call adds to the store.
* `recommendations_of_run`: what is stored and listed in any run of calls.
-/

namespace Nivara.Intelligence

open Portfolio (Instrument)

/-! ## Model -/

/-- What the endpoint reads of the settings. -/
structure AiSettings where
  environment : String
  aiAnalysisEnabled : Bool
  aiAnalysisShadowMode : Bool
  aiAnalysisLegalReviewApproved : Bool
  aiAnalysisWeight : ℚ
  staleness : StalenessSettings

/-- `_resolve_shadow_mode`. -/
def resolveShadowMode (settings : AiSettings) : Bool :=
  if settings.environment = "production" ∧ !settings.aiAnalysisShadowMode ∧
      !settings.aiAnalysisLegalReviewApproved then true
  else settings.aiAnalysisShadowMode

/-- What `load_ohlcv_from_db` and `analyze_technical` come to. -/
inductive TechnicalRun
  | raised
  | noBars
  /-- The composite of the analysis, and the clock after it. -/
  | analyzed (compositeScore : Option ℚ) (finished : ℤ)

/-- `_load_technical`. -/
def loadTechnical : TechnicalRun → Option (Option ℚ) × Option ℤ
  | .raised => (none, none)
  | .noBars => (none, none)
  | .analyzed compositeScore finished => (some compositeScore, some finished)

/-- A row of `recommendations`. -/
structure Recommendation where
  id : UUID
  userId : UUID
  instrumentId : UUID
  recommendationType : Action
  rationale : String
  confidenceScore : ℚ
  expiresAt : ℤ
  status : String
  createdAt : ℤ
  deriving DecidableEq

/-- A row of `audit_log` for the event `recommendation_generated`. -/
structure GeneratedAudit where
  userId : UUID
  instrumentId : String
  action : Action
  confidence : Option ℚ
  compositeScore : Option ℚ
  explainerUsed : Option String
  aiBlended : Bool
  shadowMode : Bool
  deriving DecidableEq

/-- A task of the queue `ai_analysis`. -/
structure AiTask where
  instrumentId : String
  prompt : String
  requestType : String
  deriving DecidableEq

/-- A request for a recommendation, and what happens in it. -/
structure GenerateCall where
  userId : UUID
  instrumentId : UUID
  settings : AiSettings
  now : ℤ
  technical : TechnicalRun
  /-- Whether `ai_run.delay` returns. -/
  dispatches : Bool
  recommendationId : UUID
  createdAt : ℤ
  /-- Whether the commit succeeds. -/
  commits : Bool

/-- What the endpoint writes to. -/
structure RecommendationStore where
  recommendations : List Recommendation
  auditLog : List GeneratedAudit
  aiTasks : List AiTask

/-- What a call raises. -/
inductive GenerateError
  /-- 404, "instrument not found". -/
  | notFound
  /-- The commit raises. -/
  | notCommitted
  deriving DecidableEq

/-- `Decimal(f"{x:.2f}")`. -/
def twoDecimals (x : ℚ) : ℚ := Decimal.roundHalfEven (x * 10 ^ 2) / 10 ^ 2

section Model

variable (texts : FloatTexts) (instruments : UUID → Option Instrument)

/-- The task that is sent for an instrument. -/
def aiTask (instrument : Instrument) : AiTask where
  instrumentId := instrument.id.str
  prompt := s!"Analyse investment outlook for {instrument.symbol} on {instrument.exchange}. " ++
    "Respond as JSON with keys outlook, risks, confidence (all in [0, 1]) and rationale."
  requestType := "recommendation"

/-- The arguments of `synthesize`. -/
def GenerateCall.input (c : GenerateCall) (instrument : Instrument) : SynthesisInput where
  engines := ⟨(loadTechnical c.technical).1, none, none, none⟩
  computedAtPerEngine := fun
    | .technical => (loadTechnical c.technical).2
    | _ => none
  now := c.now
  instrumentSymbol := some instrument.symbol
  explainer := some fun context => some (templateExplainer texts context)
  staleness := c.settings.staleness
  texts := texts

/-- The response of a call. -/
def GenerateCall.response (c : GenerateCall) (instrument : Instrument) : RecommendationResponse :=
  synthesize (c.input texts instrument) ⟨none, c.settings.aiAnalysisWeight, resolveShadowMode c.settings⟩

/-- `generate_recommendation`. -/
def generateRecommendation (c : GenerateCall) (s : RecommendationStore) :
    Except GenerateError RecommendationResponse × RecommendationStore :=
  match instruments c.instrumentId with
  | none => (.error .notFound, s)
  | some instrument =>
    let s :=
      if c.settings.aiAnalysisEnabled && c.dispatches then
        { s with aiTasks := s.aiTasks ++ [aiTask instrument] }
      else s
    let response := c.response texts instrument
    match response.status, response.action, response.expiresAt with
    | .ok, some action, some expiresAt =>
      if c.commits then
        (.ok response, { s with
          recommendations := s.recommendations ++ [{
            id := c.recommendationId
            userId := c.userId
            instrumentId := instrument.id
            recommendationType := action
            rationale := response.rationale.getD ""
            confidenceScore := twoDecimals (response.confidence.getD 0)
            expiresAt := expiresAt
            status := "pending"
            createdAt := c.createdAt }]
          auditLog := s.auditLog ++ [{
            userId := c.userId
            instrumentId := instrument.id.str
            action := action
            confidence := response.confidence
            compositeScore := response.compositeScore
            explainerUsed := response.explainerUsed
            aiBlended := response.aiBlended
            shadowMode := resolveShadowMode c.settings }] })
      else (.error .notCommitted, s)
    | _, _, _ => (.ok response, s)

/-- The store after calls. -/
def storeAfter (calls : List GenerateCall) : RecommendationStore :=
  calls.foldl (fun s c => (generateRecommendation texts instruments c s).2) ⟨[], [], []⟩

end Model

/-- `list_recommendations`. -/
def listRecommendations (s : RecommendationStore) (userId : UUID) (now : ℤ) : List Recommendation :=
  (s.recommendations.filter fun r => r.userId = userId ∧ now < r.expiresAt).insertionSort
    fun r r' => r'.createdAt ≤ r.createdAt

/-! ## The technical engine alone -/

section Response

variable (texts : FloatTexts) {c : GenerateCall} (instrument : Instrument) {score : ℚ} {finished : ℤ}

/-- The level of a call whose analysis has finished. -/
def GenerateCall.level (c : GenerateCall) (finished : ℤ) : StalenessLevel :=
  classifyStaleness c.settings.staleness finished c.now

/-- The context that the template explains. -/
def technicalContext (score : ℚ) (level : StalenessLevel) (symbol : String) : RecommendationContext :=
  let composite := clamp score (-1) 1
  ⟨actionFor composite, 100 - defaultReduction level, composite, [(.technical, composite)],
    topFactors [(.technical, composite)], some symbol⟩

theorem normalized_of_none (h : (loadTechnical c.technical).1.join = none) :
    (c.input texts instrument).normalized = [] := by
  unfold SynthesisInput.normalized GenerateCall.input normalizeEngines
  simp only [h]
  rfl

theorem normalized_of_analyzed (h : c.technical = .analyzed (some score) finished) :
    (c.input texts instrument).normalized = [(.technical, clamp score (-1) 1)] := by
  unfold SynthesisInput.normalized GenerateCall.input
  rw [h]
  rfl

theorem stalenessLevel_of_analyzed (h : c.technical = .analyzed (some score) finished) :
    (c.input texts instrument).stalenessLevel = c.level finished := by
  unfold SynthesisInput.stalenessLevel
  rw [normalized_of_analyzed texts instrument h]
  unfold GenerateCall.input
  simp only [h]
  rfl

theorem composite_of_analyzed (h : c.technical = .analyzed (some score) finished) (w : ℚ) (shadow : Bool) :
    (c.input texts instrument).composite ⟨none, w, shadow⟩ = clamp score (-1) 1 := by
  have hnormalized := normalized_of_analyzed texts instrument h
  have hweight : (c.input texts instrument).detWeights .technical = 1 := by
    unfold SynthesisInput.detWeights
    rw [hnormalized]
    show renormalizeWeights [Engine.technical] .technical = 1
    decide +kernel
  have hmem : -1 ≤ clamp score (-1) 1 ∧ clamp score (-1) 1 ≤ 1 := clamp_mem (by norm_num)
  unfold SynthesisInput.composite SynthesisInput.blend
  rw [blendAi_of_none, hnormalized]
  simp only [List.map_cons, List.map_nil, List.sum_cons, List.sum_nil, hweight, one_mul, add_zero]
  exact clamp_of_mem hmem.1 hmem.2

/-- One engine agrees with itself. -/
theorem confidence_of_analyzed (h : c.technical = .analyzed (some score) finished)
    (hlevel : c.level finished ≠ .suppressed) :
    (c.input texts instrument).confidence (clamp score (-1) 1) =
      100 - defaultReduction (c.level finished) := by
  unfold SynthesisInput.confidence
  rw [stalenessLevel_of_analyzed texts instrument h, normalized_of_analyzed texts instrument h]
  have hraw : clamp (100 * (1 - min (0 : ℚ) 1)) 0 100 = 100 := by norm_num [clamp]
  simp only [List.map_cons, List.map_nil, List.sum_cons, List.sum_nil, sub_self, abs_zero, add_zero,
    zero_div, hraw]
  generalize c.level finished = level at hlevel ⊢
  cases level
  all_goals first | exact absurd rfl hlevel | decide +kernel

/-- What the synthesizer makes of the technical engine alone. -/
theorem response_eq (h : c.technical = .analyzed (some score) finished)
    (hlevel : c.level finished ≠ .suppressed) :
    (c.response texts instrument).status = .ok ∧
      (c.response texts instrument).action = some (actionFor (clamp score (-1) 1)) ∧
      (c.response texts instrument).confidence = some (100 - defaultReduction (c.level finished)) ∧
      (c.response texts instrument).compositeScore = some (clamp score (-1) 1) ∧
      (c.response texts instrument).rationale =
        some (templateExplainer texts (technicalContext score (c.level finished) instrument.symbol)).1 ∧
      (c.response texts instrument).expiresAt = some (c.now + recommendationTtl) ∧
      (c.response texts instrument).explainerUsed = some "template" ∧
      (c.response texts instrument).aiBlended = false := by
  have hnormalized := normalized_of_analyzed texts instrument h
  have hstale := stalenessLevel_of_analyzed texts instrument h
  unfold GenerateCall.response synthesize
  rw [if_neg (by rw [hnormalized]; simp), if_neg (by rw [hstale]; exact hlevel)]
  simp only [composite_of_analyzed texts instrument h, confidence_of_analyzed texts instrument h hlevel,
    hnormalized]
  have hblend : ∀ w shadow, ((c.input texts instrument).blend ⟨none, w, shadow⟩).aiBlended = false :=
    fun w shadow => by rw [SynthesisInput.blend, blendAi_of_none]
  exact ⟨trivial, trivial, trivial, trivial, rfl, rfl, rfl, hblend _ _⟩

theorem response_stale (h : ∀ score finished, c.technical = .analyzed (some score) finished →
    c.level finished = .suppressed) : (c.response texts instrument).status = .stale := by
  apply (synthesize_stale _).1
  cases htechnical : c.technical with
  | raised => exact Or.inl (normalized_of_none texts instrument (by rw [htechnical]; rfl))
  | noBars => exact Or.inl (normalized_of_none texts instrument (by rw [htechnical]; rfl))
  | analyzed compositeScore finished =>
    cases compositeScore with
    | none => exact Or.inl (normalized_of_none texts instrument (by rw [htechnical]; rfl))
    | some score =>
      right
      rw [stalenessLevel_of_analyzed texts instrument htechnical]
      exact h score finished htechnical

end Response

/-! ## Calls -/

section Calls

variable (texts : FloatTexts) (instruments : UUID → Option Instrument)

/-- The call recommends something, on a score whose analysis was at a level. -/
structure GenerateCall.Recommends (c : GenerateCall) (instrument : Instrument) (score : ℚ)
    (finished : ℤ) : Prop where
  found : instruments c.instrumentId = some instrument
  analyzed : c.technical = .analyzed (some score) finished
  fresh : c.level finished ≠ .suppressed
  commits : c.commits = true

/-- The row of a recommendation. -/
def GenerateCall.row (c : GenerateCall) (instrument : Instrument) (score : ℚ) (finished : ℤ) :
    Recommendation where
  id := c.recommendationId
  userId := c.userId
  instrumentId := instrument.id
  recommendationType := actionFor (clamp score (-1) 1)
  rationale := (templateExplainer texts (technicalContext score (c.level finished) instrument.symbol)).1
  confidenceScore := 100 - defaultReduction (c.level finished)
  expiresAt := c.now + recommendationTtl
  status := "pending"
  createdAt := c.createdAt

/-- The row of its audit. -/
def GenerateCall.audit (c : GenerateCall) (instrument : Instrument) (score : ℚ) (finished : ℤ) :
    GeneratedAudit where
  userId := c.userId
  instrumentId := instrument.id.str
  action := actionFor (clamp score (-1) 1)
  confidence := some (100 - defaultReduction (c.level finished))
  compositeScore := some (clamp score (-1) 1)
  explainerUsed := some "template"
  aiBlended := false
  shadowMode := resolveShadowMode c.settings

/-- The two rows that a call adds. -/
def GenerateCall.rows (c : GenerateCall) : List (Recommendation × GeneratedAudit) :=
  match instruments c.instrumentId, c.technical with
  | some instrument, .analyzed (some score) finished =>
    if c.level finished ≠ .suppressed ∧ c.commits = true then
      [(c.row texts instrument score finished, c.audit instrument score finished)]
    else []
  | _, _ => []

/-- The task that a call sends. -/
def GenerateCall.tasks (c : GenerateCall) : List AiTask :=
  if c.settings.aiAnalysisEnabled && c.dispatches then (instruments c.instrumentId).toList.map aiTask else
    []

theorem mem_rows {c : GenerateCall} {p : Recommendation × GeneratedAudit} :
    p ∈ c.rows texts instruments ↔ ∃ instrument score finished,
      c.Recommends instruments instrument score finished ∧
      p = (c.row texts instrument score finished, c.audit instrument score finished) := by
  unfold GenerateCall.rows
  constructor
  · intro h
    split at h
    · rename_i instrument score finished hfound htechnical
      split_ifs at h with hcond
      · exact ⟨instrument, score, finished, ⟨hfound, htechnical, hcond.1, hcond.2⟩, List.mem_singleton.mp h⟩
      · cases h
    · cases h
  · rintro ⟨instrument, score, finished, hrec, rfl⟩
    simp only [hrec.found, hrec.analyzed]
    rw [if_pos ⟨hrec.fresh, hrec.commits⟩]
    exact List.mem_singleton.mpr rfl

/-- A whole number is its own rounding. -/
theorem twoDecimals_confidence (level : StalenessLevel) :
    twoDecimals (100 - defaultReduction level) = 100 - defaultReduction level := by
  cases level <;> decide +kernel

/-- What a call adds to the store. -/
theorem generate_eq (c : GenerateCall) (s : RecommendationStore) :
    (generateRecommendation texts instruments c s).2 =
      ⟨s.recommendations ++ (c.rows texts instruments).map Prod.fst,
        s.auditLog ++ (c.rows texts instruments).map Prod.snd, s.aiTasks ++ c.tasks instruments⟩ := by
  cases hfound : instruments c.instrumentId with
  | none => simp [generateRecommendation, GenerateCall.rows, GenerateCall.tasks, hfound]
  | some instrument =>
    have htasks : ∀ s : RecommendationStore,
        (if c.settings.aiAnalysisEnabled && c.dispatches then
          { s with aiTasks := s.aiTasks ++ [aiTask instrument] }
          else s) = { s with aiTasks := s.aiTasks ++ c.tasks instruments } := fun s => by
      unfold GenerateCall.tasks
      rw [hfound]
      split_ifs
      · rfl
      · rw [List.append_nil]
    unfold generateRecommendation
    simp only [hfound, htasks]
    by_cases h : ∃ score finished, c.technical = .analyzed (some score) finished ∧
      c.level finished ≠ .suppressed
    · obtain ⟨score, finished, htechnical, hfresh⟩ := h
      obtain ⟨hstatus, haction, hconfidence, hcomposite, hrationale, hexpires, hexplainer, hblended⟩ :=
        response_eq texts instrument htechnical hfresh
      have hrows : c.rows texts instruments = if c.commits = true then
          [(c.row texts instrument score finished, c.audit instrument score finished)] else [] := by
        unfold GenerateCall.rows
        simp only [hfound, htechnical, hfresh, ne_eq, not_false_eq_true, true_and]
      simp only [hstatus, haction, hexpires, hconfidence, hcomposite, hrationale, hexplainer, hblended,
        Option.getD_some, twoDecimals_confidence]
      rw [hrows]
      split_ifs
      · rfl
      · simp
    · have hstale : (c.response texts instrument).status = .stale := by
        apply response_stale texts instrument
        intro score finished htechnical
        by_contra hfresh
        exact h ⟨score, finished, htechnical, hfresh⟩
      have hrows : c.rows texts instruments = [] := by
        rw [List.eq_nil_iff_forall_not_mem]
        intro p hp
        obtain ⟨instrument', score, finished, hrec, -⟩ := (mem_rows texts instruments).mp hp
        exact h ⟨score, finished, hrec.analyzed, hrec.fresh⟩
      simp only [hstale, hrows, List.map_nil, List.append_nil]

/-- What is in the store after calls. -/
theorem storeAfter_eq (calls : List GenerateCall) : storeAfter texts instruments calls =
    ⟨(calls.flatMap (GenerateCall.rows texts instruments)).map Prod.fst,
      (calls.flatMap (GenerateCall.rows texts instruments)).map Prod.snd,
      calls.flatMap (GenerateCall.tasks instruments)⟩ := by
  unfold storeAfter
  induction calls using List.reverseRecOn with
  | nil => rfl
  | append_singleton calls c ih =>
    rw [List.foldl_append, ih, List.foldl_cons, List.foldl_nil, generate_eq]
    simp [List.flatMap_append]

/-! ## Runs -/

/-- The audit tells of the recommendation, without a share of the AI. -/
structure GeneratedAudit.Records (r : Recommendation) (a : GeneratedAudit) : Prop where
  userId : a.userId = r.userId
  instrumentId : a.instrumentId = r.instrumentId.str
  action : a.action = r.recommendationType
  confidence : a.confidence = some r.confidenceScore
  aiBlended : a.aiBlended = false

/-- The calls differ at most in what concerns the AI analysis. -/
structure GenerateCall.SameButForAi (c c' : GenerateCall) : Prop where
  userId : c.userId = c'.userId
  instrumentId : c.instrumentId = c'.instrumentId
  staleness : c.settings.staleness = c'.settings.staleness
  now : c.now = c'.now
  technical : c.technical = c'.technical
  recommendationId : c.recommendationId = c'.recommendationId
  createdAt : c.createdAt = c'.createdAt
  commits : c.commits = c'.commits

omit instruments in
theorem audit_records (c : GenerateCall) (instrument : Instrument) (score : ℚ) (finished : ℤ) :
    GeneratedAudit.Records (c.row texts instrument score finished) (c.audit instrument score finished) :=
  ⟨rfl, rfl, rfl, rfl, rfl⟩

theorem rows_sameButForAi {c c' : GenerateCall} (h : c.SameButForAi c') :
    (c.rows texts instruments).map Prod.fst = (c'.rows texts instruments).map Prod.fst := by
  have hlevel : c.level = c'.level := by
    funext finished
    unfold GenerateCall.level
    rw [h.staleness, h.now]
  have hrow : c.row texts = c'.row texts := by
    funext instrument score finished
    unfold GenerateCall.row
    rw [hlevel, h.recommendationId, h.userId, h.now, h.createdAt]
  unfold GenerateCall.rows
  rw [h.instrumentId, h.technical, h.commits, hlevel, hrow]
  split
  · split_ifs <;> rfl
  · rfl

theorem resolveShadowMode_eq_false {settings : AiSettings} (h : resolveShadowMode settings = false) :
    settings.aiAnalysisShadowMode = false ∧
      (settings.environment = "production" → settings.aiAnalysisLegalReviewApproved = true) := by
  unfold resolveShadowMode at h
  split_ifs at h with hgate
  refine ⟨h, fun hproduction => ?_⟩
  simpa [hproduction, h] using hgate

theorem mem_listRecommendations {s : RecommendationStore} {user : UUID} {now : ℤ} {r : Recommendation} :
    r ∈ listRecommendations s user now ↔ r ∈ s.recommendations ∧ r.userId = user ∧ now < r.expiresAt := by
  unfold listRecommendations
  rw [List.mem_insertionSort, List.mem_filter, decide_eq_true_eq]

/--
In any run of calls a recommendation and its audit are stored together. A user is listed, the newest
first, the own recommendations of the last 24 hours: those of the technical score alone, for which no
setting of the AI analysis makes a difference. Out of the shadow mode, production has an approval.
-/
theorem recommendations_of_run (calls : List GenerateCall) (user : UUID) (now : ℤ) :
    let s := storeAfter texts instruments calls
    List.Forall₂ GeneratedAudit.Records s.recommendations s.auditLog ∧
    (∀ r, r ∈ listRecommendations s user now ↔ ∃ c ∈ calls, ∃ instrument score finished,
      c.Recommends instruments instrument score finished ∧ c.userId = user ∧ now < c.now +
        recommendationTtl ∧
        r = c.row texts instrument score finished) ∧
    (listRecommendations s user now).Pairwise (fun r r' => r'.createdAt ≤ r.createdAt) ∧
    (listRecommendations s user now).Perm
      (s.recommendations.filter fun r => r.userId = user ∧ now < r.expiresAt) ∧
    (∀ a ∈ s.auditLog, a.shadowMode = false → ∃ c ∈ calls, c.userId = a.userId ∧
      c.settings.aiAnalysisShadowMode = false ∧
      (c.settings.environment = "production" → c.settings.aiAnalysisLegalReviewApproved = true)) ∧
    ∀ calls', List.Forall₂ GenerateCall.SameButForAi calls calls' →
      (storeAfter texts instruments calls').recommendations = s.recommendations := by
  intro s
  have hs : s = _ := storeAfter_eq texts instruments calls
  have hpairs : ∀ p ∈ calls.flatMap (GenerateCall.rows texts instruments), ∃ c ∈ calls,
    ∃ instrument score finished,
      c.Recommends instruments instrument score finished ∧
        p = (c.row texts instrument score finished, c.audit instrument score finished) := fun p hp => by
    obtain ⟨c, hc, hp⟩ := List.mem_flatMap.mp hp
    exact ⟨c, hc, (mem_rows texts instruments).mp hp⟩
  refine ⟨?_, ?_, ?_, ?_, ?_, ?_⟩
  · rw [hs, List.forall₂_map_left_iff, List.forall₂_map_right_iff, List.forall₂_same]
    intro p hp
    obtain ⟨c, -, instrument, score, finished, hrec, rfl⟩ := hpairs p hp
    exact audit_records texts c instrument score finished
  · intro r
    rw [mem_listRecommendations, hs, List.mem_map]
    constructor
    · rintro ⟨⟨p, hp, rfl⟩, huser, hnow⟩
      obtain ⟨c, hc, instrument, score, finished, hrec, rfl⟩ := hpairs p hp
      exact ⟨c, hc, instrument, score, finished, hrec, huser, hnow, rfl⟩
    · rintro ⟨c, hc, instrument, score, finished, hrec, huser, hnow, rfl⟩
      have hmem := (mem_rows texts instruments).mpr ⟨instrument, score, finished, hrec, rfl⟩
      exact ⟨⟨_, List.mem_flatMap.mpr ⟨c, hc, hmem⟩, rfl⟩, huser, hnow⟩
  · exact List.pairwise_insertionSort _ _
  · exact List.perm_insertionSort _ _
  · intro a ha hshadow
    rw [hs, List.mem_map] at ha
    obtain ⟨p, hp, rfl⟩ := ha
    obtain ⟨c, hc, instrument, score, finished, hrec, rfl⟩ := hpairs p hp
    exact ⟨c, hc, rfl, resolveShadowMode_eq_false hshadow⟩
  · intro calls' hsame
    rw [hs, storeAfter_eq]
    show List.map Prod.fst _ = List.map Prod.fst _
    clear hs hpairs
    induction hsame with
    | nil => rfl
    | cons hc _ ih =>
        simp only [List.flatMap_cons, List.map_append, ih, rows_sameButForAi texts instruments hc]

end Calls

end Nivara.Intelligence
