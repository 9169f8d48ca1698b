import Nivara.Common.Json
import Nivara.Intelligence.Recommendations
import Nivara.Intelligence.ShadowRun

/-!
# The worker of the AI analysis

What becomes of the tasks that `generate_recommendation` sends: `run` (`tasks/ai_analysis.py`, lines
28–56), the two providers (`intelligence/ai_analysis/claude_cli.py`, lines 35–86, and `api.py`, lines
28–96) and what they make of a reply (`base.py`, lines 26–64).

* What the process or the service comes to is an input of a task, with the texts of its exceptions.
* `json.loads`, `float` of an integer or a text, and `str` are parameters.
* Arithmetic is exact.

Results:

* `parseProviderJson_cases`: what `parse_provider_json` returns and raises.
* `analyze_cli_eq_ok`, `analyze_api_eq_ok`: when a provider has a result.
* `aiTasks_logged`: every task leaves one row, which tells how its provider fared.
-/

namespace Nivara.Intelligence

open Portfolio (Instrument)

/-! ## Readers -/

/-- What `json.loads` raises. -/
inductive LoadError
  /-- A `JSONDecodeError`. -/
  | decode (text : String)
  /-- Another exception, such as for a value that is nested too deep. -/
  | other (text : String)

/-- A double. -/
inductive Double
  | nan
  | infinity (negative : Bool)
  | finite (x : ℚ)

/-- What the interpreter makes of values; `F` are the doubles of a JSON text. -/
structure Interpreter (F : Type) where
  loads : PyStr → Except LoadError (Json F)
  floats : Floats F
  double : F → Double
  /-- `float(n)`; `none` is an `OverflowError`. -/
  ofInt : ℤ → Option Double
  /-- `float(text)`; `none` is a `ValueError`. -/
  ofText : PyStr → Option Double
  /-- `str(v)`. -/
  str : Json F → String
  /-- The `str` of the exception that a reply causes in the validators. -/
  invalid : Json F → String

/-- `max(0.0, min(1.0, f))`; `none` for NaN, which is a `ValueError`. -/
def Double.clampUnit : Double → Option ℚ
  | .nan => none
  | .infinity negative => some (if negative then 0 else 1)
  | .finite x => some (clamp x 0 1)

section Model

variable {F : Type} (py3 : Interpreter F)

/-- `float(v)`. -/
def Interpreter.toDouble : Json F → Option Double
  | .bool b => some (.finite (if b then 1 else 0))
  | .int n => py3.ofInt n
  | .float x => some (py3.double x)
  | .str s => py3.ofText s
  | .null => none
  | .arr _ => none
  | .obj _ => none

/-- `_clamp_unit_interval`. -/
def Interpreter.unit (v : Json F) : Option ℚ := (py3.toDouble v).bind Double.clampUnit

/-- `data.get(key, default)`. -/
def getOr (members : List (PyStr × Json F)) (key : String) (default : Json F) : Json F :=
  (members.lookup (py key)).getD default

/-- `parse_provider_json`. -/
def parseProviderJson (raw : PyStr) : Except ShadowException (List (PyStr × Json F)) :=
  match py3.loads raw with
  | .error (.decode text) => .error (.aiAnalysisError ("invalid JSON from provider: " ++ text))
  | .error (.other text) => .error (.other text)
  | .ok data =>
    let missing : Except ShadowException (List (PyStr × Json F)) :=
      .error (.aiAnalysisError "provider JSON missing required keys")
    match data with
    | .obj members =>
      if (members.lookup (py "outlook")).isSome then .ok members
      else
        match members.lookup (py "result") with
        | some (.str text) =>
          match py3.loads text with
          | .error (.decode text) => .error (.aiAnalysisError ("invalid JSON in result wrapper: " ++ text))
          | .error (.other text) => .error (.other text)
          | .ok (.obj inner) => .ok inner
          | .ok _ => missing
        | _ => missing
    | _ => missing

/-- The three scores of a reply, a missing one being 0. -/
def Interpreter.scores (members : List (PyStr × Json F)) : Option AiAnalysisOutput :=
  match py3.unit (getOr members "outlook" (.int 0)), py3.unit (getOr members "risks" (.int 0)),
    py3.unit (getOr members "confidence" (.int 0)) with
  | some outlook, some risks, some confidence => some (.ofFloats outlook risks confidence)
  | _, _, _ => none

/-- `AiAnalysisResult(…)`; `none` where it raises. -/
def Interpreter.result (members : List (PyStr × Json F)) (promptTokens completionTokens : Option ℤ)
    (latencyMs : ℤ) (modelName : String) : Option AiAnalysisResult :=
  match py3.scores members, promptTokens, completionTokens with
  | some scores, some promptTokens, some completionTokens => some
    { scores with
      rationale := py3.str (getOr members "rationale" (.str []))
      promptTokens := promptTokens
      completionTokens := completionTokens
      latencyMs := latencyMs
      modelName := modelName }
  | _, _, _ => none

/-- What both providers make of a reply; `who` begins the text of an exception of the validators. -/
def readReply (who : String) (raw : PyStr)
    (promptTokens completionTokens : List (PyStr × Json F) → Option ℤ)
    (latencyMs : ℤ) (modelName : String) : Except ShadowException AiAnalysisResult :=
  match parseProviderJson py3 raw with
  | .error e => .error e
  | .ok data =>
    match py3.result data (promptTokens data) (completionTokens data) latencyMs modelName with
    | some result => .ok result
    | none => .error (.aiAnalysisError (who ++ " output validation failed: " ++ py3.invalid (.obj data)))

/-- `int(data.get(key, 0))`. -/
def Interpreter.tokens (key : String) (data : List (PyStr × Json F)) : Option ℤ :=
  ((getOr data key (.int 0)).toInt py3.floats).toOption

/-! ## The process -/

/-- What the process of the CLI comes to. -/
inductive ProcessRun
  /-- A `FileNotFoundError`. -/
  | missing (text : String)
  /-- Another exception of the spawn. -/
  | notSpawned (text : String)
  | timedOut
  /-- Another exception of `communicate`. -/
  | transport (text : String)
  | exited (returncode : ℤ) (stdout : PyStr) (stderr : String) (latencyMs : ℤ)

/-- `ClaudeCliAnalyzer.analyze`. -/
def claudeCli (binary modelName : String) (process : String → PyStr → ℚ → ProcessRun) :
    AiAnalysisProvider where
  providerName := "claude_cli"
  analyze prompt timeoutS :=
    match process binary prompt timeoutS with
    | .missing text => .error (.aiAnalysisError ("claude CLI not found: " ++ text))
    | .notSpawned text => .error (.other text)
    | .timedOut => .error (.aiAnalysisError "claude CLI timed out")
    | .transport text => .error (.aiAnalysisError ("claude CLI transport error: " ++ text))
    | .exited returncode stdout stderr latencyMs =>
      if returncode ≠ 0 then
        .error (.aiAnalysisError s!"claude CLI exited {returncode}: {first500 stderr}")
      else
        readReply py3 "claude CLI" stdout (py3.tokens "prompt_tokens") (py3.tokens "completion_tokens")
          latencyMs
          modelName

/-! ## The service -/

/-- A block of a message: its type, and the text it has. -/
structure ContentBlock where
  type : Option String
  text : Option PyStr

/-- A message; the content is `none` where reading it raises. -/
structure Message where
  content : Except String (List ContentBlock)
  inputTokens : ℤ
  outputTokens : ℤ

/-- The text of the first text block (lines 67–80). -/
def Message.firstText (message : Message) : Except ShadowException PyStr :=
  match message.content with
  | .error text => .error (.aiAnalysisError ("anthropic API response malformed: " ++ text))
  | .ok blocks =>
    match ((blocks.find? (·.type = some "text")).bind (·.text)).filter (· ≠ []) with
    | none => .error (.aiAnalysisError "anthropic API returned no text content")
    | some text => .ok text

/-- What the SDK comes to. -/
inductive ServiceRun
  /-- An `ImportError`. -/
  | notInstalled
  /-- The client is not made. -/
  | noClient (text : String)
  | timedOut
  /-- Another exception of the request. -/
  | failed (text : String)
  | answered (message : Message) (latencyMs : ℤ)

/-- `ApiAnalyzer.analyze`. -/
def apiAnalyzer (apiKey : Option String) (modelName : String) (service : PyStr → ℚ → ServiceRun) :
    AiAnalysisProvider where
  providerName := "api"
  analyze prompt timeoutS :=
    if apiKey.all (· = "") then .error (.aiAnalysisError "anthropic api_key not configured")
    else
      match service prompt timeoutS with
      | .notInstalled => .error (.aiAnalysisError "anthropic SDK not installed")
      | .noClient text => .error (.other text)
      | .timedOut => .error (.aiAnalysisError "anthropic API timed out")
      | .failed text => .error (.aiAnalysisError ("anthropic API error: " ++ text))
      | .answered message latencyMs =>
        match message.firstText with
        | .error e => .error e
        | .ok text =>
          readReply py3 "anthropic API" text (fun _ => some message.inputTokens)
            (fun _ => some message.outputTokens) latencyMs modelName

/-! ## The task -/

/-- What the task reads of the settings. -/
structure WorkerSettings where
  aiAnalysisProvider : String
  anthropicApiKey : Option String
  aiAnalysisTimeoutS : ℚ
  aiAnalysisShadowMode : Bool

/-- What happens in a task. -/
structure TaskRun where
  settings : WorkerSettings
  process : String → PyStr → ℚ → ProcessRun
  service : PyStr → ℚ → ServiceRun
  outcomes : SessionOutcomes

/-- `_build_provider`. -/
def TaskRun.buildProvider (x : TaskRun) : AiAnalysisProvider :=
  if x.settings.aiAnalysisProvider = "api" then
    apiAnalyzer py3 x.settings.anthropicApiKey "claude-3-5-sonnet-latest" x.service
  else claudeCli py3 "claude" "claude-cli" x.process

variable {J : Type} (lower : String → String) (dump : AiAnalysisResult → J)

/-- `run`, with the table `ai_analysis_log` afterwards; an exception of the task is caught. -/
def runTask (log : List (AiAnalysisLog J)) (work : AiTask × TaskRun) : List (AiAnalysisLog J) :=
  let (task, x) := work
  let instrumentId : Option (Option UUID) :=
    if task.instrumentId = "" then some none else (UUID.parse task.instrumentId).map some
  match instrumentId with
  | none => log
  | some instrumentId =>
    (runShadowAnalysis lower (fun result => .ok (dump result)) (x.buildProvider py3) x.outcomes
      ⟨log, [], []⟩
      instrumentId (py task.prompt) task.requestType x.settings.aiAnalysisTimeoutS
      x.settings.aiAnalysisShadowMode).2.committed

end Model

/-! ## What a reply comes to -/

section Reply

variable {F : Type} (py3 : Interpreter F)

/-- The object that a text holds, bare or wrapped. -/
def Interpreter.Holds (raw : PyStr) (data : List (PyStr × Json F)) : Prop :=
  (py3.loads raw = .ok (.obj data) ∧ (data.lookup (py "outlook")).isSome) ∨
    ∃ members text, py3.loads raw = .ok (.obj members) ∧ members.lookup (py "outlook") = none ∧
      members.lookup (py "result") = some (.str text) ∧ py3.loads text = .ok (.obj data)

theorem parseProviderJson_eq_ok {raw : PyStr} {data : List (PyStr × Json F)} :
    parseProviderJson py3 raw = .ok data ↔ py3.Holds raw data := by
  unfold parseProviderJson Interpreter.Holds
  cases hraw : py3.loads raw with
  | error e => cases e <;> simp
  | ok v =>
    cases v with
    | obj members =>
      cases houtlook : members.lookup (py "outlook") with
      | some outlook =>
        simp only [houtlook, Option.isSome_some, if_true, Except.ok.injEq, Json.obj.injEq]
        constructor
        · rintro rfl
          exact Or.inl ⟨rfl, by rw [houtlook]; rfl⟩
        · rintro (⟨rfl, -⟩ | ⟨members', text, rfl, hnone, -⟩)
          · rfl
          · rw [houtlook] at hnone
            cases hnone
      | none =>
        simp only [houtlook, Option.isSome_none, Bool.false_eq_true, if_false]
        have hbare : ¬ ((Except.ok (Json.obj members) : Except LoadError (Json F)) = .ok (.obj data) ∧
            (data.lookup (py "outlook")).isSome) := by
          rintro ⟨hdata, hsome⟩
          cases hdata
          rw [houtlook] at hsome
          cases hsome
        rw [or_iff_right hbare]
        constructor
        · intro h
          split at h
          · rename_i text hresult
            refine ⟨members, text, rfl, houtlook, hresult, ?_⟩
            cases hinner : py3.loads text with
            | error e =>
              rw [hinner] at h
              cases e <;> cases h
            | ok v =>
              rw [hinner] at h
              cases v <;> cases h
              rfl
          · cases h
        · rintro ⟨members', text, hmembers, -, hresult, hinner⟩
          cases hmembers
          simp only [hresult, hinner]
    | _ => simp

/-- When a reply has a result. -/
theorem readReply_eq_ok (who : String) (raw : PyStr)
    (promptTokens completionTokens : List (PyStr × Json F) → Option ℤ)
    (latencyMs : ℤ) (modelName : String) (scores : AiAnalysisOutput) :
    (∃ result, readReply py3 who raw promptTokens completionTokens latencyMs modelName = .ok result ∧
      result.toAiAnalysisOutput = scores) ↔
        ∃ data, py3.Holds raw data ∧ py3.scores data = some scores ∧ (promptTokens data).isSome ∧
          (completionTokens data).isSome := by
  unfold readReply
  simp only [← parseProviderJson_eq_ok]
  cases parseProviderJson py3 raw with
  | error e => simp
  | ok data =>
    simp only [Except.ok.injEq, exists_eq_left']
    unfold Interpreter.result
    cases py3.scores data with
    | none => simp
    | some scores' =>
      cases promptTokens data with
      | none => simp
      | some promptTokens => cases completionTokens data <;> simp

/-- The CLI answers with the scores. -/
def CliAnswers (process : String → PyStr → ℚ → ProcessRun) (binary : String) (prompt : PyStr) (timeoutS : ℚ)
    (scores : AiAnalysisOutput) : Prop :=
  ∃ stdout stderr latencyMs, process binary prompt timeoutS = .exited 0 stdout stderr latencyMs ∧
    ∃ data, py3.Holds stdout data ∧ py3.scores data = some scores ∧
      (py3.tokens "prompt_tokens" data).isSome ∧ (py3.tokens "completion_tokens" data).isSome

/-- The service answers with the scores. -/
def ApiAnswers (apiKey : Option String) (service : PyStr → ℚ → ServiceRun) (prompt : PyStr) (timeoutS : ℚ)
    (scores : AiAnalysisOutput) : Prop :=
  (∃ key, apiKey = some key ∧ key ≠ "") ∧
    ∃ message latencyMs, service prompt timeoutS = .answered message latencyMs ∧
      ∃ text, message.firstText = .ok text ∧ ∃ data, py3.Holds text data ∧ py3.scores data = some scores

theorem analyze_cli_eq_ok (binary modelName : String) (process : String → PyStr → ℚ → ProcessRun)
    (prompt : PyStr)
    (timeoutS : ℚ) (scores : AiAnalysisOutput) :
    (∃ result, (claudeCli py3 binary modelName process).analyze prompt timeoutS = .ok result ∧
      result.toAiAnalysisOutput = scores) ↔ CliAnswers py3 process binary prompt timeoutS scores := by
  unfold claudeCli CliAnswers
  dsimp only
  cases process binary prompt timeoutS with
  | exited returncode stdout stderr latencyMs =>
    dsimp only
    by_cases hcode : returncode = 0
    · subst hcode
      rw [if_neg (not_not_intro rfl), readReply_eq_ok]
      constructor
      · exact fun h => ⟨stdout, stderr, latencyMs, rfl, h⟩
      · rintro ⟨stdout', stderr', latencyMs', hrun, h⟩
        cases hrun
        exact h
    · rw [if_pos hcode]
      simp [hcode]
  | _ => simp

theorem analyze_api_eq_ok (apiKey : Option String) (modelName : String) (service : PyStr → ℚ → ServiceRun)
    (prompt : PyStr) (timeoutS : ℚ) (scores : AiAnalysisOutput) :
    (∃ result, (apiAnalyzer py3 apiKey modelName service).analyze prompt timeoutS = .ok result ∧
      result.toAiAnalysisOutput = scores) ↔ ApiAnswers py3 apiKey service prompt timeoutS scores := by
  have hkey : apiKey.all (· = "") = false ↔ ∃ key, apiKey = some key ∧ key ≠ "" := by
    cases apiKey <;> simp
  unfold apiAnalyzer ApiAnswers
  dsimp only
  rw [← hkey]
  cases apiKey.all (· = "") with
  | true => simp
  | false =>
    rw [if_neg Bool.false_ne_true]
    simp only [true_and]
    cases service prompt timeoutS with
    | answered message latencyMs =>
      simp only [ServiceRun.answered.injEq, and_assoc, exists_and_left, exists_eq_left']
      cases message.firstText with
      | error e => simp
      | ok text =>
        simp only [readReply_eq_ok, Except.ok.injEq, exists_eq_left', Option.isSome_some, and_true]
    | _ => simp

end Reply

/-! ## Rows of the log -/

section Rows

variable {F J : Type} (py3 : Interpreter F) (lower : String → String) (dump : AiAnalysisResult → J)
    (x : TaskRun)

/-- The provider of a task answers with the scores. -/
def TaskRun.Answers (prompt : PyStr) (scores : AiAnalysisOutput) : Prop :=
  if x.settings.aiAnalysisProvider = "api" then
    ApiAnswers py3 x.settings.anthropicApiKey x.service prompt x.settings.aiAnalysisTimeoutS scores
  else CliAnswers py3 x.process "claude" prompt x.settings.aiAnalysisTimeoutS scores

/-- It is stopped at the time limit. -/
def TaskRun.TimesOut (prompt : PyStr) : Prop :=
  if x.settings.aiAnalysisProvider = "api" then
    (∃ key, x.settings.anthropicApiKey = some key ∧ key ≠ "") ∧
      x.service prompt x.settings.aiAnalysisTimeoutS = .timedOut
  else x.process "claude" prompt x.settings.aiAnalysisTimeoutS = .timedOut

/-- The prompt that the provider is sent. -/
def AiTask.sent (task : AiTask) : PyStr := redactPii (sanitizePrompt (py task.prompt) 4000)

theorem analyze_eq_ok (prompt : PyStr) (scores : AiAnalysisOutput) :
    (∃ result, (x.buildProvider py3).analyze prompt x.settings.aiAnalysisTimeoutS = .ok result ∧
      result.toAiAnalysisOutput = scores) ↔ x.Answers py3 prompt scores := by
  unfold TaskRun.buildProvider TaskRun.Answers
  split_ifs
  · exact analyze_api_eq_ok py3 _ _ _ _ _ _
  · exact analyze_cli_eq_ok py3 _ _ _ _ _ _

theorem analyze_of_timesOut {prompt : PyStr} (h : x.TimesOut prompt) :
    ∃ text, (text = "claude CLI timed out" ∨ text = "anthropic API timed out") ∧
      (x.buildProvider py3).analyze prompt x.settings.aiAnalysisTimeoutS =
        .error (.aiAnalysisError text) := by
  unfold TaskRun.TimesOut at h
  unfold TaskRun.buildProvider
  split_ifs at h ⊢
  · obtain ⟨⟨key, hkey, hne⟩, hservice⟩ := h
    refine ⟨_, Or.inr rfl, ?_⟩
    simp [apiAnalyzer, hkey, hne, hservice]
  · refine ⟨_, Or.inl rfl, ?_⟩
    simp [claudeCli, h]

/-- The row that a task adds. -/
def TaskRun.row (task : AiTask) (instrumentId : Option UUID) : AiAnalysisLog J :=
  (telemetry lower (fun result => .ok (dump result)) (x.buildProvider py3) task.sent
    x.settings.aiAnalysisTimeoutS).row task.requestType x.settings.aiAnalysisShadowMode instrumentId

/-- The row is kept. -/
def TaskRun.Persists : Bool := x.outcomes.add.isNone && x.outcomes.commit.isNone

theorem committed_runShadowAnalysis (log : List (AiAnalysisLog J)) (task : AiTask)
    (instrumentId : Option UUID) :
    (runShadowAnalysis lower (fun result => .ok (dump result)) (x.buildProvider py3) x.outcomes
      ⟨log, [], []⟩
      instrumentId (py task.prompt) task.requestType x.settings.aiAnalysisTimeoutS
      x.settings.aiAnalysisShadowMode).2.committed =
        log ++ if x.Persists then [x.row py3 lower dump task instrumentId] else [] := by
  unfold runShadowAnalysis TaskRun.Persists TaskRun.row AiTask.sent
  cases hadd : x.outcomes.add with
  | some e => simp [LogSession.add, committed_rollback]
  | none =>
    cases hcommit : x.outcomes.commit with
    | some e => simp [LogSession.add, LogSession.commit, committed_rollback]
    | none => simp [LogSession.add, LogSession.commit]

/-- The row tells how the provider fared. -/
structure AiAnalysisLog.TellsOf (task : AiTask) (row : AiAnalysisLog J) : Prop where
  requestType : row.requestType = task.requestType
  shadowMode : row.shadowMode = x.settings.aiAnalysisShadowMode
  answered : ∀ scores, x.Answers py3 task.sent scores → row.status = .success ∧
    ∃ score, row.aiScore = some score ∧ -1 ≤ score ∧ score ≤ 1 ∧
      score = fourDecimals (aiScoreFromOutput scores.outlook scores.risks scores.confidence)
  unanswered : (∀ scores, ¬ x.Answers py3 task.sent scores) →
    row.status ≠ .success ∧ row.aiScore = none ∧ row.resultJson = none ∧ row.errorMessage.isSome
  timedOut : x.TimesOut task.sent → row.status = .timeout

theorem fourDecimals_mem (scores : AiAnalysisOutput) :
    -1 ≤ fourDecimals (aiScoreFromOutput scores.outlook scores.risks scores.confidence) ∧
      fourDecimals (aiScoreFromOutput scores.outlook scores.risks scores.confidence) ≤ 1 := by
  obtain ⟨ho, ho'⟩ := scores.outlook_mem
  obtain ⟨hr, hr'⟩ := scores.risks_mem
  obtain ⟨hc, hc'⟩ := scores.confidence_mem
  have hbullish : 0 ≤ (scores.outlook + (1 - scores.risks)) / 2 ∧
    (scores.outlook + (1 - scores.risks)) / 2 ≤ 1 := by
    constructor <;> linarith
  have hlo : 0 ≤ (scores.outlook + (1 - scores.risks)) / 2 * scores.confidence := mul_nonneg hbullish.1 hc
  have hhi : (scores.outlook + (1 - scores.risks)) / 2 * scores.confidence ≤ 1 :=
    mul_le_one₀ hbullish.2 hc hc'
  have hscore : aiScoreFromOutput scores.outlook scores.risks scores.confidence =
      2 * ((scores.outlook + (1 - scores.risks)) / 2 * scores.confidence) - 1 := rfl
  generalize aiScoreFromOutput scores.outlook scores.risks scores.confidence = score at hscore ⊢
  have hround : (-10 ^ 4 : ℤ) ≤ Decimal.roundHalfEven (score * 10 ^ 4) ∧
      Decimal.roundHalfEven (score * 10 ^ 4) ≤ (10 ^ 4 : ℤ) := by
    apply Decimal.roundHalfEven_mem
    · push_cast
      linarith
    · push_cast
      linarith
  have hround_lo : ((-10 ^ 4 : ℤ) : ℚ) ≤ Decimal.roundHalfEven (score * 10 ^ 4) :=
    by exact_mod_cast hround.1
  have hround_hi : (Decimal.roundHalfEven (score * 10 ^ 4) : ℚ) ≤ ((10 ^ 4 : ℤ) : ℚ) :=
    by exact_mod_cast hround.2
  push_cast at hround_lo hround_hi
  unfold fourDecimals
  constructor
  · rw [le_div_iff₀ (by norm_num)]
    linarith
  · rw [div_le_iff₀ (by norm_num)]
    linarith

/-- `str.lower` of a text of ASCII. -/
def LowersAscii (lower : String → String) : Prop :=
  ∀ text : String, text.toList.all (·.toNat < 128) = true → lower text = text.toLower

theorem handle_timedOut (hlower : LowersAscii lower) {text : String}
    (h : text = "claude CLI timed out" ∨ text = "anthropic API timed out") (t : Telemetry J) :
    (handle lower t (.aiAnalysisError text)).status = .timeout := by
  have hinfix : "timed out".toList <:+: (lower text).toList := by
    rcases h with rfl | rfl
    · rw [hlower _ (by decide +kernel)]
      decide +kernel
    · rw [hlower _ (by decide +kernel)]
      decide +kernel
  unfold handle
  exact if_pos hinfix

theorem row_tellsOf (hlower : LowersAscii lower) (task : AiTask) (instrumentId : Option UUID) :
    AiAnalysisLog.TellsOf py3 x task (x.row py3 lower dump task instrumentId) := by
  have hok := analyze_eq_ok py3 x task.sent
  unfold TaskRun.row telemetry attempt
  refine ⟨rfl, rfl, ?_, ?_, ?_⟩
  · intro scores hanswers
    obtain ⟨result, hresult, rfl⟩ := (hok scores).mpr hanswers
    rw [hresult]
    obtain ⟨hlo, hhi⟩ := fourDecimals_mem result.toAiAnalysisOutput
    exact ⟨rfl, _, rfl, hlo, hhi, rfl⟩
  · intro hnone
    cases hanalyze : (x.buildProvider py3).analyze task.sent x.settings.aiAnalysisTimeoutS with
    | ok result => exact absurd ((hok result.toAiAnalysisOutput).mp ⟨result, hanalyze, rfl⟩) (hnone _)
    | error e =>
      refine ⟨status_handle lower _ e, ?_⟩
      cases e with
      | aiAnalysisError text => exact ⟨rfl, rfl, rfl⟩
      | other text => exact ⟨rfl, rfl, rfl⟩
  · intro htimeout
    obtain ⟨text, htext, hanalyze⟩ := analyze_of_timesOut py3 x htimeout
    rw [hanalyze]
    exact handle_timedOut lower hlower htext
      (⟨none, .success, none, 0, (x.buildProvider py3).providerName, none, none⟩ : Telemetry J)

end Rows

/-! ## Runs of the worker -/

section Worker

variable {F J : Type} (py3 : Interpreter F) (lower : String → String) (dump : AiAnalysisResult → J)
  (texts : FloatTexts) (instruments : UUID → Option Instrument)

/-- A task in the queue is of an instrument that was asked for. -/
theorem mem_aiTasks {calls : List GenerateCall} {task : AiTask}
    (h : task ∈ (storeAfter texts instruments calls).aiTasks) : ∃ c ∈ calls, ∃ instrument,
      c.settings.aiAnalysisEnabled = true ∧ instruments c.instrumentId = some instrument ∧ task =
        aiTask instrument := by
  rw [storeAfter_eq] at h
  obtain ⟨c, hc, htask⟩ := List.mem_flatMap.mp h
  unfold GenerateCall.tasks at htask
  split_ifs at htask with hsent
  · obtain ⟨instrument, hinstrument, rfl⟩ := List.mem_map.mp htask
    exact ⟨c, hc, instrument, (Bool.and_eq_true _ _ ▸ hsent).1, Option.mem_toList.mp hinstrument, rfl⟩
  · cases htask

theorem runTask_aiTask (log : List (AiAnalysisLog J)) (instrument : Instrument) (x : TaskRun) :
    runTask py3 lower dump log (aiTask instrument, x) =
      log ++ if x.Persists then [x.row py3 lower dump (aiTask instrument) (some instrument.id)] else
        [] := by
  have hne : instrument.id.str ≠ "" := by
    intro h
    have hlength := UUID.str_length instrument.id
    rw [h] at hlength
    cases hlength
  unfold runTask
  simp only [aiTask, hne, if_false, UUID.parse_str, Option.map_some]
  exact committed_runShadowAnalysis py3 lower dump x log (aiTask instrument) (some instrument.id)

/-- A row is that of a task, for an instrument that was asked for. -/
structure AiAnalysisLog.IsRowOf (calls : List GenerateCall) (work : AiTask × TaskRun)
    (row : AiAnalysisLog J) :
    Prop where
  instrument : ∃ c ∈ calls, ∃ instrument, c.settings.aiAnalysisEnabled = true ∧
    instruments c.instrumentId = some instrument ∧ work.1 = aiTask instrument ∧ row.instrumentId =
      some instrument.id
  tells : AiAnalysisLog.TellsOf py3 work.2 work.1 row

/--
However the tasks that a run of calls has sent are taken up, each leaves one row in the log, unless the
row cannot be stored: of its instrument, with a score from −1 to 1 where the provider answers in time
with readable scores, and with the error where it does not.
-/
theorem aiTasks_logged (hlower : LowersAscii lower) (calls : List GenerateCall)
    (works : List (AiTask × TaskRun))
    (hqueue : ∀ work ∈ works, work.1 ∈ (storeAfter texts instruments calls).aiTasks)
    (log : List (AiAnalysisLog J)) :
    ∃ rows, works.foldl (runTask py3 lower dump) log = log ++ rows ∧
      List.Forall₂ (AiAnalysisLog.IsRowOf py3 instruments calls) (works.filter (·.2.Persists)) rows := by
  induction works generalizing log with
  | nil => exact ⟨[], (List.append_nil _).symm, .nil⟩
  | cons work works ih =>
    obtain ⟨task, x⟩ := work
    obtain ⟨c, hc, instrument, henabled, hfound, htask⟩ :=
      mem_aiTasks texts instruments (hqueue _ List.mem_cons_self)
    obtain rfl : task = aiTask instrument := htask
    rw [List.foldl_cons, runTask_aiTask]
    obtain ⟨rows, hrows, hall⟩ := ih (fun work hwork => hqueue work (List.mem_cons_of_mem _ hwork))
      (log ++ if x.Persists then [x.row py3 lower dump (aiTask instrument) (some instrument.id)] else [])
    rw [List.filter_cons, hrows]
    cases hpersists : x.Persists with
    | false => exact ⟨rows, by simp, by simpa [hpersists] using hall⟩
    | true =>
      refine ⟨x.row py3 lower dump (aiTask instrument) (some instrument.id) :: rows, by simp, ?_⟩
      simp only [if_true]
      exact .cons
        ⟨⟨c, hc, instrument, henabled, hfound, rfl, rfl⟩, row_tellsOf py3 lower dump x hlower _ _⟩ hall

def sampleReply : PyStr := py "\x7b\"outlook\": 1, \"risks\": false, \"confidence\": 2\x7d"

/-- An interpreter that reads one reply. -/
def sampleInterpreter : Interpreter Unit where
  loads raw :=
    if raw = sampleReply then
      .ok (.obj [(py "outlook", .int 1), (py "risks", .bool false), (py "confidence", .int 2)])
    else .error (.decode "Expecting value")
  floats := ⟨fun _ => .nan, fun _ => true, fun _ => py "nan"⟩
  double _ := .nan
  ofInt n := some (.finite n)
  ofText _ := none
  str _ := ""
  invalid _ := "invalid"

def sampleInstrument : Instrument := ⟨0, "AAPL", "NASDAQ"⟩

def sampleGenerateCall : GenerateCall where
  userId := 1
  instrumentId := 0
  settings := ⟨"production", true, false, false, 3 / 10, .default⟩
  now := 0
  technical := .noBars
  dispatches := true
  recommendationId := 2
  createdAt := 0
  commits := true

/-- The CLI answers at once. -/
def sampleTaskRun : TaskRun where
  settings := ⟨"claude_cli", none, 30, true⟩
  process _ _ _ := .exited 0 sampleReply "" 120
  service _ _ := .notInstalled
  outcomes := ⟨none, none, none⟩

theorem aiTasks_logged_sample :
    ∃ rows, [(aiTask sampleInstrument, sampleTaskRun)].foldl
        (runTask sampleInterpreter String.toLower fun result => result.rationale) [] = [] ++ rows ∧
      List.Forall₂
        (AiAnalysisLog.IsRowOf sampleInterpreter (fun _ => some sampleInstrument) [sampleGenerateCall])
        ([(aiTask sampleInstrument, sampleTaskRun)].filter (·.2.Persists)) rows :=
  aiTasks_logged sampleInterpreter String.toLower (fun result => result.rationale) ⟨toString, toString⟩
    (fun _ => some sampleInstrument) (fun _ _ => rfl) [sampleGenerateCall]
      [(aiTask sampleInstrument, sampleTaskRun)]
    (by
      intro work hwork
      rw [List.mem_singleton.mp hwork, storeAfter_eq]
      exact List.mem_cons_self) []

end Worker

end Nivara.Intelligence
