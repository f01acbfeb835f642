import AgentRuntime.Domain.Retry
import AgentRuntime.Evaluation.Engine
import AgentRuntime.Lib.Dialogue

/-!
# The regression runner

A regression job runs every case of a dataset against a baseline and then against a candidate, and
compares the two. The runner asks an executor for each result; what an executor does is up to it,
so a run is a dialogue with one question per provider call.

Numbers are exact rationals with the `round` calls of the source. Dividing two integers is the one
operation whose range matters: Python raises where the quotient is no finite float, and `Arithmetic`
says which quotients there are.

* `RegressionDataset.fromMapping`, `ProviderModelTarget.postInit`, `RegressionGates.postInit`: the
  checks on a job;
* `runTarget`, `comparison`, `runRegression`: the runner;
* `EvaluationRegressionRequest`: what the API admits, and `executeRegression` what the worker does
  with it.
-/

namespace AgentRuntime.Evaluation

open Lib Domain

/-! ### Arithmetic -/

/-- Which quotients of integers exist. -/
structure Arithmetic where
  inRange : ℚ → Bool

/-- Every quotient exists. -/
def Arithmetic.exact : Arithmetic := ⟨fun _ => true⟩

/-- The quotients that round to a finite float. -/
def Arithmetic.python : Arithmetic := ⟨fun q => decide (|q| < binary64Limit)⟩

/-- A number of a summary: an `int` or a `float`. -/
inductive Metric where
  | int (n : ℤ)
  | float (q : ℚ)
  deriving DecidableEq

def Metric.value : Metric → ℚ
  | .int n => n
  | .float q => q

namespace Arithmetic

variable (A : Arithmetic)

/-- `a / b` on integers. -/
def trueDivide (a b : ℤ) : Except PyError ℚ :=
  if b = 0 then .error .zeroDivisionError
  else if A.inRange (a / b) then .ok (a / b)
  else .error (.overflowError "integer division result too large for a float")

/-- `(candidate - baseline) / baseline` with a baseline that is not zero. -/
def relativeChange : Metric → Metric → Except PyError ℚ
  | .int baseline, .int candidate => A.trueDivide (candidate - baseline) baseline
  | baseline, candidate => .ok ((candidate.value - baseline.value) / baseline.value)

end Arithmetic

/-! ### Datasets, targets and gates -/

structure RegressionCase where
  caseId : String
  inputPayload : JsonObject
  rules : List JsonObject

/-- A dataset as `from_mapping` builds it. -/
structure RegressionDataset where
  datasetId : String
  version : String
  cases : List RegressionCase
  cases_ne : cases ≠ []

/-- The dictionaries of a list, if it is a list of dictionaries. -/
def objectList (xs : List Json) : Option (List JsonObject) :=
  xs.mapM fun x => match x with
    | .obj ms => some ms
    | _ => none

/-- The checks on one case; the case identifiers before it are given. -/
def readCase (caseIds : List String) (raw : Json) : Except PyError RegressionCase :=
  match raw with
  | .obj rawCase =>
    match JsonObject.get? rawCase "case_id" with
    | some (.str caseId) =>
      if isBlank caseId then
        .error (.valueError "every dataset case requires a non-empty case_id")
      else if caseIds.contains caseId then
        .error (.valueError "dataset case_id values must be unique")
      else
        match JsonObject.get? rawCase "input" with
        | some (.obj (m :: ms)) =>
          match JsonObject.get? rawCase "rules" with
          | some (.arr (r :: rs)) =>
            match objectList (r :: rs) with
            | some rules => .ok ⟨caseId, m :: ms, rules⟩
            | none => .error (.valueError
                "every dataset case requires a non-empty rules list")
          | _ => .error (.valueError "every dataset case requires a non-empty rules list")
        | _ => .error (.valueError "every dataset case requires a non-empty input object")
    | _ => .error (.valueError "every dataset case requires a non-empty case_id")
  | _ => .error (.valueError "every dataset case must be an object")

/-- The loop over the cases. -/
def readCases : List String → List Json → Except PyError (List RegressionCase)
  | _, [] => .ok []
  | caseIds, raw :: raws => do
      let case ← readCase caseIds raw
      let cases ← readCases (case.caseId :: caseIds) raws
      pure (case :: cases)

def RegressionDataset.fromMapping (value : JsonObject) : Except PyError RegressionDataset :=
  match JsonObject.get? value "dataset_id" with
  | some (.str datasetId) =>
    if isBlank datasetId then .error (.valueError "dataset_id must be a non-empty string")
    else
      match JsonObject.get? value "version" with
      | some (.str version) =>
        if isBlank version then
          .error (.valueError "dataset.version must be a non-empty string")
        else
          match JsonObject.get? value "cases" with
          | some (.arr (raw :: raws)) => do
              let cases ← readCases [] (raw :: raws)
              if h : cases ≠ [] then pure ⟨datasetId, version, cases, h⟩
              else .error (.valueError "dataset.cases must be a non-empty list")
          | _ => .error (.valueError "dataset.cases must be a non-empty list")
      | _ => .error (.valueError "dataset.version must be a non-empty string")
  | _ => .error (.valueError "dataset_id must be a non-empty string")

structure ProviderModelTarget where
  provider : String
  model : Option String
  estimatedCostMicrousd : ℤ
  provider_named : isBlank provider = false
  model_named : ∀ m, model = some m → isBlank m = false
  cost_nonneg : 0 ≤ estimatedCostMicrousd

/-- `ProviderModelTarget(...)` with the checks of `__post_init__`. -/
def ProviderModelTarget.postInit (provider : String) (model : Option String) (cost : ℤ) :
    Except PyError ProviderModelTarget :=
  if hp : isBlank provider = false then
    if hm : ∀ m ∈ model, isBlank m = false then
      if hc : 0 ≤ cost then .ok ⟨provider, model, cost, hp, hm, hc⟩
      else .error (.valueError "target.estimated_cost_microusd must be non-negative")
    else .error (.valueError "target.model must be non-empty when provided")
  else .error (.valueError "target.provider must be a non-empty string")

structure RegressionGates where
  maxQualityRegressionPoints : ℚ
  maxLatencyRegressionPercent : Option ℚ
  maxCostRegressionPercent : Option ℚ
  quality_nonneg : 0 ≤ maxQualityRegressionPoints
  latency_nonneg : ∀ p ∈ maxLatencyRegressionPercent, 0 ≤ p
  cost_nonneg : ∀ p ∈ maxCostRegressionPercent, 0 ≤ p

/-- `RegressionGates(...)` with the checks of `__post_init__`. -/
def RegressionGates.postInit (quality : ℚ) (latency cost : Option ℚ) :
    Except PyError RegressionGates :=
  if h : 0 ≤ quality ∧ (∀ p ∈ latency, 0 ≤ p) ∧ ∀ p ∈ cost, 0 ≤ p then
    .ok ⟨quality, latency, cost, h.1, h.2.1, h.2.2⟩
  else .error (.valueError "regression gates must be non-negative")

/-! ### Running a target -/

/-- What the runner asks the executor for. -/
structure ProviderRequest where
  provider : String
  inputPayload : JsonObject
  policySnapshot : JsonObject

/-- How the executor ends a call. -/
inductive CallOutcome where
  | result (payload : JsonObject)
  | quotaExceeded (message : String)
  /-- Any other subclass of `Exception`, by the name of its type. -/
  | failed (errorType : String)

/-- The largest finite float. -/
def binary64Max : ℤ := 2 ^ 1024 - 2 ^ 971

/-- The end of a call, and the finite number of milliseconds since it was issued. -/
structure Reply where
  outcome : CallOutcome
  elapsedMs : ℚ
  elapsed_nonneg : 0 ≤ elapsedMs
  elapsed_le : elapsedMs ≤ binary64Max

/-- `round((time.perf_counter() - started_at) * 1000)`. -/
def Reply.latencyMs (reply : Reply) : ℤ := roundHalfEven reply.elapsedMs

/-- A program that calls the executor. -/
abbrev Runner (α : Type) := Dialogue ProviderRequest Reply (Except PyError α)

def targetPolicy (target : ProviderModelTarget) : JsonObject :=
  ("provider_order", .arr [.str target.provider])
    :: (target.model.map fun m => ("model", Json.str m)).toList

/-- The call of one case. -/
def targetRequest (target : ProviderModelTarget) (case : RegressionCase) : ProviderRequest :=
  ⟨target.provider, case.inputPayload, targetPolicy target⟩

/-- What a case result rests on. -/
inductive CaseEvidence where
  | rules (results : List RuleResult)
  | errorType (name : String)
  deriving DecidableEq

structure CaseResult where
  caseId : String
  passed : Bool
  latencyMs : ℤ
  estimatedCostMicrousd : ℤ
  evidence : CaseEvidence
  deriving DecidableEq

/-- `type(exc).__name__` for the exceptions of the engine. -/
def EngineError.typeName : EngineError → String
  | .configuration _ => "EvaluationConfigurationError"
  | .valueError _ => "ValueError"
  | .attributeError => "AttributeError"
  | .typeError => "TypeError"
  | .library => "Exception"

section Runner

variable [SchemaLibrary]

/-- The result of one case. Every exception but `QuotaExceededError` becomes a failed case. -/
def caseResult (target : ProviderModelTarget) (case : RegressionCase) (reply : Reply) :
    Except PyError CaseResult :=
  let result (passed : Bool) (evidence : CaseEvidence) : CaseResult :=
    ⟨case.caseId, passed, reply.latencyMs, target.estimatedCostMicrousd, evidence⟩
  match reply.outcome with
  | .quotaExceeded message => .error (.quotaExceededError message)
  | .failed errorType => .ok (result false (.errorType errorType))
  | .result payload =>
    match evaluateRules (case.rules.map .obj) (.obj payload) (some reply.latencyMs) with
    | .ok outcome => .ok (result outcome.passed (.rules outcome.ruleResults))
    | .error e => .ok (result false (.errorType e.typeName))

/-- The loop of `_run_target`: the results so far are given. -/
def runCases (target : ProviderModelTarget) :
    List RegressionCase → List CaseResult → Runner (List CaseResult)
  | [], results => .done (.ok results)
  | case :: cases, results =>
    .ask (targetRequest target case) fun reply =>
      match caseResult target case reply with
      | .ok result => runCases target cases (results ++ [result])
      | .error e => .done (.error e)

end Runner

structure TargetSummary where
  passedCases : ℕ
  failedCases : ℕ
  passRate : ℚ
  averageLatencyMs : ℚ
  estimatedCostMicrousd : ℤ

structure TargetResult where
  target : ProviderModelTarget
  cases : List CaseResult
  summary : TargetSummary

section Compare

variable (A : Arithmetic)

/-- The summary of the results of a target. -/
def summarize (cases : List CaseResult) : Except PyError TargetSummary := do
  let passedCount := (cases.filter CaseResult.passed).length
  let passRate ← A.trueDivide passedCount cases.length
  let averageLatency ← A.trueDivide (cases.map CaseResult.latencyMs).sum cases.length
  pure {
    passedCases := passedCount
    failedCases := cases.length - passedCount
    passRate := roundTo 6 passRate
    averageLatencyMs := roundTo 3 averageLatency
    estimatedCostMicrousd := (cases.map CaseResult.estimatedCostMicrousd).sum }

/-! ### Comparing -/

structure MetricComparison where
  baseline : Metric
  candidate : Metric
  absoluteDelta : ℚ
  percentDelta : Option ℚ
  maxRegressionPercent : Option ℚ
  regressed : Bool

/-- `round(candidate - baseline, 3)`: the difference of two integers is kept. -/
def absoluteDelta : Metric → Metric → ℚ
  | .int baseline, .int candidate => candidate - baseline
  | baseline, candidate => roundTo 3 (candidate.value - baseline.value)

/-- The change in percent; `none` where the baseline is zero and the candidate is not. -/
def percentDelta (baseline candidate : Metric) : Except PyError (Option ℚ) :=
  if baseline.value = 0 then .ok (if candidate.value = 0 then some 0 else none)
  else (A.relativeChange baseline candidate).map fun change => some (roundTo 3 (change * 100))

/-- Whether a change exceeds what is allowed. -/
def exceeds (baseline candidate : Metric) (percent : Option ℚ) : Option ℚ → Bool
  | none => false
  | some allowed =>
    match percent with
    | none => decide (candidate.value > baseline.value)
    | some percent => decide (percent > allowed)

def metricComparison (baseline candidate : Metric) (allowedPercent : Option ℚ) :
    Except PyError MetricComparison := do
  let percent ← percentDelta A baseline candidate
  pure {
    baseline := baseline
    candidate := candidate
    absoluteDelta := absoluteDelta baseline candidate
    percentDelta := percent
    maxRegressionPercent := allowedPercent
    regressed := exceeds baseline candidate percent allowedPercent }

structure QualityComparison where
  baselinePassRate : ℚ
  candidatePassRate : ℚ
  deltaPoints : ℚ
  maxRegressionPoints : ℚ
  regressed : Bool

structure Comparison where
  quality : QualityComparison
  latency : MetricComparison
  cost : MetricComparison
  passed : Bool

def comparison (baseline candidate : TargetSummary) (gates : RegressionGates) :
    Except PyError Comparison := do
  let deltaPoints := roundTo 3 ((candidate.passRate - baseline.passRate) * 100)
  let latency ← metricComparison A (.float baseline.averageLatencyMs)
    (.float candidate.averageLatencyMs) gates.maxLatencyRegressionPercent
  let cost ← metricComparison A (.int baseline.estimatedCostMicrousd)
    (.int candidate.estimatedCostMicrousd) gates.maxCostRegressionPercent
  let qualityRegressed := decide (deltaPoints < -gates.maxQualityRegressionPoints)
  pure {
    quality := ⟨baseline.passRate, candidate.passRate, deltaPoints,
      gates.maxQualityRegressionPoints, qualityRegressed⟩
    latency := latency
    cost := cost
    passed := !qualityRegressed && !latency.regressed && !cost.regressed }

end Compare

/-! ### The report -/

structure RegressionReport where
  schemaVersion : String
  datasetId : String
  version : String
  caseCount : ℕ
  baseline : TargetResult
  candidate : TargetResult
  comparison : Comparison
  passed : Bool

def CaseResult.isError (result : CaseResult) : Bool :=
  match result.evidence with
  | .errorType _ => true
  | .rules _ => false

/-- The part of `run` after all calls: an error in any case fails the comparison. -/
def report (A : Arithmetic) (dataset : RegressionDataset) (baseline candidate : TargetResult)
    (gates : RegressionGates) : Except PyError RegressionReport := do
  let compared ← comparison A baseline.summary candidate.summary gates
  let failed := (baseline.cases ++ candidate.cases).any CaseResult.isError
  let compared := { compared with passed := compared.passed && !failed }
  pure {
    schemaVersion := "evaluation-regression-report.v1"
    datasetId := dataset.datasetId
    version := dataset.version
    caseCount := dataset.cases.length
    baseline := baseline
    candidate := candidate
    comparison := compared
    passed := compared.passed }

section Run

variable [SchemaLibrary] (A : Arithmetic)

/-- Go on with the result of a program that did not raise. -/
def Runner.andThen {α β : Type} (x : Runner α) (f : α → Runner β) : Runner β :=
  x.bind fun out => match out with
    | .ok a => f a
    | .error e => .done (.error e)

def runTarget (dataset : RegressionDataset) (target : ProviderModelTarget) : Runner TargetResult :=
  (runCases target dataset.cases []).andThen fun cases =>
    .done ((summarize A cases).map fun summary => ⟨target, cases, summary⟩)

/-- `EvaluationRegressionRunner.run`. -/
def runRegression (dataset : RegressionDataset) (baseline candidate : ProviderModelTarget)
    (gates : RegressionGates) : Runner RegressionReport :=
  (runTarget A dataset baseline).andThen fun baselineResult =>
    (runTarget A dataset candidate).andThen fun candidateResult =>
      .done (report A dataset baselineResult candidateResult gates)

end Run

/-! ### Admission and execution -/

section Admission

variable [SchemaLibrary]

structure EvaluationRegressionCaseRequest where
  caseId : String
  input : JsonObject
  rules : List JsonObject
  caseId_length : 1 ≤ caseId.length ∧ caseId.length ≤ 128
  input_length : 1 ≤ input.length
  rules_length : 1 ≤ rules.length ∧ rules.length ≤ 16
  rules_safe : validateRules (rules.map .obj) = .ok ()

structure EvaluationRegressionDatasetRequest where
  datasetId : String
  version : String
  cases : List EvaluationRegressionCaseRequest
  datasetId_length : 1 ≤ datasetId.length ∧ datasetId.length ≤ 128
  version_length : 1 ≤ version.length ∧ version.length ≤ 64
  cases_length : 1 ≤ cases.length ∧ cases.length ≤ 10

structure EvaluationRegressionTargetRequest where
  provider : String
  model : Option String
  estimatedCostMicrousd : ℤ
  provider_length : 1 ≤ provider.length ∧ provider.length ≤ 64
  model_length : ∀ m ∈ model, 1 ≤ m.length ∧ m.length ≤ 128
  cost_nonneg : 0 ≤ estimatedCostMicrousd

structure EvaluationRegressionGatesRequest where
  maxQualityRegressionPoints : ℚ
  maxLatencyRegressionPercent : Option ℚ
  maxCostRegressionPercent : Option ℚ
  quality_nonneg : 0 ≤ maxQualityRegressionPoints
  latency_nonneg : ∀ p ∈ maxLatencyRegressionPercent, 0 ≤ p
  cost_nonneg : ∀ p ∈ maxCostRegressionPercent, 0 ≤ p

/-- A request that Pydantic has validated. -/
structure EvaluationRegressionRequest where
  dataset : EvaluationRegressionDatasetRequest
  baseline : EvaluationRegressionTargetRequest
  candidate : EvaluationRegressionTargetRequest
  gates : EvaluationRegressionGatesRequest

/-- `model_dump()` of a case. -/
def EvaluationRegressionCaseRequest.modelDump (case : EvaluationRegressionCaseRequest) : Json :=
  .obj [("case_id", .str case.caseId), ("input", .obj case.input),
    ("rules", .arr (case.rules.map .obj))]

/-- `model_dump()` of a dataset. -/
def EvaluationRegressionDatasetRequest.modelDump (dataset : EvaluationRegressionDatasetRequest) :
    JsonObject :=
  [("dataset_id", .str dataset.datasetId), ("version", .str dataset.version),
    ("cases", .arr (dataset.cases.map EvaluationRegressionCaseRequest.modelDump))]

def EvaluationRegressionTargetRequest.target (request : EvaluationRegressionTargetRequest) :
    Except PyError ProviderModelTarget :=
  ProviderModelTarget.postInit request.provider request.model request.estimatedCostMicrousd

/-- The stored `input_payload` of a job. Writing it as JSON and reading it back changes nothing. -/
structure RegressionPayload where
  dataset : JsonObject
  baseline : EvaluationRegressionTargetRequest
  candidate : EvaluationRegressionTargetRequest
  gates : EvaluationRegressionGatesRequest

/-- The checks of the endpoint on a validated request: the dataset and the targets can be built. -/
def admitRegression (request : EvaluationRegressionRequest) : Except PyError RegressionPayload := do
  let _ ← RegressionDataset.fromMapping request.dataset.modelDump
  let _ ← request.baseline.target
  let _ ← request.candidate.target
  pure ⟨request.dataset.modelDump, request.baseline, request.candidate, request.gates⟩

/-- The limits of the worker. -/
structure RegressionSettings where
  regressionMaxCases : ℕ
  regressionProviderCallBudget : ℕ

/-- The regression branch of `ResourceExecutor.execute`. -/
def executeRegression (A : Arithmetic) (settings : RegressionSettings)
    (payload : RegressionPayload) : Runner RegressionReport :=
  match RegressionDataset.fromMapping payload.dataset with
  | .error e => .done (.error e)
  | .ok dataset =>
    if dataset.cases.length > settings.regressionMaxCases
        ∨ 2 * dataset.cases.length > settings.regressionProviderCallBudget then
      .done (.error (.quotaExceededError "Regression exceeds the server budget"))
    else
      match payload.baseline.target with
      | .error e => .done (.error e)
      | .ok baseline =>
        match payload.candidate.target with
        | .error e => .done (.error e)
        | .ok candidate =>
          match RegressionGates.postInit payload.gates.maxQualityRegressionPoints
              payload.gates.maxLatencyRegressionPercent
              payload.gates.maxCostRegressionPercent with
          | .error e => .done (.error e)
          | .ok gates => runRegression A dataset baseline candidate gates

end Admission

end AgentRuntime.Evaluation
