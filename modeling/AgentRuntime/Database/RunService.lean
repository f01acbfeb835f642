import AgentRuntime.Application.RequestHash
import AgentRuntime.Database.Quotas

/-!
# The run service

Transactional acceptance of work: `submit`, `submitRegression`, `evaluate` and `replay`. Each one
takes the identity locks, looks for a run that already holds the idempotency key, checks the
quotas, and writes the run together with its outbox event and history in one transaction. A
violated unique constraint sends `submit` and `replay` to a second transaction that re-reads the
run that won.
-/

namespace AgentRuntime.Database

open Lib Domain Application

/-- The configuration of a `SqlAlchemyRunService`; the timeout is the number that goes into job
policies. -/
structure RunService where
  quotas : QuotaLimits
  jobTimeoutSeconds : Json

/-! ### Snapshots -/

/-- What a caller sees of a run. -/
structure RunSnapshot where
  id : Uuid
  executionStatus : ExecutionStatus
  evaluationStatus : EvaluationStatus
  createdAt : Timestamp
  startedAt : Option Timestamp
  completedAt : Option Timestamp
  replayOfRunId : Option Uuid
  errorCode : Option String
  routingDecision : Option JsonObject
  workKind : WorkKind
  resultPayload : Option JsonObject

/-- What a caller sees of an evaluation. -/
structure EvaluationSnapshot where
  id : Uuid
  evaluator : String
  status : EvaluationStatus
  result : Option JsonObject
  details : Metadata
  createdAt : Timestamp
  completedAt : Option Timestamp

/-- The routing decision stored in a policy, if it has one. -/
def routingDecision (policySnapshot : JsonObject) : Option JsonObject :=
  match JsonObject.get? policySnapshot "routing" with
  | some (.obj routing) =>
    match JsonObject.get? routing "decision" with
    | some (.obj decision) => some decision
    | _ => none
  | _ => none

def toRunSnapshot (run : Run) : RunSnapshot where
  id := run.id
  executionStatus := run.executionStatus
  evaluationStatus := run.evaluationStatus
  createdAt := run.createdAt
  startedAt := run.startedAt
  completedAt := run.completedAt
  replayOfRunId := run.replayOfRunId
  errorCode := run.errorCode
  routingDecision := routingDecision run.policySnapshot
  workKind := run.workKind
  resultPayload := run.resultPayload

def toEvaluationSnapshot (evaluation : Evaluation) : EvaluationSnapshot where
  id := evaluation.id
  evaluator := evaluation.evaluator
  status := evaluation.status
  result := evaluation.result
  details := evaluation.details
  createdAt := evaluation.createdAt
  completedAt := evaluation.completedAt

/-! ### Lookups and matches -/

/-- The run that holds an idempotency key of a client. -/
def Store.keyHolder (s : Store) (clientId idempotencyKey : String) : Option Run :=
  s.runs.rows.find? fun r => r.clientId == clientId && r.idempotencyKey == idempotencyKey

def findByIdempotencyKey (clientId idempotencyKey : String) : DbTx (Option Run) :=
  Tx.read fun s : Store => s.keyHolder clientId idempotencyKey

def getIdempotentRunAfterRace (clientId idempotencyKey : String) : DbTx Run := do
  match ← findByIdempotencyKey clientId idempotencyKey with
  | some run => pure run
  | none => .raise (.runtimeError "Idempotency race completed without a persisted run")

/-- The run `runId` if it belongs to the client. -/
def Store.runForClient (s : Store) (clientId : String) (runId : Uuid) : Option Run :=
  (s.runs.get? runId).filter fun r => r.clientId == clientId

def getRunForClient (clientId : String) (runId : Uuid) : DbTx Run := do
  match ← Tx.read fun s : Store => s.runForClient clientId runId with
  | some run => pure run
  | none => .raise (.runNotFoundError ("Run " ++ runId.str ++ " was not found"))

def matchOrRaise (run : Run) (requestHash : String) : Except PyError Bool :=
  if run.requestHash ≠ requestHash then
    .error (.idempotencyConflictError "Idempotency-Key is already bound to a different request")
  else .ok true

def matchReplayOrRaise (run : Run) (requestHash : String) (sourceRunId : Uuid) :
    Except PyError Bool :=
  if run.requestHash ≠ requestHash ∨ run.replayOfRunId ≠ some sourceRunId then
    .error
      (.idempotencyConflictError "Idempotency-Key is already bound to a different replay request")
  else .ok true

/-! ### Accepting work -/

/-- The row of newly accepted work. -/
def newRun (c : Call) (clientId : String) (principalId : String) (workKind : WorkKind)
    (idempotencyKey requestHash : String) (inputPayload policySnapshot : JsonObject)
    (replayOfRunId : Option Uuid) : Run where
  id := c.runId
  clientId := clientId
  principalId := some principalId
  workKind := workKind
  idempotencyKey := idempotencyKey
  requestHash := requestHash
  inputPayload := inputPayload
  policySnapshot := policySnapshot
  traceContext := c.traceContext
  executionStatus := .queued
  evaluationStatus := .notRun
  resultPayload := none
  errorCode := none
  createdAt := c.txNow
  startedAt := none
  completedAt := none
  executionLeaseOwner := none
  executionLeaseExpiresAt := none
  nextAttemptAt := none
  replayOfRunId := replayOfRunId

/-- A `RUN_QUEUED` outbox event. -/
def queuedOutbox (c : Call) (runId : Uuid) (payload : JsonObject) : OutboxEvent where
  id := c.outboxId runId
  aggregateId := runId
  eventType := .runQueued
  payload := payload
  createdAt := c.txNow
  publishedAt := none
  publishAttempts := 0
  lastError := none

/-- A run event; `index` tells apart the events a call writes while it handles the run `owner`. -/
def newEvent (c : Call) (owner : Uuid) (index : ℕ) (runId : Uuid) (attemptId : Option Uuid)
    (eventType : EventType) (metadata : Metadata) : RunEvent where
  id := c.eventId owner index
  runId := runId
  attemptId := attemptId
  eventType := eventType
  metadata := metadata
  createdAt := c.txNow

/-- `policy.get("provider_order", ["deterministic"])[0]`: the label of a metric, and the exception
of the indexing. -/
def firstProvider (policySnapshot : JsonObject) : Except PyError Unit :=
  match JsonObject.getD policySnapshot "provider_order" (.arr [.str "deterministic"]) with
  | .arr (_ :: _) => .ok ()
  | .arr [] => .error .indexError
  | .str s => if s = "" then .error .indexError else .ok ()
  | .obj _ => .error .keyError
  | _ => .error .typeError

/-- The metadata of a recorded routing decision. -/
def routingMetadata (decision : JsonObject) : Metadata :=
  ["strategy", "selected_provider", "reason", "metrics_source"].map fun field =>
    (field, .json (JsonObject.getD decision field .null))

/-- Record the routing decision of the policy, if it has one. -/
def recordRouting (c : Call) (run : Run) : DbTx Unit :=
  match routingDecision run.policySnapshot with
  | some decision =>
    exec (.insertEvent (newEvent c run.id 1 run.id none .routingDecisionRecorded
      (routingMetadata decision)))
  | none => pure ()

/-- The policy that is hashed with the input of a submission. -/
def hashedPolicy (policySnapshot : JsonObject) (workKind : WorkKind) : JsonObject :=
  if workKind = .execution then policySnapshot
  else JsonObject.set policySnapshot "work_kind" (.str workKind.value)

section

variable [Externals]

/-- Accept a run, or return the one that already holds the key. -/
def submit (svc : RunService) (c : Call) (clientId idempotencyKey : String)
    (inputPayload policySnapshot : JsonObject) (principalId : Option String)
    (workKind : WorkKind) : DbRequest (RunSnapshot × Bool) :=
  let principal := orElseText principalId clientId
  let requestHash := canonicalRequestHash inputPayload (hashedPolicy policySnapshot workKind)
  { body := do
      lockIdentity principal clientId
      match ← findByIdempotencyKey clientId idempotencyKey with
      | some existing => do
          let replayed ← Tx.ofExcept (matchOrRaise existing requestHash)
          pure (toRunSnapshot existing, replayed)
      | none => do
          checkAdmission c.epoch principal clientId svc.quotas
          let run := newRun c clientId principal workKind idempotencyKey requestHash inputPayload
            policySnapshot none
          exec (.insertRun run)
          exec (.insertOutbox (queuedOutbox c run.id [("trace_context", .obj c.traceContext)]))
          exec (.insertEvent (newEvent c run.id 0 run.id none .runQueued [("source", .text "api")]))
          recordRouting c run
          Tx.ofExcept (firstProvider policySnapshot)
          pure (toRunSnapshot run, false)
    handler := fun e =>
      if e = .integrityError then some do
        let existing ← getIdempotentRunAfterRace clientId idempotencyKey
        let replayed ← Tx.ofExcept (matchOrRaise existing requestHash)
        pure (toRunSnapshot existing, replayed)
      else none }

/-- The policy of internal jobs. -/
def RunService.jobPolicy (svc : RunService) : JsonObject :=
  [("max_attempts", .int 1), ("attempt_timeout_seconds", svc.jobTimeoutSeconds),
    ("initial_backoff_seconds", .int 1), ("max_backoff_seconds", .int 1),
    ("provider_order", .arr [.str "deterministic"])]

def submitRegression (svc : RunService) (c : Call) (clientId principalId : String)
    (payload : JsonObject) (idempotencyKey : String) : DbRequest (RunSnapshot × Bool) :=
  submit svc c clientId idempotencyKey payload svc.jobPolicy (some principalId) .regression

/-- The row of an evaluation job. -/
def newJob (svc : RunService) (c : Call) (clientId principal : String) (runId : Uuid)
    (rules : List JsonObject) : Run :=
  let rulesJson := Json.arr (rules.map Json.obj)
  newRun c clientId principal .evaluation ("evaluation-" ++ c.jobKey.str)
    (canonicalRequestHash [("source", .str runId.str)] [("rules", rulesJson)])
    [("source_run_id", .str runId.str), ("rules", rulesJson)] svc.jobPolicy none

/-- The lifecycle record of an evaluation. -/
def newEvaluation (c : Call) (runId jobRunId : Uuid) (rules : List JsonObject) : Evaluation where
  id := c.evaluationId
  runId := runId
  evaluator := "deterministic_rules"
  jobRunId := some jobRunId
  status := .pending
  result := none
  details := [("rule_count", .number rules.length), ("job_run_id", .uuid jobRunId)]
  createdAt := c.txNow
  completedAt := none

/-- Accept evaluation as a durable worker job in the same outbox transaction. -/
def evaluate (svc : RunService) (c : Call) (clientId : String) (runId : Uuid)
    (rules : List JsonObject) (principalId : Option String) : DbTx EvaluationSnapshot := do
  Tx.ofExcept (Externals.validateRules rules)
  let principal := orElseText principalId clientId
  lockIdentity principal clientId
  let _ ← getRunForClient clientId runId
  Tx.acquire (.run runId)
  match ← Tx.read fun s : Store => s.runs.get? runId with
  | none => .raise (.runtimeError "Could not refresh instance")
  | some run =>
    if run.workKind ≠ .execution ∨ run.executionStatus ≠ .succeeded
        ∨ run.resultPayload = none then
      .raise (.runNotSucceededError "Only a successful execution run can be evaluated")
    else do
      checkAdmission c.epoch principal clientId svc.quotas
      let job := newJob svc c clientId principal runId rules
      exec (.insertRun job)
      let evaluation := newEvaluation c run.id job.id rules
      exec (.updateRun run.id [.evaluationStatus .pending])
      exec (.insertEvaluation evaluation)
      exec (.insertOutbox (queuedOutbox c job.id [("trace_context", .obj c.traceContext)]))
      exec (.insertEvent (newEvent c job.id 0 job.id none .runQueued
        [("work_kind", .text "evaluation")]))
      exec (.insertEvent (newEvent c job.id 1 run.id none (.evaluation .pending)
        [("job_run_id", .uuid job.id)]))
      pure (toEvaluationSnapshot evaluation)

/-- The hash a replay of `source` is bound to. -/
def replayHash (source : Run) : String :=
  canonicalRequestHash
    [("replay_of_run_id", .str source.id.str), ("input", .obj source.inputPayload)]
    source.policySnapshot

/-- Create a distinct durable run from an immutable source snapshot. -/
def replay (svc : RunService) (c : Call) (clientId : String) (runId : Uuid)
    (idempotencyKey : String) (principalId : Option String) : DbRequest (RunSnapshot × Bool) :=
  let principal := orElseText principalId clientId
  { body := do
      lockIdentity principal clientId
      let source ← getRunForClient clientId runId
      if source.workKind ≠ .execution then
        .raise (.runNotFoundError "Only execution runs can be replayed")
      else
        match ← findByIdempotencyKey clientId idempotencyKey with
        | some existing => do
            let replayed ← Tx.ofExcept (matchReplayOrRaise existing (replayHash source) source.id)
            pure (toRunSnapshot existing, replayed)
        | none => do
            checkAdmission c.epoch principal clientId svc.quotas
            let run := newRun c clientId principal .execution idempotencyKey (replayHash source)
              source.inputPayload source.policySnapshot (some source.id)
            exec (.insertRun run)
            exec (.insertOutbox (queuedOutbox c run.id
              [("trace_context", .obj c.traceContext), ("reason", .str "replay")]))
            exec (.insertEvent (newEvent c run.id 0 source.id none .replayCreated
              [("replay_run_id", .uuid run.id)]))
            exec (.insertEvent (newEvent c run.id 1 run.id none .runReplayQueued
              [("replay_of_run_id", .uuid source.id)]))
            pure (toRunSnapshot run, false)
    handler := fun e =>
      if e = .integrityError then some do
        let existing ← getIdempotentRunAfterRace clientId idempotencyKey
        let source ← getRunForClient clientId runId
        let replayed ← Tx.ofExcept (matchReplayOrRaise existing (replayHash source) source.id)
        pure (toRunSnapshot existing, replayed)
      else none }

end

end AgentRuntime.Database
