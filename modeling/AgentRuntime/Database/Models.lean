import AgentRuntime.Domain.Retry
import AgentRuntime.Domain.States
import AgentRuntime.Lib.Table
import AgentRuntime.Lib.Transaction

/-!
# The persisted records and the statements that write them

The tables of the runtime, one row type each, with their primary keys and unique constraints, and
the store that holds them. Every change to the store is a `Write`: an `INSERT`, or an `UPDATE`
that assigns a list of columns of one row. A write is refused with `integrityError` when it
breaks a unique or foreign-key constraint and with `dataError` when a value does not fit its
column (`VARCHAR(64)` provider names, 32-bit latencies).

Columns that hold a rendered value (`str(uuid)`, `isoformat()`) inside event metadata hold the
value itself.
-/

namespace AgentRuntime.Database

open Lib Domain

/-! ### Enumerations and metadata -/

/-- What a run executes. -/
inductive WorkKind where
  | execution
  | evaluation
  | regression
  deriving DecidableEq, Repr

/-- The stored text of a work kind. -/
def WorkKind.value : WorkKind → String
  | .execution => "execution"
  | .evaluation => "evaluation"
  | .regression => "regression"

/-- How an attempt ended. -/
inductive AttemptOutcome where
  | succeeded
  | failed
  deriving DecidableEq, Repr

/-- The types of run events; `evaluation s` is the text `EVALUATION_` followed by the status. -/
inductive EventType where
  | runQueued
  | routingDecisionRecorded
  | runClaimed
  | runSucceeded
  | runRetryScheduled
  | runRetryQueued
  | runDeadLettered
  | runFailed
  | evaluation (status : EvaluationStatus)
  | replayCreated
  | runReplayQueued
  | outboxPublished
  | outboxPublishFailed
  deriving DecidableEq, Repr

/-- The types of outbox events. -/
inductive OutboxEventType where
  | runQueued
  | runDeadLettered
  deriving DecidableEq, Repr

/-- A value inside event metadata or evaluation details. -/
inductive MetaValue where
  | text (s : String)
  | number (n : ℤ)
  | flag (b : Bool)
  | seconds (q : ℚ)
  | uuid (u : Uuid)
  | time (t : Timestamp)
  | json (j : Json)

/-- A metadata dictionary. -/
abbrev Metadata := List (String × MetaValue)

/-! ### Rows -/

/-- Durable unit of accepted execution work. -/
structure Run where
  id : Uuid
  clientId : String
  principalId : Option String
  workKind : WorkKind
  idempotencyKey : String
  requestHash : String
  inputPayload : JsonObject
  policySnapshot : JsonObject
  traceContext : JsonObject
  executionStatus : ExecutionStatus
  evaluationStatus : EvaluationStatus
  resultPayload : Option JsonObject
  errorCode : Option String
  createdAt : Timestamp
  startedAt : Option Timestamp
  completedAt : Option Timestamp
  executionLeaseOwner : Option String
  executionLeaseExpiresAt : Option Timestamp
  nextAttemptAt : Option Timestamp
  replayOfRunId : Option Uuid

/-- One worker claim to execute a run. -/
structure RunAttempt where
  id : Uuid
  runId : Uuid
  attemptNumber : ℕ
  provider : String
  workerId : String
  startedAt : Timestamp
  finishedAt : Option Timestamp
  outcome : Option AttemptOutcome
  errorCode : Option String
  retryable : Option Bool
  latencyMs : Option ℤ
  usageMetadata : Option JsonObject

/-- Append-only execution fact. -/
structure RunEvent where
  id : Uuid
  runId : Uuid
  attemptId : Option Uuid
  eventType : EventType
  metadata : Metadata
  createdAt : Timestamp

/-- Delivery intent coupled to a durable change. -/
structure OutboxEvent where
  id : Uuid
  aggregateId : Uuid
  eventType : OutboxEventType
  payload : JsonObject
  createdAt : Timestamp
  publishedAt : Option Timestamp
  publishAttempts : ℕ
  lastError : Option String

/-- Lifecycle record of one evaluation of a run by a job run. -/
structure Evaluation where
  id : Uuid
  runId : Uuid
  evaluator : String
  jobRunId : Option Uuid
  status : EvaluationStatus
  result : Option JsonObject
  details : Metadata
  createdAt : Timestamp
  completedAt : Option Timestamp

/-- Provider calls reserved by one scope in its current window. -/
structure ProviderQuota where
  scope : String
  windowStart : ℤ
  used : ℕ
  deriving DecidableEq

/-! ### Unique constraints -/

instance : Row Run Uuid where
  Ident := Uuid × String × String
  ident r := (r.id, r.clientId, r.idempotencyKey)
  key := Prod.fst
  clash a b := a.1 == b.1 || a.2 == b.2
  clash_of_key i j h := by simp [h]

instance : Row RunAttempt Uuid where
  Ident := Uuid × Uuid × ℕ
  ident a := (a.id, a.runId, a.attemptNumber)
  key := Prod.fst
  clash a b := a.1 == b.1 || a.2 == b.2
  clash_of_key i j h := by simp [h]

instance : Row RunEvent Uuid where
  Ident := Uuid
  ident e := e.id
  key := id
  clash a b := a == b
  clash_of_key i j h := by simpa using h

instance : Row OutboxEvent Uuid where
  Ident := Uuid
  ident e := e.id
  key := id
  clash a b := a == b
  clash_of_key i j h := by simpa using h

-- a null `job_run_id` never clashes, as in SQL
instance : Row Evaluation Uuid where
  Ident := Uuid × Option Uuid
  ident e := (e.id, e.jobRunId)
  key := Prod.fst
  clash a b := a.1 == b.1 || (a.2.isSome && a.2 == b.2)
  clash_of_key i j h := by simp [h]

instance : Row ProviderQuota String where
  Ident := String
  ident q := q.scope
  key := id
  clash a b := a == b
  clash_of_key i j h := by simpa using h

@[simp] theorem Run.row_id (r : Run) : (Row.id r : Uuid) = r.id := rfl
@[simp] theorem RunAttempt.row_id (a : RunAttempt) : (Row.id a : Uuid) = a.id := rfl
@[simp] theorem OutboxEvent.row_id (e : OutboxEvent) : (Row.id e : Uuid) = e.id := rfl

/-! ### Column assignments -/

/-- An assignment to a column of `runs`. -/
inductive RunSet where
  | executionStatus (v : ExecutionStatus)
  | evaluationStatus (v : EvaluationStatus)
  | resultPayload (v : Option JsonObject)
  | errorCode (v : Option String)
  | startedAt (v : Option Timestamp)
  | completedAt (v : Option Timestamp)
  | executionLeaseOwner (v : Option String)
  | executionLeaseExpiresAt (v : Option Timestamp)
  | nextAttemptAt (v : Option Timestamp)

/-- Assign one column. -/
def RunSet.assign : RunSet → Run → Run
  | .executionStatus v, r => { r with executionStatus := v }
  | .evaluationStatus v, r => { r with evaluationStatus := v }
  | .resultPayload v, r => { r with resultPayload := v }
  | .errorCode v, r => { r with errorCode := v }
  | .startedAt v, r => { r with startedAt := v }
  | .completedAt v, r => { r with completedAt := v }
  | .executionLeaseOwner v, r => { r with executionLeaseOwner := v }
  | .executionLeaseExpiresAt v, r => { r with executionLeaseExpiresAt := v }
  | .nextAttemptAt v, r => { r with nextAttemptAt := v }

/-- An assignment to a column of `run_attempts`. -/
inductive AttemptSet where
  | provider (v : String)
  | usageMetadata (v : Option JsonObject)
  | finishedAt (v : Option Timestamp)
  | outcome (v : Option AttemptOutcome)
  | errorCode (v : Option String)
  | retryable (v : Option Bool)
  | latencyMs (v : Option ℤ)

/-- Assign one column. -/
def AttemptSet.assign : AttemptSet → RunAttempt → RunAttempt
  | .provider v, a => { a with provider := v }
  | .usageMetadata v, a => { a with usageMetadata := v }
  | .finishedAt v, a => { a with finishedAt := v }
  | .outcome v, a => { a with outcome := v }
  | .errorCode v, a => { a with errorCode := v }
  | .retryable v, a => { a with retryable := v }
  | .latencyMs v, a => { a with latencyMs := v }

/-- An assignment to a column of `outbox_events`. -/
inductive OutboxSet where
  | publishedAt (v : Option Timestamp)
  | publishAttempts (v : ℕ)
  | lastError (v : Option String)

/-- Assign one column. -/
def OutboxSet.assign : OutboxSet → OutboxEvent → OutboxEvent
  | .publishedAt v, e => { e with publishedAt := v }
  | .publishAttempts v, e => { e with publishAttempts := v }
  | .lastError v, e => { e with lastError := v }

/-- An assignment to a column of `evaluations`. -/
inductive EvaluationSet where
  | status (v : EvaluationStatus)
  | result (v : Option JsonObject)
  | details (v : Metadata)
  | completedAt (v : Option Timestamp)

/-- Assign one column. -/
def EvaluationSet.assign : EvaluationSet → Evaluation → Evaluation
  | .status v, e => { e with status := v }
  | .result v, e => { e with result := v }
  | .details v, e => { e with details := v }
  | .completedAt v, e => { e with completedAt := v }

/-- Assign a list of columns from left to right. -/
def assignAll {β α : Type} (assign : β → α → α) (sets : List β) (a : α) : α :=
  sets.foldl (fun a c => assign c a) a

theorem assignAll_nil {β α : Type} (assign : β → α → α) (a : α) :
    assignAll assign [] a = a := rfl

theorem assignAll_cons {β α : Type} (assign : β → α → α) (c : β) (cs : List β) (a : α) :
    assignAll assign (c :: cs) a = assignAll assign cs (assign c a) := rfl

/-- What no assignment changes, a list of assignments does not change. -/
theorem assignAll_keeps {β α γ : Type} {assign : β → α → α} {f : α → γ}
    (h : ∀ c a, f (assign c a) = f a) (sets : List β) (a : α) :
    f (assignAll assign sets a) = f a := by
  induction sets generalizing a with
  | nil => rfl
  | cons c cs ih => rw [assignAll_cons, ih, h]

theorem RunSet.ident_assign (c : RunSet) (r : Run) :
    Row.ident (c.assign r) = (Row.ident r : Row.Ident Run) := by
  cases c <;> rfl

theorem AttemptSet.ident_assign (c : AttemptSet) (a : RunAttempt) :
    Row.ident (c.assign a) = (Row.ident a : Row.Ident RunAttempt) := by
  cases c <;> rfl

theorem OutboxSet.ident_assign (c : OutboxSet) (e : OutboxEvent) :
    Row.ident (c.assign e) = (Row.ident e : Row.Ident OutboxEvent) := by
  cases c <;> rfl

theorem EvaluationSet.ident_assign (c : EvaluationSet) (e : Evaluation) :
    Row.ident (c.assign e) = (Row.ident e : Row.Ident Evaluation) := by
  cases c <;> rfl

/-! ### The store and its writes -/

/-- The tables. -/
structure Store where
  runs : Table Run
  attempts : Table RunAttempt
  events : Table RunEvent
  outbox : Table OutboxEvent
  evaluations : Table Evaluation
  quotas : Table ProviderQuota

/-- The store with no rows. -/
def Store.empty : Store := ⟨.empty, .empty, .empty, .empty, .empty, .empty⟩

/-- A write statement. -/
inductive Write where
  | insertRun (r : Run)
  | updateRun (id : Uuid) (sets : List RunSet)
  | insertAttempt (a : RunAttempt)
  | updateAttempt (id : Uuid) (sets : List AttemptSet)
  | insertEvent (e : RunEvent)
  | insertOutbox (e : OutboxEvent)
  | updateOutbox (id : Uuid) (sets : List OutboxSet)
  | insertEvaluation (e : Evaluation)
  | updateEvaluation (id : Uuid) (sets : List EvaluationSet)
  | insertQuota (q : ProviderQuota)
  | updateQuota (scope : String) (windowStart : ℤ) (used : ℕ)

/-- A row id exists among the runs. -/
def Store.hasRun (s : Store) (id : Uuid) : Bool := (s.runs.get? id).isSome

/-- A row id exists among the attempts. -/
def Store.hasAttempt (s : Store) (id : Uuid) : Bool := (s.attempts.get? id).isSome

/-- Values of a 32-bit integer column. -/
def fitsInt4 (n : ℤ) : Bool := decide (-2147483648 ≤ n ∧ n ≤ 2147483647)

/-- Texts of a `VARCHAR(64)` column. -/
def fitsVarchar64 (text : String) : Bool := decide (text.length ≤ 64)

/-- The assigned provider and latency fit their columns. -/
def AttemptSet.fits : AttemptSet → Bool
  | .provider v => fitsVarchar64 v
  | .latencyMs (some n) => fitsInt4 n
  | _ => true

/-- Insert a row, or report the violated unique constraint. -/
def insertOr {α κ : Type} [Row α κ] (t : Table α) (a : α) (set : Table α → Store) :
    Except PyError Store :=
  match t.insert? a with
  | some t' => .ok (set t')
  | none => .error .integrityError

/-- Run one write statement. -/
def Write.apply : Write → Store → Except PyError Store
  | .insertRun r, s =>
    if r.replayOfRunId.all s.hasRun then insertOr s.runs r fun t => { s with runs := t }
    else .error .integrityError
  | .updateRun id sets, s =>
    .ok { s with
      runs := s.runs.update id (assignAll RunSet.assign sets)
        (assignAll_keeps RunSet.ident_assign sets) }
  | .insertAttempt a, s =>
    if fitsVarchar64 a.provider then
      if s.hasRun a.runId then insertOr s.attempts a fun t => { s with attempts := t }
      else .error .integrityError
    else .error .dataError
  | .updateAttempt id sets, s =>
    if sets.all AttemptSet.fits then
      .ok { s with
        attempts := s.attempts.update id (assignAll AttemptSet.assign sets)
          (assignAll_keeps AttemptSet.ident_assign sets) }
    else .error .dataError
  | .insertEvent e, s =>
    if s.hasRun e.runId && e.attemptId.all s.hasAttempt then
      insertOr s.events e fun t => { s with events := t }
    else .error .integrityError
  | .insertOutbox e, s => insertOr s.outbox e fun t => { s with outbox := t }
  | .updateOutbox id sets, s =>
    .ok { s with
      outbox := s.outbox.update id (assignAll OutboxSet.assign sets)
        (assignAll_keeps OutboxSet.ident_assign sets) }
  | .insertEvaluation e, s =>
    if s.hasRun e.runId && e.jobRunId.all s.hasRun then
      insertOr s.evaluations e fun t => { s with evaluations := t }
    else .error .integrityError
  | .updateEvaluation id sets, s =>
    .ok { s with
      evaluations := s.evaluations.update id (assignAll EvaluationSet.assign sets)
        (assignAll_keeps EvaluationSet.ident_assign sets) }
  | .insertQuota q, s => insertOr s.quotas q fun t => { s with quotas := t }
  | .updateQuota scope windowStart used, s =>
    .ok { s with
      quotas := s.quotas.update scope (fun q => ⟨q.scope, windowStart, used⟩)
        (fun _ => rfl) }

instance : Writes Store Write PyError := ⟨Write.apply⟩

/-! ### Locks and transactions -/

/-- A lock: a transaction advisory lock on a scope text, or the lock of one row. -/
inductive Lock where
  | advisory (scope : String)
  | run (id : Uuid)
  | attempt (id : Uuid)
  | evaluation (id : Uuid)
  | outbox (id : Uuid)
  | tenantKey (tenantId : String)
  deriving DecidableEq, Repr

/-- A transaction of the runtime. -/
abbrev DbTx (α : Type) := Tx Store Write Lock PyError α

/-- A request to a service. -/
abbrev DbRequest (α : Type) := Request Store Write Lock PyError α

/-- Issue a write statement. -/
abbrev exec (w : Write) : DbTx Unit := Tx.exec w

/-- What one call draws from outside the database: the clock readings and `uuid4()` values.
Ids of rows that a batch writes once per run are drawn by run. -/
structure Call where
  /-- `datetime.now(UTC)` in the process. -/
  now : Timestamp
  /-- PostgreSQL `now()`, the start of the transaction. -/
  txNow : Timestamp
  /-- `clock_timestamp()` in whole seconds. -/
  epoch : ℤ
  runId : Uuid
  attemptId : Uuid
  evaluationId : Uuid
  /-- The drawn part of an evaluation job's idempotency key. -/
  jobKey : Uuid
  outboxId : Uuid → Uuid
  eventId : Uuid → ℕ → Uuid
  /-- `inject_trace_context()`. -/
  traceContext : JsonObject

end AgentRuntime.Database
