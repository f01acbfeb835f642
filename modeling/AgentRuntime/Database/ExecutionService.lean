import AgentRuntime.Database.RunService

/-!
# The execution service

Durable claims, attempts, terminal writes and stale lease recovery. Assignments to a loaded row
are written when the session flushes, after the values they need have been computed; exceptions of
the computations therefore come first.
-/

namespace AgentRuntime.Database

open Lib Domain Application

/-- The configuration of an `ExecutionPersistenceService`. -/
structure ExecutionService where
  leaseSeconds : ℤ
  quotas : QuotaLimits
  maxAttempts : ℤ

/-! ### Results -/

/-- What a claim decided. -/
inductive ClaimDecision where
  | claimed
  | terminal
  | activeLease
  | notReady
  | missing
  deriving DecidableEq, Repr

/-- The work a successful claim hands to the worker; `attemptTimeoutSeconds` replaces the entry of
that name in the snapshot. -/
structure ClaimedWork where
  attemptId : Uuid
  inputPayload : JsonObject
  policySnapshot : JsonObject
  attemptTimeoutSeconds : ℚ
  provider : String

/-- The answer to a claim. -/
structure ClaimResult where
  decision : ClaimDecision
  runId : Uuid
  work : Option ClaimedWork

/-- What an executor returns. -/
structure ExecutionResult where
  provider : String
  resultPayload : JsonObject
  usageMetadata : Option JsonObject

/-! ### Reads -/

/-- Lock the run row and read it. -/
def lockedRun (runId : Uuid) : DbTx (Option Run) := do
  Tx.acquire (.run runId)
  Tx.read fun s : Store => s.runs.get? runId

/-- Lock the attempt row and read it. -/
def lockedAttempt (attemptId : Uuid) : DbTx (Option RunAttempt) := do
  Tx.acquire (.attempt attemptId)
  Tx.read fun s : Store => s.attempts.get? attemptId

/-- The attempts of a run, in insertion order. -/
def Store.attemptsOf (s : Store) (runId : Uuid) : List RunAttempt :=
  s.attempts.select fun a => a.runId == runId

/-- `max(attempt_number) + 1`, starting from one. -/
def nextNumber (attempts : List RunAttempt) : ℕ :=
  (attempts.map RunAttempt.attemptNumber).foldr max 0 + 1

def nextAttemptNumber (runId : Uuid) : DbTx ℕ :=
  Tx.read fun s : Store => nextNumber (s.attemptsOf runId)

/-- The open attempt with the largest number. -/
def latestOpen (attempts : List RunAttempt) : Option RunAttempt :=
  ((attempts.filter fun a => a.finishedAt.isNone).insertionSort
    fun a b => b.attemptNumber ≤ a.attemptNumber).head?

def latestOpenAttempt (runId : Uuid) : DbTx (Option RunAttempt) := do
  match ← Tx.read fun s : Store => latestOpen (s.attemptsOf runId) with
  | none => pure none
  | some attempt => do
      Tx.acquire (.attempt attempt.id)
      pure (some attempt)

def ownsActiveLease (run : Run) (workerId : String) (now : Timestamp) : Bool :=
  run.executionStatus == .running && run.executionLeaseOwner == some workerId
    && run.executionLeaseExpiresAt.any fun t => decide (now < t)

/-! ### Evaluation jobs -/

/-- The evaluation of a job run. -/
def Store.evaluationOfJob (s : Store) (jobRunId : Uuid) : Option Evaluation :=
  s.evaluations.rows.find? fun e => e.jobRunId == some jobRunId

/-- The id of the latest evaluation of a run: by creation time, then by id. -/
def Store.latestEvaluation (s : Store) (runId : Uuid) : Option Uuid :=
  (((s.evaluations.select fun e => e.runId == runId).insertionSort fun a b =>
    b.createdAt.micros < a.createdAt.micros
      ∨ b.createdAt.micros = a.createdAt.micros ∧ b.id.value.toNat ≤ a.id.value.toNat).head?).map
    Evaluation.id

/-- `{**details, key: value}`. -/
def setMeta (details : Metadata) (key : String) (value : MetaValue) : Metadata :=
  if details.any fun m => m.1 == key then
    details.map fun m => if m.1 == key then (key, value) else m
  else details ++ [(key, value)]

/-- The status a finished job gives its evaluation. -/
def jobVerdict (run : Run) : EvaluationStatus :=
  if run.executionStatus = .succeeded then
    if (JsonObject.getD (run.resultPayload.getD []) "passed" .null).truthy then .passed
    else .failed
  else .error

/-- The columns a finished job assigns in its evaluation. -/
def evaluationSets (run : Run) (evaluation : Evaluation) : List EvaluationSet :=
  if run.executionStatus = .succeeded then
    [.status (jobVerdict run), .result run.resultPayload, .completedAt run.completedAt]
  else
    [.status (jobVerdict run),
      .details (setMeta evaluation.details "error_code"
        (.text (orElseText run.errorCode "EVALUATION_ERROR"))),
      .completedAt run.completedAt]

/-- Record the end of an evaluation job in its evaluation and on its source run. -/
def finalizeEvaluationJob (c : Call) (run : Run) : DbTx Unit :=
  if run.workKind ≠ .evaluation then pure ()
  else do
    match ← Tx.read fun s : Store => s.evaluationOfJob run.id with
    | none => .raise (.runtimeError "Evaluation job has no lifecycle record")
    | some evaluation => do
        Tx.acquire (.evaluation evaluation.id)
        exec (.updateEvaluation evaluation.id (evaluationSets run evaluation))
        let source ← lockedRun evaluation.runId
        let latest ← Tx.read fun s : Store => s.latestEvaluation evaluation.runId
        if source.isSome ∧ latest = some evaluation.id then
          exec (.updateRun evaluation.runId [.evaluationStatus (jobVerdict run)])
        else pure ()
        exec (.insertEvent (newEvent c run.id 1 evaluation.runId none (.evaluation (jobVerdict run))
          [("job_run_id", .uuid run.id)]))

/-! ### Claims -/

/-- Whether as many runs of a scope are running as the limit allows. -/
def atCapacity (p : Run → Bool) (limit : ℤ) : DbTx Bool := do
  let count ← Tx.read fun s : Store => countRuns s p [.running]
  pure (decide (limit ≤ count))

/-- The columns a deferred claim assigns. -/
def deferSets (nextAttemptAt : Timestamp) : List RunSet :=
  [.executionStatus .retryScheduled, .nextAttemptAt (some nextAttemptAt)]

/-- Put the run off for a second. -/
def deferRun (c : Call) (run : Run) : DbTx ClaimResult := do
  let nextAttemptAt ← Tx.ofExcept (c.now.addSeconds 1)
  exec (.updateRun run.id (deferSets nextAttemptAt))
  pure ⟨.notReady, run.id, none⟩

/-- The policy under which attempt `attemptNumber` may start. -/
def claimPolicy (svc : ExecutionService) (run : Run) (attemptNumber : ℕ) :
    Except PyError RetryPolicy := do
  let policy ← RetryPolicy.fromSnapshot run.policySnapshot
  if min (policy.maxAttempts : ℤ) svc.maxAttempts < attemptNumber then
    .error (.valueError "Attempt budget exhausted")
  else .ok policy

/-- The columns a rejected claim assigns. -/
def rejectSets (now : Timestamp) : List RunSet :=
  [.executionStatus .failed, .errorCode (some "INVALID_STORED_POLICY"), .completedAt (some now)]

/-- Fail a run whose stored policy does not allow another attempt. -/
def rejectRun (c : Call) (run : Run) : DbTx ClaimResult := do
  exec (.updateRun run.id (rejectSets c.now))
  finalizeEvaluationJob c (assignAll RunSet.assign (rejectSets c.now) run)
  pure ⟨.terminal, run.id, none⟩

/-- The row of a new attempt. -/
def newAttempt (c : Call) (run : Run) (attemptNumber : ℕ) (provider workerId : String) :
    RunAttempt where
  id := c.attemptId
  runId := run.id
  attemptNumber := attemptNumber
  provider := provider
  workerId := workerId
  startedAt := c.txNow
  finishedAt := none
  outcome := none
  errorCode := none
  retryable := none
  latencyMs := none
  usageMetadata := none

/-- The columns a successful claim assigns. -/
def startSets (c : Call) (run : Run) (workerId : String) (leaseExpiresAt : Timestamp) :
    List RunSet :=
  [.executionStatus .running, .executionLeaseOwner (some workerId),
    .executionLeaseExpiresAt (some leaseExpiresAt), .startedAt (some (run.startedAt.getD c.now))]

/-- Start attempt `attemptNumber`. -/
def startAttempt (svc : ExecutionService) (c : Call) (run : Run) (workerId : String)
    (attemptNumber : ℕ) (policy : RetryPolicy) : DbTx ClaimResult := do
  let provider := policy.providerFor attemptNumber
  let leaseExpiresAt ← Tx.ofExcept (c.now.addSeconds svc.leaseSeconds)
  exec (.updateRun run.id (startSets c run workerId leaseExpiresAt))
  exec (.insertAttempt (newAttempt c run attemptNumber provider workerId))
  exec (.insertEvent (newEvent c run.id 0 run.id (some c.attemptId) .runClaimed
    [("worker_id", .text workerId), ("attempt_number", .number attemptNumber)]))
  pure ⟨.claimed, run.id, some
    { attemptId := c.attemptId
      inputPayload := run.inputPayload
      policySnapshot := run.policySnapshot
      attemptTimeoutSeconds := min policy.attemptTimeoutSeconds (svc.leaseSeconds - 1)
      provider := provider }⟩

/-- The claim of a queued run that may run now. -/
def claimUnderQuota (svc : ExecutionService) (c : Call) (run : Run) (workerId : String) :
    DbTx ClaimResult := do
  let attemptNumber ← nextAttemptNumber run.id
  match claimPolicy svc run attemptNumber with
  | .ok policy => startAttempt svc c run workerId attemptNumber policy
  | .error (.valueError _) => rejectRun c run
  | .error e => .raise e

/-- The claim of a queued run: quotas first, then the policy. -/
def claimQueued (svc : ExecutionService) (c : Call) (run : Run) (workerId : String) :
    DbTx ClaimResult := do
  let principal := orElseText run.principalId run.clientId
  if ← atCapacity (ofPrincipal principal) svc.quotas.principalRunning then deferRun c run
  else if ← atCapacity (ofTenant run.clientId) svc.quotas.tenantRunning then deferRun c run
  else claimUnderQuota svc c run workerId

/-- The claim of a locked run, by status. -/
def claimLocked (svc : ExecutionService) (c : Call) (run : Run) (workerId : String) :
    DbTx ClaimResult :=
  if isTerminalExecutionStatus run.executionStatus then pure ⟨.terminal, run.id, none⟩
  else if run.executionStatus = .running then
    if run.executionLeaseExpiresAt.all fun t => decide (c.now < t) then
      pure ⟨.activeLease, run.id, none⟩
    else pure ⟨.notReady, run.id, none⟩
  else if run.executionStatus ≠ .queued then pure ⟨.notReady, run.id, none⟩
  else claimQueued svc c run workerId

def claim (svc : ExecutionService) (c : Call) (runId : Uuid) (workerId : String) :
    DbTx ClaimResult := do
  match ← Tx.read fun s : Store => s.runs.get? runId with
  | none => pure ⟨.missing, runId, none⟩
  | some identity => do
      lockIdentity (orElseText identity.principalId identity.clientId) identity.clientId
      match ← lockedRun runId with
      | none => pure ⟨.missing, runId, none⟩
      | some run => claimLocked svc c run workerId

/-! ### Completions -/

/-- `_clear_lease`. -/
def clearLease : List RunSet := [.executionLeaseOwner none, .executionLeaseExpiresAt none]

/-- The columns of an attempt that succeeded. -/
def finishSucceededAttempt (attempt : RunAttempt) (now : Timestamp) (result : ExecutionResult) :
    List AttemptSet :=
  [.provider result.provider, .usageMetadata result.usageMetadata, .finishedAt (some now),
    .outcome (some .succeeded), .latencyMs (some (millisecondsBetween now attempt.startedAt))]

/-- The columns of a run that succeeded. -/
def succeedSets (now : Timestamp) (result : ExecutionResult) : List RunSet :=
  [.executionStatus .succeeded, .resultPayload (some result.resultPayload),
    .completedAt (some now), .errorCode none, .nextAttemptAt none] ++ clearLease

/-- The open attempt `attemptId` of a run on which the worker holds the lease; every completion
call starts here. -/
def activeAttempt (c : Call) (runId attemptId : Uuid) (workerId : String) :
    DbTx (Option (Run × RunAttempt)) := do
  match ← lockedRun runId with
  | none => pure none
  | some run =>
    if ¬ ownsActiveLease run workerId c.now then pure none
    else
      match ← lockedAttempt attemptId with
      | none => pure none
      | some attempt =>
        if attempt.runId ≠ run.id ∨ attempt.finishedAt ≠ none then pure none
        else pure (some (run, attempt))

def completeSuccess (c : Call) (runId attemptId : Uuid) (workerId : String)
    (result : ExecutionResult) : DbTx Bool := do
  match ← activeAttempt c runId attemptId workerId with
  | none => pure false
  | some (run, attempt) => do
      exec (.updateAttempt attempt.id (finishSucceededAttempt attempt c.now result))
      exec (.updateRun run.id (succeedSets c.now result))
      exec (.insertEvent (newEvent c run.id 0 run.id (some attempt.id) .runSucceeded
        [("provider", .text result.provider)]))
      finalizeEvaluationJob c (assignAll RunSet.assign (succeedSets c.now result) run)
      pure true

/-- The columns of an attempt that failed. -/
def finishFailedAttempt (attempt : RunAttempt) (now : Timestamp) (errorCode : String) :
    List AttemptSet :=
  [.finishedAt (some now), .outcome (some .failed), .errorCode (some errorCode),
    .retryable (some (isRetryableError errorCode)),
    .latencyMs (some (millisecondsBetween now attempt.startedAt))]

/-- The columns of a run that will be retried. -/
def retrySets (errorCode : String) (nextAttemptAt : Timestamp) : List RunSet :=
  clearLease ++ [.errorCode (some errorCode), .executionStatus .retryScheduled,
    .nextAttemptAt (some nextAttemptAt)]

/-- The columns of a run that ends with an error. -/
def endSets (status : ExecutionStatus) (now : Timestamp) (errorCode : String) : List RunSet :=
  clearLease ++ [.errorCode (some errorCode), .nextAttemptAt none, .completedAt (some now),
    .executionStatus status]

/-- A `RUN_DEAD_LETTERED` outbox event. -/
def deadLetterOutbox (c : Call) (run : Run) (errorCode : String) : OutboxEvent where
  id := c.outboxId run.id
  aggregateId := run.id
  eventType := .runDeadLettered
  payload := [("trace_context", .obj run.traceContext), ("error_code", .str errorCode)]
  createdAt := c.txNow
  publishedAt := none
  publishAttempts := 0
  lastError := none

/-- After a failed attempt: schedule a retry, or end the run. -/
def scheduleRetryOrFinalize (c : Call) (run : Run) (attempt : RunAttempt) (errorCode : String)
    (recovery : Bool) : DbTx Unit := do
  let policy ← Tx.ofExcept (RetryPolicy.fromSnapshot run.policySnapshot)
  let finish := finishFailedAttempt attempt c.now errorCode
  if isRetryableError errorCode ∧ attempt.attemptNumber < policy.maxAttempts then do
    let delaySeconds ← Tx.ofExcept (policy.delayAfterAttempt attempt.attemptNumber)
    let nextAttemptAt ← Tx.ofExcept (c.now.addSeconds delaySeconds)
    exec (.updateAttempt attempt.id finish)
    exec (.updateRun run.id (retrySets errorCode nextAttemptAt))
    exec (.insertEvent (newEvent c run.id 0 run.id (some attempt.id) .runRetryScheduled
      [("error_code", .text errorCode), ("attempt_number", .number attempt.attemptNumber),
        ("next_attempt_at", .time nextAttemptAt), ("delay_seconds", .seconds delaySeconds),
        ("recovery", .flag recovery)]))
  else do
    exec (.updateAttempt attempt.id finish)
    if isRetryableError errorCode then do
      exec (.updateRun run.id (endSets .deadLettered c.now errorCode))
      exec (.insertOutbox (deadLetterOutbox c run errorCode))
      exec (.insertEvent (newEvent c run.id 0 run.id (some attempt.id) .runDeadLettered
        [("error_code", .text errorCode), ("attempt_number", .number attempt.attemptNumber),
          ("max_attempts", .number policy.maxAttempts), ("recovery", .flag recovery)]))
      finalizeEvaluationJob c
        (assignAll RunSet.assign (endSets .deadLettered c.now errorCode) run)
    else do
      exec (.updateRun run.id (endSets .failed c.now errorCode))
      exec (.insertEvent (newEvent c run.id 0 run.id (some attempt.id) .runFailed
        [("error_code", .text errorCode), ("recovery", .flag recovery)]))
      finalizeEvaluationJob c (assignAll RunSet.assign (endSets .failed c.now errorCode) run)

def completeFailure (c : Call) (runId attemptId : Uuid) (workerId : String)
    (errorCode : String) : DbTx Bool := do
  match ← activeAttempt c runId attemptId workerId with
  | none => pure false
  | some (run, attempt) => do
      scheduleRetryOrFinalize c run attempt errorCode false
      pure true

/-! ### Recovery and scheduling -/

/-- The row locks a batch statement takes: of the rows that satisfy the clause, in the order of a
column, those that no other transaction has locked, up to the limit. -/
def batchLocks (clause : Run → Bool) (column : Run → Option Timestamp) (batchSize : ℕ)
    (s : Store) (busy : Lock → Bool) : List Lock :=
  ((((s.runs.select clause).insertionSort fun a b =>
    ((column a).map Timestamp.micros).getD 0 ≤ ((column b).map Timestamp.micros).getD 0).map
      fun r => Lock.run r.id).filter fun l => !busy l).take batchSize

/-- The run row a lock protects. -/
def Store.lockedRow (s : Store) : Lock → Option Run
  | .run id => s.runs.get? id
  | _ => none

/-- Lock a batch of rows and read them. -/
def lockBatch (clause : Run → Bool) (column : Run → Option Timestamp) (batchSize : ℕ) :
    DbTx (List Run) := do
  let locks ← Tx.acquireFree (batchLocks clause column batchSize)
  Tx.read fun s : Store => locks.filterMap s.lockedRow

/-- The clause of `recover_expired_leases`. -/
def leaseExpired (now : Timestamp) (r : Run) : Bool :=
  r.executionStatus == .running && r.executionLeaseExpiresAt.any fun t => decide (t ≤ now)

/-- Fail the open attempt of one run whose lease has expired. -/
def recoverRun (c : Call) (run : Run) : DbTx Unit := do
  match ← latestOpenAttempt run.id with
  | none => pure ()
  | some attempt =>
    scheduleRetryOrFinalize c run attempt ExecutionErrorCode.executionLeaseExpired.value true

def recoverExpiredLeases (c : Call) (batchSize : ℕ) : DbTx ℕ := do
  let runs ← lockBatch (leaseExpired c.now) Run.executionLeaseExpiresAt batchSize
  Tx.forEach runs (recoverRun c)
  pure runs.length

/-- The clause of `schedule_due_retries`. -/
def retryDue (now : Timestamp) (r : Run) : Bool :=
  r.executionStatus == .retryScheduled && r.nextAttemptAt.any fun t => decide (t ≤ now)

/-- The columns of a run that goes back to the queue. -/
def requeueSets : List RunSet := [.executionStatus .queued, .nextAttemptAt none]

/-- Queue one run whose retry is due. -/
def requeueRun (c : Call) (run : Run) : DbTx Unit := do
  exec (.updateRun run.id requeueSets)
  exec (.insertOutbox (queuedOutbox c run.id
    [("trace_context", .obj run.traceContext), ("reason", .str "retry_due")]))
  exec (.insertEvent (newEvent c run.id 0 run.id none .runRetryQueued
    [("scheduled_at", .time c.now)]))

/-- Turn persisted due retries into outbox work; safe across scheduler restarts. -/
def scheduleDueRetries (c : Call) (batchSize : ℕ) : DbTx ℕ := do
  let runs ← lockBatch (retryDue c.now) Run.nextAttemptAt batchSize
  Tx.forEach runs (requeueRun c)
  pure runs.length

end AgentRuntime.Database
