import AgentRuntime.Database.Rules
import AgentRuntime.Lifecycle.View

/-!
# What an operation can do to one run

The abstract model of the runtime: a run moves only by the steps listed in `RunStep`, each with
the guard under which the services take it, and between them other work may leave a `Note`: a new
evaluation status, a remark in the history, or the delivery columns of an outbox event.

`Effect` is what one operation does to one run: notes, and at most one step among them. The
simulation module shows that every operation of the services has such an effect on every run; the
lifecycle properties are then proved from the steps alone.
-/

namespace AgentRuntime.Lifecycle

open Lib Domain Database

/-! ### What the services assign -/

section Assignments

variable (c : Call) (now t : Timestamp) (r r' : Run) (a a' : RunAttempt) (workerId code : String)
  (status : ExecutionStatus) (result : ExecutionResult)

@[simp] theorem assign_startSets : assignAll RunSet.assign (startSets c r' workerId t) r =
    { r with
      executionStatus := .running, executionLeaseOwner := some workerId,
      executionLeaseExpiresAt := some t, startedAt := some (r'.startedAt.getD c.now) } := by
  simp only [startSets, assignAll_cons, assignAll_nil, RunSet.assign]

@[simp] theorem assign_deferSets : assignAll RunSet.assign (deferSets t) r =
    { r with executionStatus := .retryScheduled, nextAttemptAt := some t } := by
  simp only [deferSets, assignAll_cons, assignAll_nil, RunSet.assign]

@[simp] theorem assign_rejectSets : assignAll RunSet.assign (rejectSets now) r =
    { r with
      executionStatus := .failed, errorCode := some "INVALID_STORED_POLICY",
      completedAt := some now } := by
  simp only [rejectSets, assignAll_cons, assignAll_nil, RunSet.assign]

@[simp] theorem assign_succeedSets : assignAll RunSet.assign (succeedSets now result) r =
    { r with
      executionStatus := .succeeded, resultPayload := some result.resultPayload,
      completedAt := some now, errorCode := none, nextAttemptAt := none,
      executionLeaseOwner := none, executionLeaseExpiresAt := none } := by
  simp only [succeedSets, clearLease, List.cons_append, List.nil_append, assignAll_cons,
    assignAll_nil, RunSet.assign]

@[simp] theorem assign_retrySets : assignAll RunSet.assign (retrySets code t) r =
    { r with
      executionLeaseOwner := none, executionLeaseExpiresAt := none, errorCode := some code,
      executionStatus := .retryScheduled, nextAttemptAt := some t } := by
  simp only [retrySets, clearLease, List.cons_append, List.nil_append, assignAll_cons,
    assignAll_nil, RunSet.assign]

@[simp] theorem assign_endSets : assignAll RunSet.assign (endSets status now code) r =
    { r with
      executionLeaseOwner := none, executionLeaseExpiresAt := none, errorCode := some code,
      nextAttemptAt := none, completedAt := some now, executionStatus := status } := by
  simp only [endSets, clearLease, List.cons_append, List.nil_append, assignAll_cons,
    assignAll_nil, RunSet.assign]

@[simp] theorem assign_requeueSets : assignAll RunSet.assign requeueSets r =
    { r with executionStatus := .queued, nextAttemptAt := none } := by
  simp only [requeueSets, assignAll_cons, assignAll_nil, RunSet.assign]

@[simp] theorem assign_evaluationStatus (x : EvaluationStatus) :
    assignAll RunSet.assign [.evaluationStatus x] r = { r with evaluationStatus := x } := rfl

@[simp] theorem assign_finishSucceeded :
    assignAll AttemptSet.assign (finishSucceededAttempt a' now result) a =
      { a with
        provider := result.provider, usageMetadata := result.usageMetadata,
        finishedAt := some now, outcome := some .succeeded,
        latencyMs := some (millisecondsBetween now a'.startedAt) } := by
  simp only [finishSucceededAttempt, assignAll_cons, assignAll_nil, AttemptSet.assign]

@[simp] theorem assign_finishFailed :
    assignAll AttemptSet.assign (finishFailedAttempt a' now code) a =
      { a with
        finishedAt := some now, outcome := some .failed, errorCode := some code,
        retryable := some (isRetryableError code),
        latencyMs := some (millisecondsBetween now a'.startedAt) } := by
  simp only [finishFailedAttempt, assignAll_cons, assignAll_nil, AttemptSet.assign]

end Assignments

/-! ### Notes -/

/-- The events other work leaves in the history of a run. -/
def isRemark : EventType → Bool
  | .routingDecisionRecorded => true
  | .evaluation _ => true
  | .replayCreated => true
  | .outboxPublished => true
  | .outboxPublishFailed => true
  | _ => false

/-- A change that does not move the run. -/
inductive Note : RunView → RunView → Prop where
  | evaluationStatus (v : RunView) (x : EvaluationStatus) : Note v (v.setRun [.evaluationStatus x])
  | remark (v : RunView) (e : RunEvent) (hrun : v.run.isSome) (he : isRemark e.eventType = true) :
      Note v (v.addEvent e)
  | delivery (v : RunView) (id : Uuid) (sets : List OutboxSet) : Note v (v.setOutbox id sets)

/-- Any number of notes. -/
abbrev Noted : RunView → RunView → Prop := Relation.ReflTransGen Note

/-! ### Guards -/

/-- How the open attempt `a` of a run came to fail: its worker reports an error code while it holds
the lease, or recovery finds the lease expired. -/
inductive Failing (i : Input) (answer : Answer) (v : RunView) (r : Run) (a : RunAttempt) :
    String → Bool → Prop where
  | worker {workerId errorCode : String}
      (hop : i.op = .completeFailure r.id a.id workerId errorCode)
      (hanswer : answer = .completed true)
      (hlease : ownsActiveLease r workerId i.call.now = true)
      (hmem : a ∈ v.attempts) (hopen : a.finishedAt = none) :
      Failing i answer v r a errorCode false
  | recovery {batchSize : ℕ}
      (hop : i.op = .recoverExpiredLeases batchSize)
      (hexpired : leaseExpired i.call.now r = true)
      (hlatest : latestOpen v.attempts = some a) :
      Failing i answer v r a ExecutionErrorCode.executionLeaseExpired.value true

/-! ### Steps -/

/-- One step of a run, taken by operation `i` on store `s` with the given answer. -/
inductive RunStep (s : Store) (i : Input) (answer : Answer) : RunView → RunView → Prop where
  /-- The run is accepted. -/
  | created {v : RunView} {clientId principal key hash : String} {kind : WorkKind}
      {input policy payload : JsonObject} {source : Option Uuid} {event : RunEvent}
      (hnone : v.run = none)
      (hevent : event.eventType = .runQueued ∨ event.eventType = .runReplayQueued) :
      RunStep s i answer v
        (((v.addRun (newRun i.call clientId principal kind key hash input policy source)).addOutbox
          (queuedOutbox i.call i.call.runId payload)).addEvent event)
  /-- A worker claims the queued run. -/
  | started {v : RunView} {r : Run} {svc : ExecutionService} {workerId : String}
      {policy : RetryPolicy} {expires : Timestamp} {work : ClaimedWork}
      (hop : i.op = .claim svc r.id workerId)
      (hanswer : answer = .claim ⟨.claimed, r.id, some work⟩)
      (hattempt : work.attemptId = i.call.attemptId)
      (hprovider : work.provider = policy.providerFor (nextNumber v.attempts))
      (hrun : v.run = some r) (hqueued : r.executionStatus = .queued)
      (hquota : ¬ runningQuotaFull svc.quotas s r)
      (hpolicy : claimPolicy svc r (nextNumber v.attempts) = .ok policy)
      (hlease : i.call.now.addSeconds svc.leaseSeconds = .ok expires) :
      RunStep s i answer v
        (((v.setRun (startSets i.call r workerId expires)).addAttempt
          (newAttempt i.call r (nextNumber v.attempts)
            (policy.providerFor (nextNumber v.attempts)) workerId)).addEvent
          (newEvent i.call r.id 0 r.id (some i.call.attemptId) .runClaimed
            [("worker_id", .text workerId), ("attempt_number", .number (nextNumber v.attempts))]))
  /-- A claim puts the queued run off because a running quota is used up. -/
  | deferred {v : RunView} {r : Run} {svc : ExecutionService} {workerId : String} {t : Timestamp}
      (hop : i.op = .claim svc r.id workerId)
      (hanswer : answer = .claim ⟨.notReady, r.id, none⟩)
      (hrun : v.run = some r) (hqueued : r.executionStatus = .queued)
      (hquota : runningQuotaFull svc.quotas s r)
      (htime : i.call.now.addSeconds 1 = .ok t) :
      RunStep s i answer v (v.setRun (deferSets t))
  /-- A claim fails the queued run because its policy allows no further attempt. -/
  | rejected {v : RunView} {r : Run} {svc : ExecutionService} {workerId message : String}
      (hop : i.op = .claim svc r.id workerId)
      (hanswer : answer = .claim ⟨.terminal, r.id, none⟩)
      (hrun : v.run = some r) (hqueued : r.executionStatus = .queued)
      (hquota : ¬ runningQuotaFull svc.quotas s r)
      (hpolicy : claimPolicy svc r (nextNumber v.attempts) = .error (.valueError message)) :
      RunStep s i answer v (v.setRun (rejectSets i.call.now))
  /-- The worker that holds the lease reports success. -/
  | succeeded {v : RunView} {r : Run} {a : RunAttempt} {workerId : String}
      {result : ExecutionResult}
      (hop : i.op = .completeSuccess r.id a.id workerId result)
      (hanswer : answer = .completed true)
      (hrun : v.run = some r) (hlease : ownsActiveLease r workerId i.call.now = true)
      (hmem : a ∈ v.attempts) (hopen : a.finishedAt = none) :
      RunStep s i answer v
        (((v.setAttempt a.id (finishSucceededAttempt a i.call.now result)).setRun
          (succeedSets i.call.now result)).addEvent
          (newEvent i.call r.id 0 r.id (some a.id) .runSucceeded
            [("provider", .text result.provider)]))
  /-- An attempt failed and another one is allowed. -/
  | retried {v : RunView} {r : Run} {a : RunAttempt} {code : String} {recovery : Bool}
      {policy : RetryPolicy} {delay : ℚ} {t : Timestamp}
      (hfail : Failing i answer v r a code recovery) (hrun : v.run = some r)
      (hpolicy : RetryPolicy.fromSnapshot r.policySnapshot = .ok policy)
      (hretry : isRetryableError code = true) (hbudget : a.attemptNumber < policy.maxAttempts)
      (hdelay : policy.delayAfterAttempt a.attemptNumber = .ok delay)
      (htime : i.call.now.addSeconds delay = .ok t) :
      RunStep s i answer v
        (((v.setAttempt a.id (finishFailedAttempt a i.call.now code)).setRun
          (retrySets code t)).addEvent
          (newEvent i.call r.id 0 r.id (some a.id) .runRetryScheduled
            [("error_code", .text code), ("attempt_number", .number a.attemptNumber),
              ("next_attempt_at", .time t), ("delay_seconds", .seconds delay),
              ("recovery", .flag recovery)]))
  /-- An attempt failed with a retryable code and the budget of the policy is used up. -/
  | deadLettered {v : RunView} {r : Run} {a : RunAttempt} {code : String} {recovery : Bool}
      {policy : RetryPolicy}
      (hfail : Failing i answer v r a code recovery) (hrun : v.run = some r)
      (hpolicy : RetryPolicy.fromSnapshot r.policySnapshot = .ok policy)
      (hretry : isRetryableError code = true) (hbudget : policy.maxAttempts ≤ a.attemptNumber) :
      RunStep s i answer v
        ((((v.setAttempt a.id (finishFailedAttempt a i.call.now code)).setRun
          (endSets .deadLettered i.call.now code)).addOutbox
          (deadLetterOutbox i.call r code)).addEvent
          (newEvent i.call r.id 0 r.id (some a.id) .runDeadLettered
            [("error_code", .text code), ("attempt_number", .number a.attemptNumber),
              ("max_attempts", .number policy.maxAttempts), ("recovery", .flag recovery)]))
  /-- An attempt failed with a code that is not retried. -/
  | failed {v : RunView} {r : Run} {a : RunAttempt} {code : String} {recovery : Bool}
      {policy : RetryPolicy}
      (hfail : Failing i answer v r a code recovery) (hrun : v.run = some r)
      (hpolicy : RetryPolicy.fromSnapshot r.policySnapshot = .ok policy)
      (hretry : isRetryableError code = false) :
      RunStep s i answer v
        (((v.setAttempt a.id (finishFailedAttempt a i.call.now code)).setRun
          (endSets .failed i.call.now code)).addEvent
          (newEvent i.call r.id 0 r.id (some a.id) .runFailed
            [("error_code", .text code), ("recovery", .flag recovery)]))
  /-- A due retry goes back to the queue. -/
  | requeued {v : RunView} {r : Run} {batchSize : ℕ}
      (hop : i.op = .scheduleDueRetries batchSize) (hrun : v.run = some r)
      (hdue : retryDue i.call.now r = true) :
      RunStep s i answer v
        (((v.setRun requeueSets).addOutbox (queuedOutbox i.call r.id
          [("trace_context", .obj r.traceContext), ("reason", .str "retry_due")])).addEvent
          (newEvent i.call r.id 0 r.id none .runRetryQueued [("scheduled_at", .time i.call.now)]))

/-- What one operation does to one run: notes, with at most one step among them. -/
inductive Effect (s : Store) (i : Input) (answer : Answer) : RunView → RunView → Prop where
  | noted {v v' : RunView} (h : Noted v v') : Effect s i answer v v'
  | stepped {v v1 v2 v' : RunView} (hbefore : Noted v v1) (hstep : RunStep s i answer v1 v2)
      (hafter : Noted v2 v') : Effect s i answer v v'

namespace Effect

variable {s : Store} {i : Input} {answer : Answer} {v v1 v' : RunView}

theorem refl (v : RunView) : Effect s i answer v v := .noted .refl

theorem step (h : RunStep s i answer v v') : Effect s i answer v v' := .stepped .refl h .refl

/-- Notes after an effect belong to it. -/
theorem trans_noted (h : Effect s i answer v v1) (hn : Noted v1 v') : Effect s i answer v v' := by
  cases h with
  | noted h => exact .noted (h.trans hn)
  | stepped hbefore hstep hafter => exact .stepped hbefore hstep (hafter.trans hn)

/-- Notes before an effect belong to it. -/
theorem noted_trans (hn : Noted v v1) (h : Effect s i answer v1 v') : Effect s i answer v v' := by
  cases h with
  | noted h => exact .noted (hn.trans h)
  | stepped hbefore hstep hafter => exact .stepped (hn.trans hbefore) hstep hafter

end Effect

end AgentRuntime.Lifecycle
