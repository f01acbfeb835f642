import AgentRuntime.Execution.ResourceExecutor
import AgentRuntime.Lib.Machine
import AgentRuntime.Messaging.Dispatcher

/-!
# The service as a machine

Every operation of the two services, the dispatcher and the executor's charges, as the inputs of
one machine over the store. An operation is one committed transaction, or a raised exception that
leaves the store as it was. Each input carries the configuration of the service it is sent to,
so that differently configured processes may share the store, the clock readings and drawn ids of
the call, and the row locks other transactions hold.
-/

namespace AgentRuntime.Database

open Lib Domain Application Messaging Execution

/-- An operation. -/
inductive Op where
  | submit (svc : RunService) (clientId idempotencyKey : String)
      (inputPayload policySnapshot : JsonObject) (principalId : Option String)
  | submitRegression (svc : RunService) (clientId principalId : String) (payload : JsonObject)
      (idempotencyKey : String)
  | evaluate (svc : RunService) (clientId : String) (runId : Uuid) (rules : List JsonObject)
      (principalId : Option String)
  | replay (svc : RunService) (clientId : String) (runId : Uuid) (idempotencyKey : String)
      (principalId : Option String)
  | claim (svc : ExecutionService) (runId : Uuid) (workerId : String)
  | completeSuccess (runId attemptId : Uuid) (workerId : String) (result : ExecutionResult)
  | completeFailure (runId attemptId : Uuid) (workerId errorCode : String)
  | recoverExpiredLeases (batchSize : ℕ)
  | scheduleDueRetries (batchSize : ℕ)
  | charge (limits : QuotaLimits) (runId attemptId : Uuid) (workerId : String)
  | dispatchOne (publish : OutboxEvent → Except String Unit)

/-- An operation together with what it draws from outside and the locks others hold. -/
structure Input where
  op : Op
  call : Call
  busy : Lock → Bool

/-- What an operation returns. -/
inductive Answer where
  | run (snapshot : RunSnapshot) (replayed : Bool)
  | evaluation (snapshot : EvaluationSnapshot)
  | claim (result : ClaimResult)
  | completed (persisted : Bool)
  | count (n : ℕ)
  | dispatched (result : DispatchResult)
  | unit

/-- The exception of a step. -/
def raised : Except PyError Answer → Option PyError
  | .ok _ => none
  | .error e => some e

/-- A returned answer with the committed store, or the exception raised. -/
abbrev Outcome := Except PyError (Answer × Store)

section

variable [Externals]

/-- Run the operation on the store. -/
def Input.run (i : Input) (s : Store) : Outcome :=
  match i.op with
  | .submit svc clientId idempotencyKey inputPayload policySnapshot principalId =>
    ((Database.submit svc i.call clientId idempotencyKey inputPayload policySnapshot principalId
      .execution).run i.busy s).map fun p => (.run p.1.1 p.1.2, p.2)
  | .submitRegression svc clientId principalId payload idempotencyKey =>
    ((Database.submitRegression svc i.call clientId principalId payload idempotencyKey).run
      i.busy s).map fun p => (.run p.1.1 p.1.2, p.2)
  | .evaluate svc clientId runId rules principalId =>
    ((Database.evaluate svc i.call clientId runId rules principalId).run i.busy s).map
      fun p => (.evaluation p.1, p.2)
  | .replay svc clientId runId idempotencyKey principalId =>
    ((Database.replay svc i.call clientId runId idempotencyKey principalId).run i.busy s).map
      fun p => (.run p.1.1 p.1.2, p.2)
  | .claim svc runId workerId =>
    ((Database.claim svc i.call runId workerId).run i.busy s).map fun p => (.claim p.1, p.2)
  | .completeSuccess runId attemptId workerId result =>
    ((Database.completeSuccess i.call runId attemptId workerId result).run i.busy s).map
      fun p => (.completed p.1, p.2)
  | .completeFailure runId attemptId workerId errorCode =>
    ((Database.completeFailure i.call runId attemptId workerId errorCode).run i.busy s).map
      fun p => (.completed p.1, p.2)
  | .recoverExpiredLeases batchSize =>
    ((Database.recoverExpiredLeases i.call batchSize).run i.busy s).map
      fun p => (.count p.1, p.2)
  | .scheduleDueRetries batchSize =>
    ((Database.scheduleDueRetries i.call batchSize).run i.busy s).map
      fun p => (.count p.1, p.2)
  | .charge limits runId attemptId workerId =>
    ((chargeAttempt limits i.call runId attemptId workerId).run i.busy s).map
      fun p => (.unit, p.2)
  | .dispatchOne publish =>
    ((Messaging.dispatchOne i.call publish).run i.busy s).map fun p => (.dispatched p.1, p.2)

/-- The machine: an exception leaves the store as it was. -/
def service : Machine Store Input (Except PyError Answer) where
  init := Store.empty
  step s i :=
    match i.run s with
    | .ok (answer, s') => (.ok answer, s')
    | .error e => (.error e, s)

theorem service_step_ok {s s' : Store} {i : Input} {answer : Answer}
    (h : i.run s = .ok (answer, s')) : service.step s i = (.ok answer, s') := by
  simp only [service, h]

theorem service_step_error {s : Store} {i : Input} {e : PyError} (h : i.run s = .error e) :
    service.step s i = (.error e, s) := by
  simp only [service, h]

/-- A step commits what the operation returned, or changes nothing. -/
theorem service_step_cases (s : Store) (i : Input) :
    (∃ answer s', i.run s = .ok (answer, s') ∧ service.step s i = (.ok answer, s'))
      ∨ ∃ e, i.run s = .error e ∧ service.step s i = (.error e, s) := by
  cases h : i.run s with
  | ok p => exact .inl ⟨p.1, p.2, rfl, service_step_ok h⟩
  | error e => exact .inr ⟨e, rfl, service_step_error h⟩

theorem service_step_fst_error {s : Store} {i : Input} {e : PyError} :
    (service.step s i).1 = .error e ↔ i.run s = .error e := by
  rcases service_step_cases s i with ⟨answer, s', hrun, hstep⟩ | ⟨e', hrun, hstep⟩
  · simp [hrun, hstep]
  · simp [hrun, hstep]

end

/-! ### A sample deployment

Concrete services, clock readings and ids on which the general statements are evaluated. -/

/-- A constant hash and a validator that accepts every rule. -/
@[reducible] def sampleExternals : Externals := ⟨fun _ => "digest", fun _ => .ok ()⟩

/-- The services of the sample deployment. -/
abbrev sampleService : Machine Store Input (Except PyError Answer) := @service sampleExternals

def sampleUuid (n : ℕ) : Uuid := ⟨BitVec.ofNat 128 n⟩

/-- The time a number of seconds after the first representable one. -/
def sampleTime (seconds : ℕ) : Timestamp :=
  ⟨min (1000000 * seconds) datetimeMax, Nat.min_le_right _ _⟩

/-- Call number `n`, made at the given time: every id it draws is new. -/
def sampleCall (seconds n : ℕ) : Call where
  now := sampleTime seconds
  txNow := sampleTime seconds
  epoch := seconds
  runId := sampleUuid n
  attemptId := sampleUuid n
  evaluationId := sampleUuid n
  jobKey := sampleUuid n
  outboxId run := ⟨BitVec.ofNat 128 (1000 * run.value.toNat + n)⟩
  eventId run k := ⟨BitVec.ofNat 128 (10000 * run.value.toNat + 10 * n + k)⟩
  traceContext := []

/-- Operation number `n`, run at the given time while nobody holds a lock. -/
def sampleInput (seconds n : ℕ) (op : Op) : Input := ⟨op, sampleCall seconds n, fun _ => false⟩

def sampleRunService : RunService := ⟨QuotaLimits.default, .int 60⟩

def sampleWorker : ExecutionService := ⟨120, QuotaLimits.default, 3⟩

/-- Accept a run with an empty input under the given policy; its id is `sampleUuid n`. -/
def sampleSubmit (seconds n : ℕ) (policySnapshot : JsonObject) : Input :=
  sampleInput seconds n (.submit sampleRunService "tenant" "key" [] policySnapshot none)

def sampleClaim (seconds n run : ℕ) : Input :=
  sampleInput seconds n (.claim sampleWorker (sampleUuid run) "worker")

def sampleSucceed (seconds n run attempt : ℕ) : Input :=
  sampleInput seconds n
    (.completeSuccess (sampleUuid run) (sampleUuid attempt) "worker" ⟨"deterministic", [], none⟩)

def sampleFail (seconds n run attempt : ℕ) (errorCode : String) : Input :=
  sampleInput seconds n
    (.completeFailure (sampleUuid run) (sampleUuid attempt) "worker" errorCode)

/-- A run that fails once, is retried and then succeeds. -/
def sampleRetriedRun : List Input :=
  [sampleSubmit 0 1 [], sampleClaim 1 2 1, sampleFail 2 3 1 2 "EXECUTION_ERROR",
    sampleInput 10 4 (.scheduleDueRetries 100), sampleClaim 11 5 1, sampleSucceed 12 6 1 5]

end AgentRuntime.Database
