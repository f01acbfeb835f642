import AgentRuntime.Database.Footprint
import AgentRuntime.Lib.Interleaving

/-!
# The services among each other

All operations of the runtime as requests that interleave statement by statement. Besides the locks
that the programs name, an `INSERT` takes the unique keys of its row, so that a second one with the
same key waits for the first to end, and shares the rows its foreign keys point to; an `UPDATE` takes
the row it changes.

* `UniqueKey`, `Resource`, `locking`: what the statements wait for;
* `request`, `request_run`: the operations, and that each of them alone is the step of the service;
* `request_footprint`: what they write, whoever runs beside them;
* `system`: the machine of all processes.
-/

namespace AgentRuntime.Concurrency

open Lib Domain Application Database Messaging Execution

/-! ### Resources -/

/-- An entry of a unique index. -/
inductive UniqueKey where
  | run (id : Uuid)
  | request (clientId idempotencyKey : String)
  | attempt (id : Uuid)
  | attemptNumber (runId : Uuid) (number : ℕ)
  | event (id : Uuid)
  | outbox (id : Uuid)
  | evaluation (id : Uuid)
  | evaluationJob (runId : Uuid)
  | quota (scope : String)
  | tenantKey (tenantId : String)
  deriving DecidableEq, Repr

/-- What a statement may have to wait for: a lock that a program names, or an index entry. -/
inductive Resource where
  | lock (l : Lock)
  | key (k : UniqueKey)
  deriving DecidableEq, Repr

/-- The index entries of a row of each table. -/
def runKeys (i : Row.Ident Run) : List UniqueKey := [.run i.1, .request i.2.1 i.2.2]

def attemptKeys (i : Row.Ident RunAttempt) : List UniqueKey :=
  [.attempt i.1, .attemptNumber i.2.1 i.2.2]

def eventKeys (i : Row.Ident RunEvent) : List UniqueKey := [.event i]

def outboxKeys (i : Row.Ident OutboxEvent) : List UniqueKey := [.outbox i]

def evaluationKeys (i : Row.Ident Evaluation) : List UniqueKey :=
  .evaluation i.1 :: i.2.toList.map .evaluationJob

/-- The index entries a write statement takes. -/
def indexed : Write → List UniqueKey
  | .insertRun r => runKeys (Row.ident r)
  | .insertAttempt a => attemptKeys (Row.ident a)
  | .insertEvent e => eventKeys (Row.ident e)
  | .insertOutbox e => outboxKeys (Row.ident e)
  | .insertEvaluation e => evaluationKeys (Row.ident e)
  | .insertQuota q => [.quota q.scope]
  | .updateQuota scope _ _ => [.quota scope]
  | _ => []

/-- The rows a write statement takes: an update the row it changes, an insertion, shared, the rows its
foreign keys point to (`FOR KEY SHARE`). -/
def touched : Write → List (Lock × Mode)
  | .insertRun r => r.replayOfRunId.toList.map fun id => (.run id, .share)
  | .updateRun id _ => [(.run id, .exclusive)]
  | .insertAttempt a => [(.run a.runId, .share)]
  | .updateAttempt id _ => [(.attempt id, .exclusive)]
  | .insertEvent e =>
    (.run e.runId, .share) :: e.attemptId.toList.map fun id => (.attempt id, .share)
  | .updateOutbox id _ => [(.outbox id, .exclusive)]
  | .insertEvaluation e =>
    (.run e.runId, .share) :: e.jobRunId.toList.map fun id => (.run id, .share)
  | .updateEvaluation id _ => [(.evaluation id, .exclusive)]
  | _ => []

/-- Index entries are taken exclusively. -/
def entries (keys : List UniqueKey) : List (Hold Resource) :=
  keys.map fun k => (.key k, .exclusive)

/-- What a write statement takes. -/
def taken (w : Write) : List (Hold Resource) :=
  entries (indexed w) ++ (touched w).map fun h => (.lock h.1, h.2)

theorem lock_mem_taken {w : Write} {l : Lock} {m : Mode} :
    (.lock l, m) ∈ taken w ↔ (l, m) ∈ touched w := by
  simp [taken, entries]

theorem entries_subset (w : Write) (L : List (Hold Resource)) :
    entries (indexed w) ⊆ taken w ++ L := fun _ h =>
  List.mem_append_left _ (List.mem_append_left _ h)

/-- The locking of the database. -/
def locking : Locking Write Lock Resource := ⟨.lock, taken⟩

/-! ### Requests -/

section

variable [Externals]

/-- The request of an operation. -/
def request (i : Input) : DbRequest Answer :=
  match i.op with
  | .submit svc clientId idempotencyKey inputPayload policySnapshot principalId =>
    (submit svc i.call clientId idempotencyKey inputPayload policySnapshot principalId
      .execution).map fun p => .run p.1 p.2
  | .submitRegression svc clientId principalId payload idempotencyKey =>
    (submitRegression svc i.call clientId principalId payload idempotencyKey).map
      fun p => .run p.1 p.2
  | .evaluate svc clientId runId rules principalId =>
    (evaluate svc i.call clientId runId rules principalId).toRequest.map .evaluation
  | .replay svc clientId runId idempotencyKey principalId =>
    (replay svc i.call clientId runId idempotencyKey principalId).map fun p => .run p.1 p.2
  | .claim svc runId workerId => (claim svc i.call runId workerId).toRequest.map .claim
  | .completeSuccess runId attemptId workerId result =>
    (completeSuccess i.call runId attemptId workerId result).toRequest.map .completed
  | .completeFailure runId attemptId workerId errorCode =>
    (completeFailure i.call runId attemptId workerId errorCode).toRequest.map .completed
  | .recoverExpiredLeases batchSize =>
    (recoverExpiredLeases i.call batchSize).toRequest.map .count
  | .scheduleDueRetries batchSize => (scheduleDueRetries i.call batchSize).toRequest.map .count
  | .charge limits runId attemptId workerId =>
    (chargeAttempt limits i.call runId attemptId workerId).toRequest.map fun _ => .unit
  | .dispatchOne publish => (dispatchOne i.call publish).toRequest.map .dispatched

/-- **An operation that runs alone** is one step of the service. -/
theorem request_run (i : Input) (s : Store) : (request i).run i.busy s = i.run s := by
  unfold request Input.run
  cases i.op <;> simp only [Request.run_map, Tx.run_toRequest]

/-- **An operation writes what its footprint allows**, whoever runs beside it. -/
theorem request_footprint (i : Input) :
    (request i).OnlyWrites fun w => i.footprint w ∧ Closes w := by
  have hworks : ∀ w, Works w ∧ Closes w → Executes w ∧ Closes w := fun _ h => ⟨h.1.executes, h.2⟩
  obtain ⟨op, c, busy⟩ := i
  cases op with
  | submit => exact submit_accepts.map _
  | submitRegression => exact submit_accepts.map _
  | evaluate => exact evaluate_accepts.toRequest.map _
  | replay => exact replay_accepts.map _
  | claim => exact ((claim_works _ _ _ _).mono hworks).toRequest.map _
  | completeSuccess => exact ((completeSuccess_works _ _ _ _ _).mono hworks).toRequest.map _
  | completeFailure => exact ((completeFailure_works _ _ _ _ _).mono hworks).toRequest.map _
  | recoverExpiredLeases => exact ((recoverExpiredLeases_works _ _).mono hworks).toRequest.map _
  | scheduleDueRetries => exact ((scheduleDueRetries_works _ _).mono hworks).toRequest.map _
  | charge =>
    exact ((chargeAttempt_charges _ _ _ _ _).mono fun _ h =>
      ⟨h.executes, h.closes⟩).toRequest.map _
  | dispatchOne => exact ((dispatchOne_delivers _ _).mono fun _ h => ⟨h, h.closes⟩).toRequest.map _

/-- The machine of all processes over one database. -/
abbrev system :
    Machine (Config Input Store Write Lock PyError Answer Resource) (Event Input) Unit :=
  interleaving request locking Store.empty

end

/-! ### A sample of interleavings -/

/-- The system of the sample deployment. -/
abbrev sampleSystem :
    Machine (Config Input Store Write Lock PyError Answer Resource) (Event Input) Unit :=
  @system sampleExternals

/-- Operation `i` starts as session number `n` and runs `k` statements. -/
def statements (i : Input) (n k : ℕ) : List (Event Input) := .start i :: List.replicate k (.step n)

theorem start_mem_statements {i j : Input} {n k : ℕ} : .start i ∈ statements j n k ↔ i = j := by
  simp [statements, List.mem_replicate]

end AgentRuntime.Concurrency
