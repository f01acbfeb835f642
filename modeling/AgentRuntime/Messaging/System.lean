import AgentRuntime.Database.Service
import AgentRuntime.Lib.Outbox

/-!
# Dispatchers, broker and workers

The runtime as a whole: the store, the dispatchers that have an outbox event locked, and the
execution queue with what the workers do with its messages. A dispatcher publishes between its
lock and its commit, a worker handles a delivery in three transactions with broker calls between
them, and any of them may fail at any point; the broker is durable and delivers at least once.

Every action is one atomic step of one party. Actions that are not enabled change nothing, so an
arbitrary list of actions is an arbitrary interleaving.
-/

namespace AgentRuntime.Messaging

open Lib Domain Database Application

/-! ### Parties -/

/-- A dispatcher between its lock and its commit: the event it read, and whether a message of it
has reached the broker. -/
structure Dispatch where
  event : OutboxEvent
  arrived : Bool

/-- A claimed run in the hands of a worker. -/
structure ClaimedRun where
  workerId : String
  work : ClaimedWork

/-- The store, the dispatchers at work and the messages of the execution queue. -/
structure System where
  store : Store
  dispatches : List Dispatch
  queue : List (Hint Uuid ClaimedRun)

/-- Runs wait while they are `QUEUED`; unpublished `RUN_QUEUED` events are the intents. -/
def ledger : Ledger Store Uuid Uuid where
  waiting s runId := (s.runs.get? runId).any fun r => r.executionStatus == .queued
  intent s eventId runId := ∃ e, s.outbox.get? eventId = some e ∧ e.eventType = .runQueued
    ∧ e.aggregateId = runId ∧ e.publishedAt = none

/-! ### Dispatchers -/

/-- The row locks the dispatchers hold. -/
def System.holds (x : System) (l : Lock) : Bool :=
  x.dispatches.any fun d => l == .outbox d.event.id

/-- `_destination_for`: only `RUN_QUEUED` events go to the execution queue. -/
def executionMessages (event : OutboxEvent) : List (Hint Uuid ClaimedRun) :=
  match event.eventType with
  | .runQueued => [⟨some event.aggregateId, .ready, false⟩]
  | .runDeadLettered => []

/-- The store after a transaction: an exception rolls it back. -/
def committed {α : Type} (s : Store) : Except PyError (α × Store) → Store
  | .ok (_, s') => s'
  | .error _ => s

/-! ### Workers -/

/-- What the worker does after its claim: execute, or acknowledge. -/
def afterClaim (workerId : String) (claim : ClaimResult) : Phase ClaimedRun :=
  if claim.decision ≠ .claimed then .settled
  else
    match claim.work with
    | some work => .working ⟨workerId, work⟩
    | none => .returning

/-- The completion call of `_execute_claim`: the executor returned a result, or raised an exception
with the given error code. -/
def completion (c : Call) (runId : Uuid) (held : ClaimedRun)
    (outcome : Except String ExecutionResult) : DbTx Bool :=
  match outcome with
  | .ok result => completeSuccess c runId held.work.attemptId held.workerId result
  | .error errorCode => completeFailure c runId held.work.attemptId held.workerId errorCode

/-- What the worker does after its completion call: acknowledge only a persisted outcome. -/
def afterCompletion (persisted : Bool) : Phase ClaimedRun :=
  if persisted then .settled else .returning

/-! ### The system -/

/-- The operations callers, schedulers and executors send to the services. -/
def isRequest : Op → Bool
  | .submit .. => true
  | .submitRegression .. => true
  | .evaluate .. => true
  | .replay .. => true
  | .recoverExpiredLeases _ => true
  | .scheduleDueRetries _ => true
  | .charge .. => true
  | _ => false

/-- One atomic step of one party. -/
inductive Action where
  /-- A request to a service. -/
  | request (i : Input)
  /-- A dispatcher locks the oldest free event. -/
  | lock (busy : Lock → Bool)
  /-- A message of dispatcher `n` reaches the broker. -/
  | arrive (n : ℕ)
  /-- The publish call of dispatcher `n` has returned or raised; it commits what came of it. -/
  | record (n : ℕ) (c : Call) (busy : Lock → Bool) (outcome : Except String Unit)
  /-- Dispatcher `n` dies. -/
  | abandon (n : ℕ)
  /-- Some other message reaches the queue: late, from an old queue, or unreadable. -/
  | foreign (runId : Option Uuid)
  /-- The broker duplicates message `n`. -/
  | duplicate (n : ℕ)
  /-- The broker delivers message `n`. -/
  | deliver (n : ℕ)
  /-- The worker that has message `n` claims its run. -/
  | claim (n : ℕ) (svc : ExecutionService) (workerId : String) (c : Call) (busy : Lock → Bool)
  /-- The worker that has message `n` has executed its run. -/
  | complete (n : ℕ) (c : Call) (busy : Lock → Bool) (outcome : Except String ExecutionResult)
  /-- The worker acknowledges message `n` or gives it back. -/
  | finish (n : ℕ)
  /-- The worker that has message `n` dies or loses its channel. -/
  | redeliver (n : ℕ)

/-- The store commits; `decided` is kept up to date for the runs that begin to wait. -/
def System.commit (x : System) (s' : Store) : System :=
  { x with store := s', queue := x.queue.map (Outbox.refresh ledger x.store s') }

/-- The worker that has message `n` goes on. -/
def System.setPhase (x : System) (n : ℕ) (phase : Phase ClaimedRun) : System :=
  match x.queue[n]? with
  | some m => { x with queue := x.queue.set n { m with phase := phase } }
  | none => x

/-- `_handle_delivery` up to the claim: unreadable messages are rejected, an exception gives the
message back. -/
def System.claim (x : System) (n : ℕ) (svc : ExecutionService) (workerId : String) (c : Call)
    (busy : Lock → Bool) : System :=
  match x.queue[n]? with
  | some ⟨none, .received, _⟩ => { x with queue := x.queue.eraseIdx n }
  | some ⟨some runId, .received, _⟩ =>
    match (Database.claim svc c runId workerId).run busy x.store with
    | .ok (claim, s') =>
      let y := x.commit s'
      { y with queue := y.queue.set n ⟨some runId, afterClaim workerId claim, true⟩ }
    | .error _ => x.setPhase n .returning
  | _ => x

/-- The completion call of the worker that has message `n`. -/
def System.complete (x : System) (n : ℕ) (c : Call) (busy : Lock → Bool)
    (outcome : Except String ExecutionResult) : System :=
  match x.queue[n]? with
  | some ⟨some runId, .working held, _⟩ =>
    match (completion c runId held outcome).run busy x.store with
    | .ok (persisted, s') => (x.commit s').setPhase n (afterCompletion persisted)
    | .error _ => x.setPhase n .returning
  | _ => x

/-- The worker answers the broker. -/
def System.finish (x : System) (n : ℕ) : System :=
  match x.queue[n]? with
  | some ⟨_, .settled, _⟩ => { x with queue := x.queue.eraseIdx n }
  | some ⟨_, .returning, _⟩ => x.setPhase n .ready
  | _ => x

section

variable [Externals]

def System.act (x : System) : Action → System
  | .request i => if isRequest i.op then x.commit (service.step x.store i).2 else x
  | .lock busy =>
    match lockUnpublished.run (fun l => busy l || x.holds l) x.store with
    | .ok (some event, _) => { x with dispatches := x.dispatches ++ [⟨event, false⟩] }
    | _ => x
  | .arrive n =>
    match x.dispatches[n]? with
    | some d => { x with
        dispatches := x.dispatches.set n { d with arrived := true }
        queue := x.queue ++ executionMessages d.event }
    | none => x
  | .record n c busy outcome =>
    match x.dispatches[n]? with
    | some d =>
      -- The broker confirms only what has reached it.
      if outcome.isOk && !d.arrived then x
      else { x with
        store := committed x.store ((recordOutcome c d.event outcome).run busy x.store)
        dispatches := x.dispatches.eraseIdx n }
    | none => x
  | .abandon n => { x with dispatches := x.dispatches.eraseIdx n }
  | .foreign runId => { x with queue := x.queue ++ [⟨runId, .ready, false⟩] }
  | .duplicate n =>
    match x.queue[n]? with
    | some m => { x with queue := x.queue ++ [{ m with phase := .ready }] }
    | none => x
  | .deliver n =>
    match x.queue[n]? with
    | some ⟨_, .ready, _⟩ => x.setPhase n .received
    | _ => x
  | .claim n svc workerId c busy => x.claim n svc workerId c busy
  | .complete n c busy outcome => x.complete n c busy outcome
  | .finish n => x.finish n
  | .redeliver n => x.setPhase n .ready

/-- The runtime as a machine. -/
def system : Machine System Action Unit where
  init := ⟨Store.empty, [], []⟩
  step x a := ((), x.act a)

end

end AgentRuntime.Messaging
