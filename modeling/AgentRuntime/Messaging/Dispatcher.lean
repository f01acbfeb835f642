import AgentRuntime.Database.ExecutionService

/-!
# The outbox dispatcher

`_dispatch_one` locks the oldest unpublished outbox event, publishes it to the broker and commits
what came of it. The broker call lies between the lock and the commit, so the method is cut into
the statement before it and the statements after it; `dispatchOne` puts them together around an
arbitrary publisher.
-/

namespace AgentRuntime.Messaging

open Lib Domain Database

/-- What a dispatch came to. -/
structure DispatchResult where
  foundEvent : Bool
  published : Bool
  deriving DecidableEq, Repr

/-- Lock the oldest unpublished event nobody else has locked. -/
def lockUnpublished : DbTx (Option OutboxEvent) := do
  let locks ← Tx.acquireFree fun (s : Store) busy =>
    ((((s.outbox.select fun e => e.publishedAt.isNone).insertionSort fun a b =>
      a.createdAt.micros ≤ b.createdAt.micros).map
        fun e => Lock.outbox e.id).filter fun l => !busy l).take 1
  Tx.read fun s : Store => match locks with
    | [.outbox id] => s.outbox.get? id
    | _ => none

/-- Record that the broker confirmed the event. -/
def recordPublished (c : Call) (event : OutboxEvent) : DbTx Unit := do
  exec (.updateOutbox event.id
    [.publishAttempts (event.publishAttempts + 1), .publishedAt (some c.now), .lastError none])
  exec (.insertEvent (newEvent c event.aggregateId 0 event.aggregateId none .outboxPublished
    [("event_id", .uuid event.id)]))

/-- Record that publishing raised an exception of the given type. -/
def recordPublishFailed (c : Call) (event : OutboxEvent) (errorType : String) : DbTx Unit := do
  exec (.updateOutbox event.id
    [.publishAttempts (event.publishAttempts + 1), .lastError (some errorType)])
  exec (.insertEvent (newEvent c event.aggregateId 0 event.aggregateId none .outboxPublishFailed
    [("event_id", .uuid event.id), ("error_type", .text errorType)]))

/-- The statements after the broker call. -/
def recordOutcome (c : Call) (event : OutboxEvent) (outcome : Except String Unit) :
    DbTx DispatchResult :=
  match outcome with
  | .ok () => do
      recordPublished c event
      pure ⟨true, true⟩
  | .error errorType => do
      recordPublishFailed c event errorType
      pure ⟨true, false⟩

/-- Publish at most one event. -/
def dispatchOne (c : Call) (publish : OutboxEvent → Except String Unit) : DbTx DispatchResult := do
  match ← lockUnpublished with
  | none => pure ⟨false, false⟩
  | some event => recordOutcome c event (publish event)

end AgentRuntime.Messaging
