import AgentRuntime.Database.RunService
import AgentRuntime.Lib.Keyset
import Mathlib.Data.Prod.Lex

/-!
# Reading a run and its histories

`get_run` and the paged reads of attempts, events and evaluations. The three paged reads are one
query with different tables: the rows of the run after the row the cursor names, ordered by time
and id, at most as many as the clamped limit.

* `History`: a table that is read in pages;
* `getRun`, `getAttempts`, `getEvents`, `getEvaluations`: the reads.
-/

namespace AgentRuntime.Database

open Lib Domain Application

/-! ### Snapshots -/

/-- What a caller sees of an attempt. -/
structure AttemptSnapshot where
  id : Uuid
  attemptNumber : ℕ
  provider : String
  startedAt : Timestamp
  finishedAt : Option Timestamp
  outcome : Option AttemptOutcome
  errorCode : Option String
  retryable : Option Bool
  latencyMs : Option ℤ

/-- What a caller sees of an event. -/
structure EventSnapshot where
  id : Uuid
  attemptId : Option Uuid
  eventType : EventType
  metadata : Metadata
  createdAt : Timestamp

def toAttemptSnapshot (attempt : RunAttempt) : AttemptSnapshot where
  id := attempt.id
  attemptNumber := attempt.attemptNumber
  provider := attempt.provider
  startedAt := attempt.startedAt
  finishedAt := attempt.finishedAt
  outcome := attempt.outcome
  errorCode := attempt.errorCode
  retryable := attempt.retryable
  latencyMs := attempt.latencyMs

def toEventSnapshot (event : RunEvent) : EventSnapshot where
  id := event.id
  attemptId := event.attemptId
  eventType := event.eventType
  metadata := event.metadata
  createdAt := event.createdAt

/-! ### Reads -/

/-- A table that is read in pages: its rows, the run each belongs to, and what a caller sees of
one. -/
structure History (ρ β : Type) where
  rows : Store → List ρ
  runId : ρ → Uuid
  snapshot : ρ → β
  id : β → Uuid
  time : β → Timestamp
  distinct : ∀ s, ((rows s).map fun r => id (snapshot r)).Nodup

namespace History

variable {ρ β : Type} (h : History ρ β)

/-- Rows are ordered by time, then by id. -/
def key (b : β) : Timestamp ×ₗ Uuid := toLex (h.time b, h.id b)

/-- The rows of one run. -/
def ofRun (runId : Uuid) (s : Store) : List ρ := (h.rows s).filter fun r => h.runId r == runId

/-- What a caller may see of the rows of one run. -/
def snapshots (runId : Uuid) (s : Store) : List β := (h.ofRun runId s).map h.snapshot

end History

def attemptHistory : History RunAttempt AttemptSnapshot where
  rows s := s.attempts.rows
  runId := RunAttempt.runId
  snapshot := toAttemptSnapshot
  id := AttemptSnapshot.id
  time := AttemptSnapshot.startedAt
  distinct s := s.attempts.ids_nodup

def eventHistory : History RunEvent EventSnapshot where
  rows s := s.events.rows
  runId := RunEvent.runId
  snapshot := toEventSnapshot
  id := EventSnapshot.id
  time := EventSnapshot.createdAt
  distinct s := s.events.ids_nodup

def evaluationHistory : History Evaluation EvaluationSnapshot where
  rows s := s.evaluations.rows
  runId := Evaluation.runId
  snapshot := toEvaluationSnapshot
  id := EvaluationSnapshot.id
  time := EvaluationSnapshot.createdAt
  distinct s := s.evaluations.ids_nodup

/-- `max(1, min(limit, 100))`. -/
def clampLimit (limit : ℤ) : ℕ := (max 1 (min limit 100)).toNat

def getRun (clientId : String) (runId : Uuid) : DbTx RunSnapshot := do
  let run ← getRunForClient clientId runId
  pure (toRunSnapshot run)

/-- The page of one statement. -/
def History.readPage {ρ β : Type} (h : History ρ β) (runId : Uuid) (limit : ℤ)
    (bound : Option (Timestamp ×ₗ Uuid)) : DbTx (List β) :=
  Tx.read fun s : Store =>
    (Keyset.page (fun r => h.key (h.snapshot r)) bound (clampLimit limit) (h.ofRun runId s)).map
      h.snapshot

/-- A page of a history of a run of the client, after the row the cursor names. -/
def getHistory {ρ β : Type} (h : History ρ β) (clientId : String) (runId : Uuid) (limit : ℤ)
    (cursor : Option Uuid) : DbTx (List β) := do
  let _ ← getRunForClient clientId runId
  match cursor with
  | none => h.readPage runId limit none
  | some cursor => do
      match ← Tx.read fun s : Store =>
          (h.ofRun runId s).find? fun r => h.id (h.snapshot r) == cursor with
      | none => .raise (.invalidCursorError "Cursor does not belong to this history")
      | some anchor => h.readPage runId limit (some (h.key (h.snapshot anchor)))

def getAttempts (clientId : String) (runId : Uuid) (limit : ℤ) (cursor : Option Uuid) :
    DbTx (List AttemptSnapshot) :=
  getHistory attemptHistory clientId runId limit cursor

def getEvents (clientId : String) (runId : Uuid) (limit : ℤ) (cursor : Option Uuid) :
    DbTx (List EventSnapshot) :=
  getHistory eventHistory clientId runId limit cursor

def getEvaluations (clientId : String) (runId : Uuid) (limit : ℤ) (cursor : Option Uuid) :
    DbTx (List EvaluationSnapshot) :=
  getHistory evaluationHistory clientId runId limit cursor

end AgentRuntime.Database
