import Mathlib.Tactic.Common

/-!
# Execution and evaluation statuses

The two status enumerations of a run and the declared lifecycle contract of its execution: the
table of allowed transitions and the check that rejects every other one. No service consults the
table; the lifecycle modules compare it with what the services do.
-/

namespace AgentRuntime.Domain

/-- Where the execution of a run stands. -/
inductive ExecutionStatus where
  | queued
  | running
  | retryScheduled
  | succeeded
  | failed
  | deadLettered
  deriving DecidableEq, Repr

/-- Where the evaluation of a run stands. -/
inductive EvaluationStatus where
  | notRun
  | pending
  | passed
  | failed
  | error
  deriving DecidableEq, Repr

/-- The statuses a run never leaves. -/
def terminalExecutionStatuses : List ExecutionStatus := [.succeeded, .failed, .deadLettered]

/-- The declared lifecycle: for every status, the statuses that may follow it. -/
def allowedExecutionTransitions : ExecutionStatus → List ExecutionStatus
  | .queued => [.running, .failed]
  | .running => [.succeeded, .failed, .retryScheduled, .deadLettered]
  | .retryScheduled => [.queued, .failed, .deadLettered]
  | .succeeded => []
  | .failed => []
  | .deadLettered => []

/-- A run is asked to move outside its lifecycle contract. -/
structure InvalidExecutionTransition where
  current : ExecutionStatus
  target : ExecutionStatus
  deriving DecidableEq, Repr

/-- Reject a transition the table does not list. -/
def ensureExecutionTransition (current target : ExecutionStatus) :
    Except InvalidExecutionTransition Unit :=
  if target ∈ allowedExecutionTransitions current then .ok ()
  else .error ⟨current, target⟩

/-- Whether a status is terminal. -/
def isTerminalExecutionStatus (status : ExecutionStatus) : Bool :=
  decide (status ∈ terminalExecutionStatuses)

theorem ensureExecutionTransition_ok {current target : ExecutionStatus} :
    ensureExecutionTransition current target = .ok () ↔
      target ∈ allowedExecutionTransitions current := by
  unfold ensureExecutionTransition
  split <;> simp_all

theorem isTerminal_iff {status : ExecutionStatus} :
    isTerminalExecutionStatus status = true ↔
      status = .succeeded ∨ status = .failed ∨ status = .deadLettered := by
  cases status <;> decide

end AgentRuntime.Domain
