import AgentRuntime.Database.ExecutionService

/-!
# Charging provider calls

Before every provider call of an attempt the worker reserves the call in its own transaction,
which also checks that the attempt is still open and its lease still held.
-/

namespace AgentRuntime.Execution

open Lib Domain Database

/-- The transaction of `ChargedExecutor.execute`. -/
def chargeAttempt (limits : QuotaLimits) (c : Call) (runId attemptId : Uuid)
    (workerId : String) : DbTx Unit := do
  match ← Tx.read fun s : Store => s.runs.get? runId with
  | none => .raise (.runtimeError "Missing durable execution")
  | some identity => do
      lockIdentity (orElseText identity.principalId identity.clientId) identity.clientId
      let active ← lockedRun runId
      let attempt ← Tx.read fun s : Store => s.attempts.get? attemptId
      if attempt.any fun a => a.runId == runId && a.finishedAt.isNone then
        match active with
        | some run =>
          if ownsActiveLease run workerId c.now then
            chargeProviderCall c.epoch (orElseText run.principalId run.clientId) run.clientId
              limits
          else .raise (.runtimeError "Execution lease is no longer active")
        | none => .raise (.runtimeError "Execution lease is no longer active")
      else .raise (.runtimeError "Execution attempt is no longer active")

end AgentRuntime.Execution
