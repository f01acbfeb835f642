import AgentRuntime.Database.Models

/-!
# Quotas

PostgreSQL-authoritative quotas shared by API replicas, jobs and retries: the limits, the identity
locks, admission of new work, and the accounting of provider calls in fixed windows.
-/

namespace AgentRuntime.Database

open Lib Domain

/-- The limits of one deployment. Settings keep the window positive. -/
structure QuotaLimits where
  principalActive : ℤ
  tenantActive : ℤ
  principalCalls : ℤ
  tenantCalls : ℤ
  windowSeconds : ℤ
  principalRunning : ℤ
  tenantRunning : ℤ
  window_pos : 0 < windowSeconds

/-- `QuotaLimits()`. -/
def QuotaLimits.default : QuotaLimits := ⟨20, 40, 120, 240, 3600, 1, 2, by decide⟩

/-- The scope text of a principal. -/
def principalScope (principal : String) : String := "p:" ++ principal

/-- The scope text of a tenant. -/
def tenantScope (tenant : String) : String := "t:" ++ tenant

theorem principalScope_ne_tenantScope (principal tenant : String) :
    principalScope principal ≠ tenantScope tenant := by
  intro h
  have hlist := congrArg String.toList h
  simp [principalScope, tenantScope] at hlist

/-- `a or b` for an optional text: a missing or empty one is replaced. -/
def orElseText (a : Option String) (b : String) : String :=
  match a with
  | some x => if x = "" then b else x
  | none => b

/-- Take both advisory locks in the order of their texts. -/
def lockIdentity (principal tenant : String) : DbTx Unit :=
  if principalScope principal ≤ tenantScope tenant then do
    Tx.acquire (.advisory (principalScope principal))
    Tx.acquire (.advisory (tenantScope tenant))
  else do
    Tx.acquire (.advisory (tenantScope tenant))
    Tx.acquire (.advisory (principalScope principal))

/-- The start of the window `now` lies in. -/
def currentWindow (now windowSeconds : ℤ) : ℤ := now / windowSeconds * windowSeconds

/-- `QuotaExceededError("Provider-call quota exceeded")`. -/
def providerCallsExceeded : PyError := .quotaExceededError "Provider-call quota exceeded"

/-- One round of `check_provider_budget`: a missing row or one from another window has spent
nothing. -/
def checkScopeBudget (window : ℤ) (scope : String) (limit : ℤ) : DbTx Unit := do
  match ← Tx.read fun s : Store => s.quotas.get? scope with
  | none => pure ()
  | some row =>
    if row.windowStart ≠ window then pure ()
    else if limit ≤ row.used then .raise providerCallsExceeded
    else pure ()

/-- Reject at admission what would certainly be rejected at execution. -/
def checkProviderBudget (epoch : ℤ) (principal tenant : String) (limits : QuotaLimits) :
    DbTx Unit := do
  let window := currentWindow epoch limits.windowSeconds
  checkScopeBudget window (principalScope principal) limits.principalCalls
  checkScopeBudget window (tenantScope tenant) limits.tenantCalls

/-- The statuses that count as active work. -/
def activeStatuses : List ExecutionStatus := [.queued, .running, .retryScheduled]

/-- The number of runs a `WHERE` clause selects among those with one of the given statuses. -/
def countRuns (s : Store) (p : Run → Bool) (statuses : List ExecutionStatus) : ℕ :=
  (s.runs.select fun r => p r && decide (r.executionStatus ∈ statuses)).length

/-- `Run.principal_id == principal`. -/
def ofPrincipal (principal : String) (r : Run) : Bool := r.principalId == some principal

/-- `Run.client_id == tenant`. -/
def ofTenant (tenant : String) (r : Run) : Bool := r.clientId == tenant

/-- One round of `check_admission`. -/
def checkActive (p : Run → Bool) (limit : ℤ) : DbTx Unit := do
  let count ← Tx.read fun s : Store => countRuns s p activeStatuses
  if limit ≤ count then .raise (.quotaExceededError "Active work quota exceeded") else pure ()

/-- Admit one more unit of work; the caller holds both identity locks. -/
def checkAdmission (epoch : ℤ) (principal tenant : String) (limits : QuotaLimits) :
    DbTx Unit := do
  checkActive (ofPrincipal principal) limits.principalActive
  checkActive (ofTenant tenant) limits.tenantActive
  checkProviderBudget epoch principal tenant limits

/-- The first loop of `charge_provider_call` for one scope: open its row in the current window
and return what it has used. -/
def openScope (window : ℤ) (scope : String) (limit : ℤ) : DbTx ℕ := do
  match ← Tx.read fun s : Store => s.quotas.get? scope with
  | none => do
      exec (.insertQuota ⟨scope, window, 0⟩)
      if limit ≤ 0 then .raise providerCallsExceeded else pure 0
  | some row =>
    if row.windowStart ≠ window then do
      exec (.updateQuota scope window 0)
      if limit ≤ 0 then .raise providerCallsExceeded else pure 0
    else if limit ≤ row.used then .raise providerCallsExceeded
    else pure row.used

/-- Reserve one provider call in both scopes. -/
def chargeProviderCall (epoch : ℤ) (principal tenant : String) (limits : QuotaLimits) :
    DbTx Unit := do
  lockIdentity principal tenant
  let window := currentWindow epoch limits.windowSeconds
  let usedPrincipal ← openScope window (principalScope principal) limits.principalCalls
  let usedTenant ← openScope window (tenantScope tenant) limits.tenantCalls
  exec (.updateQuota (principalScope principal) window (usedPrincipal + 1))
  exec (.updateQuota (tenantScope tenant) window (usedTenant + 1))

end AgentRuntime.Database
