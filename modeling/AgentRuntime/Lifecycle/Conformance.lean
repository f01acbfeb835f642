import AgentRuntime.Lifecycle.Terminal

/-!
# The declared lifecycle against the services

`ALLOWED_EXECUTION_TRANSITIONS` declares how a run may move, but no service consults it. Every
step of a run is a declared transition except one: a claim that finds the running quota used up
moves a queued run to `RETRY_SCHEDULED`, which the table does not list after `QUEUED`.

* `RunStep.declared_or_deferred`: one step is declared, or it is such a deferral;
* `conforms_iff_not_deferral`: an operation conforms to the table exactly when it is not a
  deferral.
-/

namespace AgentRuntime.Lifecycle

open Lib Domain Database Application

/-- Every status change from one store to the next is declared. -/
def Conforms (s s' : Store) : Prop :=
  ∀ k r r', s.runs.get? k = some r → s'.runs.get? k = some r' →
    r'.executionStatus ≠ r.executionStatus →
      ensureExecutionTransition r.executionStatus r'.executionStatus = .ok ()

/-- The operation is a claim on a queued run whose principal or tenant already runs as much as it
may, early enough that the deferral has a representable time. -/
def Deferral (s : Store) (i : Input) : Prop :=
  ∃ svc workerId r, i.op = .claim svc r.id workerId ∧ s.runs.get? r.id = some r
    ∧ r.executionStatus = .queued ∧ runningQuotaFull svc.quotas s r
    ∧ i.call.now.micros + 1000000 ≤ datetimeMax

variable {s : Store} {i : Input} {answer : Answer} {v v' : RunView}

theorem Noted.status_eq (h : Noted v v') {r r' : Run} (hr : v.run = some r)
    (hr' : v'.run = some r') : r'.executionStatus = r.executionStatus := by
  obtain ⟨x, hx⟩ := h.run_eq hr
  cases hx.symm.trans hr'
  rfl

/-- Every move but a deferral is in the table. -/
theorem Move.declared_or_defer (m : Move) :
    m.target ∈ allowedExecutionTransitions m.source ∨ m = .defer := by
  cases m <;> decide

/-- **One step is declared, or it defers a queued run.** -/
theorem RunStep.declared_or_deferred (h : RunStep s i answer v v') {r r' : Run}
    (hr : v.run = some r) (hr' : v'.run = some r') :
    r'.executionStatus ∈ allowedExecutionTransitions r.executionStatus
      ∨ ∃ svc workerId, i.op = .claim svc r.id workerId ∧ r.executionStatus = .queued
          ∧ runningQuotaFull svc.quotas s r ∧ ∃ t, i.call.now.addSeconds 1 = .ok t := by
  obtain ⟨r1, m, hm⟩ := h.moved hr
  cases hm.run'.symm.trans hr'
  rw [hm.source, hm.target]
  rcases m.declared_or_defer with hdeclared | rfl
  · exact .inl hdeclared
  · obtain ⟨svc, workerId, hop, hquota, htime⟩ := hm.deferral rfl
    exact .inr ⟨svc, workerId, hop, rfl, hquota, htime⟩

/-- An effect that changes the status is declared, or the operation is a deferral. -/
theorem Effect.declared_or_deferral {k : Uuid} (h : Effect s i answer (view s k) v') {r r' : Run}
    (hr : s.runs.get? k = some r) (hr' : v'.run = some r')
    (hne : r'.executionStatus ≠ r.executionStatus) :
    r'.executionStatus ∈ allowedExecutionTransitions r.executionStatus ∨ Deferral s i := by
  cases h with
  | noted h => exact absurd (h.status_eq hr hr') hne
  | stepped hbefore hstep hafter =>
    obtain ⟨x, hx⟩ := hbefore.run_eq hr
    obtain ⟨r2, hr2, -⟩ := (Effect.step hstep).accepted_eq hx
    rw [hafter.status_eq hr2 hr']
    rcases hstep.declared_or_deferred hx hr2 with h | ⟨svc, workerId, hop, hqueued, hquota, htime⟩
    · exact .inl h
    · have hid : r.id = k := (Table.mem_of_get? hr).2
      exact .inr ⟨svc, workerId, r, hop, hid ▸ hr, hqueued, hquota,
        Timestamp.addSeconds_one_ok.mp htime⟩

/-- A deferral moves the run from `QUEUED` to `RETRY_SCHEDULED`. -/
theorem Deferral.not_conforms [Externals] (h : Deferral s i) :
    ¬ Conforms s (service.step s i).2 := by
  obtain ⟨svc, workerId, r, hop, hr, hqueued, hquota, htime⟩ := h
  obtain ⟨t, ht⟩ := Timestamp.addSeconds_one_ok.mpr htime
  have hrun : i.run s = .ok (.claim ⟨.notReady, r.id, none⟩,
      { s with
        runs := s.runs.update r.id (assignAll RunSet.assign (deferSets t))
          (assignAll_keeps RunSet.ident_assign (deferSets t)) }) := by
    simp only [Input.run, hop, run_claim_queued hr hqueued, run_claimQueued_full hquota, deferRun,
      Tx.bind_eq, Tx.run_bind, Tx.run_ofExcept, ht, Tx.ok_map, Tx.ok_bind, Tx.run_exec]
    rfl
  rw [service_step_ok hrun]
  intro hconforms
  have hafter : (s.runs.update r.id (assignAll RunSet.assign (deferSets t))
      (assignAll_keeps RunSet.ident_assign (deferSets t))).get? r.id
        = some { r with executionStatus := .retryScheduled, nextAttemptAt := some t } := by
    rw [Table.get?_update, if_pos rfl, hr, Option.map_some, assign_deferSets]
  have hallowed := hconforms r.id r _ hr hafter (by simp [hqueued])
  rw [hqueued, ensureExecutionTransition_ok] at hallowed
  exact absurd hallowed (by simp [allowedExecutionTransitions])

/-- **Lifecycle conformance.** On every store, an operation changes statuses only as the table
allows exactly when it is not a claim that defers a queued run. -/
theorem conforms_iff_not_deferral [Externals] (s : Store) (i : Input) :
    Conforms s (service.step s i).2 ↔ ¬ Deferral s i := by
  constructor
  · intro hconforms hdeferral
    exact hdeferral.not_conforms hconforms
  · intro hnot k r r' hr hr' hne
    rcases service_step_effects s i with ⟨answer, -, heffects⟩ | ⟨e, -, hsame⟩
    · rcases (heffects k).declared_or_deferral hr hr' hne with hallowed | hdeferral
      · exact ensureExecutionTransition_ok.mpr hallowed
      · exact absurd hdeferral hnot
    · rw [hsame, hr] at hr'
      cases hr'
      exact absurd rfl hne

/-- Two runs of one tenant: while the first one runs, the claim of the second one moves it from
`QUEUED` to `RETRY_SCHEDULED`. -/
theorem deferral_breaks_lifecycle :
    let before := sampleService.after [sampleSubmit 0 1 [],
      sampleInput 0 2 (.submit sampleRunService "tenant" "other-key" [] [] none),
      sampleClaim 1 3 1]
    let after := (sampleService.step before (sampleClaim 1 4 2)).2
    (before.runs.get? (sampleUuid 2)).map Run.executionStatus = some .queued
      ∧ (after.runs.get? (sampleUuid 2)).map Run.executionStatus = some .retryScheduled
      ∧ ensureExecutionTransition .queued .retryScheduled
          = .error ⟨.queued, .retryScheduled⟩ := by
  decide +kernel

end AgentRuntime.Lifecycle
