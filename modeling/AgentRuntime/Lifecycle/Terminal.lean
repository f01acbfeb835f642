import AgentRuntime.Lifecycle.Coherence

/-!
# Terminal runs and accepted columns are frozen

No step starts from a terminal status, so once a run has ended the only changes left are notes: its
evaluation status, remarks in its history, and the delivery columns of its outbox events. What was
accepted with a run never changes at all.

* `RunStep.not_terminal`: every step starts from a status that is not terminal;
* `terminal_runs_frozen`: over any continuation of any run of the services.
-/

namespace AgentRuntime.Lifecycle

open Lib Domain Database Application

variable {s : Store} {i : Input} {answer : Answer} {v v' : RunView}

/-- Every step of an existing run starts from a status that is not terminal. -/
theorem RunStep.not_terminal (h : RunStep s i answer v v') {r : Run} (hrun : v.run = some r) :
    isTerminalExecutionStatus r.executionStatus = false := by
  obtain ⟨r', m, hm⟩ := h.moved hrun
  rw [hm.source]
  exact m.source_not_terminal

/-- Terminal runs are left to notes. -/
theorem Effect.noted_of_terminal (h : Effect s i answer v v') {r : Run} (hrun : v.run = some r)
    (hterminal : isTerminalExecutionStatus r.executionStatus = true) : Noted v v' := by
  cases h with
  | noted h => exact h
  | stepped hbefore hstep hafter =>
    obtain ⟨x, hx⟩ := hbefore.run_eq hrun
    have hnot := hstep.not_terminal hx
    exact absurd (hnot.symm.trans hterminal) (by simp)

/-! ### Histories only grow -/

theorem Note.events_prefix (h : Note v v') : v.events <+: v'.events := by
  cases h with
  | evaluationStatus x => exact List.prefix_rfl
  | remark e hrun he => exact List.prefix_append _ _
  | delivery id sets => exact List.prefix_rfl

theorem RunStep.events_prefix (h : RunStep s i answer v v') {r : Run} (hrun : v.run = some r) :
    v.events <+: v'.events := by
  obtain ⟨r', m, hm⟩ := h.moved hrun
  obtain ⟨new, hnew, -⟩ := hm.events
  exact ⟨new, hnew.symm⟩

/-! ### What later operations leave of a run -/

/-- What is left of run `r` with the given attempts and history after later operations: the
accepted columns and the history so far, and everything else but the evaluation status once the
run was terminal. -/
structure Frozen (r : Run) (attempts : List RunAttempt) (events : List RunEvent) (v : RunView)
    (r' : Run) : Prop where
  run : v.run = some r'
  accepted : accepted r' = accepted r
  events : events <+: v.events
  terminal : isTerminalExecutionStatus r.executionStatus = true →
    r' = { r with evaluationStatus := r'.evaluationStatus } ∧ v.attempts = attempts

variable {r : Run} {attempts : List RunAttempt} {events : List RunEvent}

theorem frozen_note (h : ∃ r', Frozen r attempts events v r') (hnote : Note v v') :
    ∃ r', Frozen r attempts events v' r' := by
  obtain ⟨r1, h⟩ := h
  have hevents := h.events.trans hnote.events_prefix
  cases hnote with
  | evaluationStatus x =>
    refine ⟨{ r1 with evaluationStatus := x }, by simp [h.run], h.accepted, hevents, ?_⟩
    intro hterminal
    obtain ⟨hr1, hattempts⟩ := h.terminal hterminal
    refine ⟨?_, hattempts⟩
    rw [hr1]
  | remark e hrun he => exact ⟨r1, h.run, h.accepted, hevents, h.terminal⟩
  | delivery id sets => exact ⟨r1, h.run, h.accepted, hevents, h.terminal⟩

theorem frozen_step (h : ∃ r', Frozen r attempts events v r') (hstep : RunStep s i answer v v') :
    ∃ r', Frozen r attempts events v' r' := by
  obtain ⟨r1, h⟩ := h
  obtain ⟨r', hr', haccepted⟩ := (Effect.step hstep).accepted_eq h.run
  refine ⟨r', hr', haccepted.trans h.accepted, h.events.trans (hstep.events_prefix h.run), ?_⟩
  intro hterminal
  have hstatus : r1.executionStatus = r.executionStatus := by
    rw [(h.terminal hterminal).1]
  have hnot := hstep.not_terminal h.run
  rw [hstatus, hterminal] at hnot
  exact absurd hnot (by simp)

theorem frozen_service_step [Externals] {s : Store} (i : Input) {k : Uuid}
    (h : ∃ r', Frozen r attempts events (view s k) r') :
    ∃ r', Frozen r attempts events (view (service.step s i).2 k) r' := by
  rcases service_step_effects s i with ⟨answer, -, heffects⟩ | ⟨e, -, hsame⟩
  · exact (heffects k).preserves (P := fun v => ∃ r', Frozen r attempts events v r')
      (fun _ _ hv hnote => frozen_note hv hnote) (fun _ _ hv hstep => frozen_step hv hstep) h
  · rw [hsame]
    exact h

/-- **Terminal runs and accepted columns are frozen.** Whatever operations follow, a run keeps
the columns it was accepted with and its history so far; once its status is terminal it keeps every
column but the evaluation status, and all its attempts. -/
theorem terminal_runs_frozen [Externals] (inputs later : List Input) {r : Run}
    (hr : r ∈ (service.after inputs).runs.rows) :
    ∃ r', Frozen r ((service.after inputs).attemptsOf r.id)
      (view (service.after inputs) r.id).events
      (view (service.after (inputs ++ later)) r.id) r' := by
  have hget : (service.after inputs).runs.get? r.id = some r :=
    Table.get?_eq_some_iff.mpr ⟨hr, rfl⟩
  rw [service.after_append]
  exact service.afterFrom_induction (P := fun s => ∃ r', Frozen _ _ _ (view s r.id) r')
    (fun _ i h => frozen_service_step i h) later _
    ⟨r, hget, rfl, List.prefix_rfl, fun _ => ⟨rfl, rfl⟩⟩

/-- A run that has succeeded is delivered and completed once more. -/
theorem terminal_runs_frozen_sample :
    ∃ r ∈ (sampleService.after sampleRetriedRun).runs.rows, r.executionStatus = .succeeded
      ∧ ∃ r', Frozen r ((sampleService.after sampleRetriedRun).attemptsOf r.id)
          (view (sampleService.after sampleRetriedRun) r.id).events
          (view (sampleService.after
            (sampleRetriedRun ++ [sampleClaim 13 7 1, sampleSucceed 14 8 1 5])) r.id) r' := by
  have hrows : (sampleService.after sampleRetriedRun).runs.rows.map Run.executionStatus
      = [.succeeded] := by
    decide +kernel
  obtain ⟨r, hr, hstatus⟩ := List.mem_map.mp (hrows ▸ List.mem_singleton_self _)
  exact ⟨r, hr, hstatus, @terminal_runs_frozen sampleExternals sampleRetriedRun _ r hr⟩

end AgentRuntime.Lifecycle
