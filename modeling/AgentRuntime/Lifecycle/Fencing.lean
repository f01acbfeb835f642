import AgentRuntime.Lifecycle.Terminal

/-!
# Lease fencing

A worker may complete an attempt long after it lost the lease, twice, or under the id of another
run. The lease of the run, its single open attempt and the attempt id together keep every such
call from writing anything.

* `fenced_step`: what one operation can do to attempts: a finished one is never touched, an open
  one only by the holder of the lease or by recovery, and a late completion returns `False`;
* `lease_fencing`: over every history, together with at most one outcome per attempt and at most
  one reported success per run.
-/

namespace AgentRuntime.Lifecycle

open Lib Tx Table Domain Database Application

/-- One step of the services, as recorded in a history. -/
abbrev ServiceEntry := Entry Store Input (Except PyError Answer)

/-- A completion call for attempt `attemptId` of run `runId` by a worker. -/
inductive IsCompletion (runId attemptId : Uuid) (workerId : String) : Op → Prop where
  | success (result : ExecutionResult) :
      IsCompletion runId attemptId workerId (.completeSuccess runId attemptId workerId result)
  | failure (errorCode : String) :
      IsCompletion runId attemptId workerId (.completeFailure runId attemptId workerId errorCode)

/-- The attempt is finished already, belongs to another run, or its lease was lost. -/
def LostAttempt (s : Store) (now : Timestamp) (runId attemptId : Uuid) (workerId : String) : Prop :=
  (∃ a, s.attempts.get? attemptId = some a ∧ (a.finishedAt ≠ none ∨ a.runId ≠ runId))
    ∨ ∀ r, s.runs.get? runId = some r → ownsActiveLease r workerId now = false

/-- The step was taken by a completion call that carries the attempt's id, from the worker that
holds the unexpired lease of its run, or by lease recovery. -/
def WrittenByHolder (e : ServiceEntry) (a : RunAttempt) : Prop :=
  ∃ r, e.before.runs.get? a.runId = some r ∧
    ((∃ workerId, IsCompletion a.runId a.id workerId e.input.op
        ∧ ownsActiveLease r workerId e.input.call.now = true ∧ e.output = .ok (.completed true))
      ∨ ∃ batchSize, e.input.op = .recoverExpiredLeases batchSize
        ∧ leaseExpired e.input.call.now r = true)

/-- What one step may do to attempts. -/
structure Fenced (e : ServiceEntry) : Prop where
  /-- An attempt with an outcome is never touched again. -/
  finished_kept : ∀ a ∈ e.before.attempts.rows, a.outcome ≠ none → a ∈ e.after.attempts.rows
  /-- An open attempt only changes by receiving its outcome from the lease holder or recovery. -/
  outcome_by : ∀ a ∈ e.before.attempts.rows, ∀ a' ∈ e.after.attempts.rows, a'.id = a.id →
    a' ≠ a → a.outcome = none ∧ a'.outcome ≠ none ∧ WrittenByHolder e a
  /-- An attempt that appears has no outcome. -/
  starts_open : ∀ a' ∈ e.after.attempts.rows, (∀ a ∈ e.before.attempts.rows, a.id ≠ a'.id) →
    a'.outcome = none
  /-- A late completion returns `False` and changes nothing. -/
  late_completion : ∀ runId attemptId workerId,
    IsCompletion runId attemptId workerId e.input.op →
      LostAttempt e.before e.input.call.now runId attemptId workerId →
        e.output = .ok (.completed false) ∧ e.after = e.before

/-! ### Outcomes and end times agree -/

/-- Every attempt has an outcome exactly when it is finished. -/
def OutcomesAgree (v : RunView) : Prop :=
  ∀ a ∈ v.attempts, a.outcome = none ↔ a.finishedAt = none

variable {answer : Answer} {r : Run} {a : RunAttempt} {sets : List AttemptSet}

theorem FinishedBy.sets_outcome {i : Input} (h : FinishedBy i answer r a sets) (b : RunAttempt) :
    (assignAll AttemptSet.assign sets b).outcome ≠ none
      ∧ (assignAll AttemptSet.assign sets b).finishedAt ≠ none := by
  cases h <;> simp

theorem AttemptChange.outcomesAgree {i : Input} {attempts attempts' : List RunAttempt}
    (h : AttemptChange i answer r attempts attempts')
    (hagree : ∀ a ∈ attempts, a.outcome = none ↔ a.finishedAt = none) :
    ∀ a ∈ attempts', a.outcome = none ↔ a.finishedAt = none := by
  cases h with
  | same => exact hagree
  | started hqueued hstarted =>
    intro a ha
    rcases List.mem_append.mp ha with hold | hnew
    · exact hagree a hold
    · rw [List.mem_singleton.mp hnew]
      exact ⟨fun _ => hstarted.isOpen.1, fun _ => hstarted.isOpen.2⟩
  | @finished a0 sets hmem hopen hby =>
    intro a ha
    obtain ⟨b, hb, rfl⟩ := List.mem_map.mp ha
    split
    · obtain ⟨houtcome, hfinished⟩ := hby.sets_outcome b
      exact ⟨fun h => absurd h houtcome, fun h => absurd h hfinished⟩
    · exact hagree b hb

theorem OutcomesAgree.note {v v' : RunView} (h : OutcomesAgree v) (hnote : Note v v') :
    OutcomesAgree v' := by
  unfold OutcomesAgree
  rw [Noted.attempts_eq (.single hnote)]
  exact h

theorem OutcomesAgree.step {s : Store} {i : Input} {v v' : RunView} (h : OutcomesAgree v)
    (hstep : RunStep s i answer v v') : OutcomesAgree v' := by
  cases hrun : v.run with
  | none =>
    unfold OutcomesAgree
    rw [hstep.attempts_of_none hrun]
    exact h
  | some r => exact (hstep.attemptChange hrun).outcomesAgree h

theorem reachable_outcomesAgree [Externals] {s : Store} (h : service.Reachable s) (k : Uuid) :
    OutcomesAgree (view s k) :=
  reachable_views (fun a ha => absurd ha (by simp [RunView.empty]))
    (fun _ _ hv hnote => hv.note hnote) (fun _ _ _ _ _ hv hstep => hv.step hstep) h k

/-! ### One step -/

/-- What becomes of a stored attempt: nothing, or it was open and receives its outcome. -/
def AttemptKept (e : ServiceEntry) (a a' : RunAttempt) : Prop :=
  a' = a ∨ (a.finishedAt = none ∧ a'.outcome ≠ none ∧ WrittenByHolder e a)

theorem FinishedBy.written {e : ServiceEntry} (h : FinishedBy e.input answer r a sets)
    (hout : e.output = .ok answer) (hrun : e.before.runs.get? a.runId = some r) :
    WrittenByHolder e a := by
  have hid : r.id = a.runId := (mem_of_get? hrun).2
  refine ⟨r, hrun, ?_⟩
  cases h with
  | success hop hanswer hlease =>
    refine .inl ⟨_, ?_, hlease, hanswer ▸ hout⟩
    rw [hop, hid]
    exact .success _
  | failure hop hanswer hlease =>
    refine .inl ⟨_, ?_, hlease, hanswer ▸ hout⟩
    rw [hop, hid]
    exact .failure _
  | recovery hop hexpired => exact .inr ⟨_, hop, hexpired⟩

section Step

variable [Externals] {s : Store} (hreach : service.Reachable s) (i : Input)
include hreach

/-- Every stored attempt is still there after a step. -/
theorem attempt_kept (ha : a ∈ s.attempts.rows) :
    ∃ a' ∈ (service.step s i).2.attempts.rows, a'.id = a.id ∧ a'.runId = a.runId
      ∧ AttemptKept (service.entry s i) a a' := by
  rcases service_step_effects s i with ⟨answer, hout, heffects⟩ | ⟨e, -, hsame⟩
  · have hmem : a ∈ s.attemptsOf a.runId := mem_select.mpr ⟨ha, by simp⟩
    cases hrun : s.runs.get? a.runId with
    | none =>
      have hempty : s.attemptsOf a.runId = [] := (reachable_coherentView hreach a.runId).2 hrun
      rw [hempty] at hmem
      exact absurd hmem (by simp)
    | some r =>
      have hchange := (heffects a.runId).attemptChange hrun
      generalize hafter : (view (service.step s i).2 a.runId).attempts = after at hchange
      have hrows : ∀ b ∈ after, b ∈ (service.step s i).2.attempts.rows := fun b hb =>
        (mem_select.mp (show b ∈ (view (service.step s i).2 a.runId).attempts from
          hafter ▸ hb)).1
      cases hchange with
      | same => exact ⟨a, hrows a hmem, rfl, rfl, .inl rfl⟩
      | started hqueued hstarted =>
        exact ⟨a, hrows a (List.mem_append_left _ hmem), rfl, rfl, .inl rfl⟩
      | @finished a0 sets hmem0 hopen hby =>
        have hb := hrows _ (List.mem_map_of_mem hmem)
        split at hb
        · rename_i hid
          cases eq_of_id_eq ha (mem_select.mp hmem0).1 hid
          have hident := assignAll_keeps AttemptSet.ident_assign sets a
          refine ⟨_, hb, congrArg Prod.fst hident, congrArg (·.2.1) hident, ?_⟩
          exact .inr ⟨hopen, (hby.sets_outcome a).1,
            FinishedBy.written (e := service.entry s i) hby hout hrun⟩
        · exact ⟨a, hb, rfl, rfl, .inl rfl⟩
  · rw [hsame]
    exact ⟨a, ha, rfl, rfl, .inl rfl⟩

omit hreach in
/-- An attempt that was not stored before is the one a claim has just started. -/
theorem attempt_new {a' : RunAttempt} (ha' : a' ∈ (service.step s i).2.attempts.rows)
    (hnew : ∀ a ∈ s.attempts.rows, a.id ≠ a'.id) : a'.outcome = none := by
  rcases service_step_effects s i with ⟨answer, -, heffects⟩ | ⟨e, -, hsame⟩
  · have hmem : a' ∈ (view (service.step s i).2 a'.runId).attempts :=
      mem_select.mpr ⟨ha', by simp⟩
    have habs : a' ∉ s.attemptsOf a'.runId := fun h =>
      hnew a' (mem_select.mp h).1 rfl
    cases hrun : s.runs.get? a'.runId with
    | none =>
      rw [(heffects a'.runId).attempts_of_none hrun] at hmem
      exact absurd hmem habs
    | some r =>
      have hchange := (heffects a'.runId).attemptChange hrun
      generalize (view (service.step s i).2 a'.runId).attempts = after at hmem hchange
      cases hchange with
      | same => exact absurd hmem habs
      | started hqueued hstarted =>
        rcases List.mem_append.mp hmem with hold | hlast
        · exact absurd hold habs
        · rw [List.mem_singleton.mp hlast]
          exact hstarted.isOpen.2
      | @finished a0 sets hmem0 hopen hby =>
        obtain ⟨b, hb, hbeq⟩ := List.mem_map.mp hmem
        refine absurd ?_ (hnew b (mem_select.mp hb).1)
        rw [← hbeq]
        split
        · exact (congrArg Prod.fst (assignAll_keeps AttemptSet.ident_assign sets b)).symm
        · rfl
  · rw [hsame] at ha'
    exact absurd rfl (hnew a' ha')

omit hreach in
/-- **Late completions are no-ops.** -/
theorem late_completion {runId attemptId : Uuid} {workerId : String}
    (hop : IsCompletion runId attemptId workerId i.op)
    (hlost : LostAttempt s i.call.now runId attemptId workerId) :
    service.step s i = (.ok (.completed false), s) := by
  have hnone : ∀ run attempt, ¬ ActiveAttempt s i.call runId attemptId workerId run attempt := by
    rintro run attempt ⟨hrun, hattempt, hlease, hbelongs, hopen⟩
    rcases hlost with ⟨a, ha, hdead | hother⟩ | hlost
    · cases ha.symm.trans hattempt
      exact hdead hopen
    · cases ha.symm.trans hattempt
      exact hother (hbelongs.trans (mem_of_get? hrun).2)
    · rw [hlost run hrun] at hlease
      exact absurd hlease (by simp)
  refine service_step_ok ?_
  generalize hopeq : i.op = op at hop
  cases hop with
  | success result =>
    simp only [Input.run, hopeq, completeSuccess, bind_eq, run_bind,
      run_activeAttempt_none hnone, ok_bind]
    rfl
  | failure errorCode =>
    simp only [Input.run, hopeq, completeFailure, bind_eq, run_bind,
      run_activeAttempt_none hnone, ok_bind]
    rfl

/-- **What one step may do to attempts.** -/
theorem fenced_step : Fenced (service.entry s i) where
  finished_kept a ha hdone := by
    obtain ⟨a', ha', -, -, rfl | ⟨hopen, -, -⟩⟩ := attempt_kept hreach i ha
    · exact ha'
    · exact absurd ((reachable_outcomesAgree hreach a.runId a
        (mem_select.mpr ⟨ha, by simp⟩)).mpr hopen) hdone
  outcome_by a ha b hb hid hne := by
    obtain ⟨a', ha', hid', -, hkept⟩ := attempt_kept hreach i ha
    cases eq_of_id_eq hb ha' (hid.trans hid'.symm)
    rcases hkept with rfl | ⟨hopen, houtcome, hwritten⟩
    · exact absurd rfl hne
    · exact ⟨(reachable_outcomesAgree hreach a.runId a
        (mem_select.mpr ⟨ha, by simp⟩)).mpr hopen, houtcome, hwritten⟩
  starts_open a' ha' hnew := attempt_new i ha' hnew
  late_completion runId attemptId workerId hop hlost := by
    have hstep := late_completion i hop hlost
    exact ⟨congrArg Prod.fst hstep, congrArg Prod.snd hstep⟩

end Step

/-! ### Reported successes -/

/-- Attempt `attemptId` receives its outcome in this step. -/
def ReceivesOutcome (attemptId : Uuid) (e : ServiceEntry) : Prop :=
  (∀ a ∈ e.before.attempts.rows, a.id = attemptId → a.outcome = none)
    ∧ ∃ a ∈ e.after.attempts.rows, a.id = attemptId ∧ a.outcome ≠ none

/-- The run is stored with status `SUCCEEDED`. -/
def HasSucceeded (runId : Uuid) (s : Store) : Prop :=
  ∃ r, s.runs.get? runId = some r ∧ r.executionStatus = .succeeded

/-- A completion call for the run returns `True` and leaves it `SUCCEEDED`. -/
def ReportsSuccess (runId : Uuid) (e : ServiceEntry) : Prop :=
  (∃ attemptId workerId, IsCompletion runId attemptId workerId e.input.op)
    ∧ e.output = .ok (.completed true) ∧ HasSucceeded runId e.after

section Success

variable {busy : Lock → Bool} {s : Store} {c : Call} {runId attemptId : Uuid} {workerId : String}

theorem completeSuccess_succeeded (result : ExecutionResult) :
    Ensures busy (completeSuccess c runId attemptId workerId result) s
      fun a s' => a = true → HasSucceeded runId s' := by
  simp only [completeSuccess, bind_eq, ensures_bind]
  refine ensures_activeAttempt ((ensures_done _).mpr (fun h => absurd h (by simp))) ?_
  intro run a hactive
  obtain ⟨rfl, -, -⟩ := hactive.ids
  simp only [ensures_bind, ensures_exec, pure_eq, ensures_done]
  intro s1 h1 s2 h2 s3 h3
  refine (finalizeEvaluationJob_noted _ _).mono ?_
  intro _ s4 h4 _
  have hrun : (view s3 run.id).run
      = some (assignAll RunSet.assign (succeedSets c.now result) run) := by
    rw [view_apply h3, view_apply h2, view_apply h1]
    simp [onView, newEvent, view, hactive.run_eq]
  obtain ⟨x, hx⟩ := (h4 run.id).run_eq hrun
  exact ⟨_, hx, by simp⟩

variable [Externals] {i : Input}

/-- A completion call that returns `True` found the run `RUNNING`. -/
theorem completed_running (hop : IsCompletion runId attemptId workerId i.op)
    (hout : (service.step s i).1 = .ok (.completed true)) : ¬ HasSucceeded runId s := by
  rintro ⟨r, hr, hstatus⟩
  have hlost : LostAttempt s i.call.now runId attemptId workerId := by
    refine .inr fun r' hr' => ?_
    cases hr.symm.trans hr'
    by_contra hlease
    rw [ownsActiveLease_running (Bool.not_eq_false _ ▸ hlease)] at hstatus
    exact absurd hstatus (by simp)
  rw [late_completion i hop hlost] at hout
  exact absurd hout (by simp)

/-- A successful completion that returns `True` leaves the run `SUCCEEDED`. -/
theorem completed_succeeded {result : ExecutionResult}
    (hop : i.op = .completeSuccess runId attemptId workerId result)
    (hout : (service.step s i).1 = .ok (.completed true)) :
    HasSucceeded runId (service.step s i).2 := by
  rcases service_step_cases s i with ⟨answer, s', hrun, hstep⟩ | ⟨x, -, hstep⟩
  · rw [hstep] at hout ⊢
    cases Except.ok.inj hout
    simp only [Input.run, hop] at hrun
    exact of_map_ok (R := fun a s' => a = .completed true → HasSucceeded runId s') hrun
      (fun a s' h htrue => completeSuccess_succeeded result a s' h (Answer.completed.inj htrue)) rfl
  · rw [hstep] at hout
    exact absurd hout (by simp)

/-- Success is for good. -/
theorem hasSucceeded_step (h : HasSucceeded runId s) : HasSucceeded runId (service.step s i).2 := by
  obtain ⟨r, hr, hstatus⟩ := h
  obtain ⟨r', hr'⟩ := frozen_service_step i (s := s) (k := runId)
    ⟨r, hr, rfl, List.prefix_rfl, fun _ => ⟨rfl, rfl⟩⟩
  refine ⟨r', hr'.run, ?_⟩
  rw [(hr'.terminal (by rw [hstatus]; rfl)).1]
  exact hstatus

end Success

/-- **Lease fencing.** Over every history of the services, whatever the workers, deliveries and
clocks: every step is fenced, every attempt receives at most one outcome, a successful completion
that returns `True` reports a success, and a run has at most one reported success. -/
theorem lease_fencing [Externals] (inputs : List Input) :
    (∀ e ∈ service.history inputs, Fenced e)
      ∧ (∀ attemptId, (service.history inputs).Pairwise fun e e' =>
          ¬ (ReceivesOutcome attemptId e ∧ ReceivesOutcome attemptId e'))
      ∧ (∀ e ∈ service.history inputs, ∀ runId attemptId workerId result,
          e.input.op = .completeSuccess runId attemptId workerId result →
            e.output = .ok (.completed true) → ReportsSuccess runId e)
      ∧ ∀ runId, (service.history inputs).Pairwise fun e e' =>
          ¬ (ReportsSuccess runId e ∧ ReportsSuccess runId e') := by
  refine ⟨?_, ?_, ?_, ?_⟩
  · intro e he
    obtain ⟨hreach, heq⟩ := service.mem_history he
    rw [heq]
    exact fenced_step hreach e.input
  · intro attemptId
    refine service.history_at_most_once _
      (fun s => ∃ a ∈ s.attempts.rows, a.id = attemptId ∧ a.outcome ≠ none) ?_ ?_ inputs
    · rintro s i - ⟨hopen, hdone⟩
      exact ⟨fun ⟨a, ha, hid, houtcome⟩ => houtcome (hopen a ha hid), hdone⟩
    · rintro s i hreach ⟨a, ha, hid, houtcome⟩
      exact ⟨a, (fenced_step hreach i).finished_kept a ha houtcome, hid, houtcome⟩
  · intro e he runId attemptId workerId result hop hout
    obtain ⟨-, heq⟩ := service.mem_history he
    refine ⟨⟨attemptId, workerId, hop ▸ .success result⟩, hout, ?_⟩
    rw [heq] at hout ⊢
    exact completed_succeeded hop hout
  · intro runId
    refine service.history_at_most_once _ (HasSucceeded runId) ?_ (fun _ _ _ => hasSucceeded_step)
      inputs
    rintro s i - ⟨⟨attemptId, workerId, hop⟩, hout, hsucceeded⟩
    exact ⟨completed_running hop hout, hsucceeded⟩

end AgentRuntime.Lifecycle
