import AgentRuntime.Lifecycle.Moves
import AgentRuntime.Lifecycle.Simulation

/-!
# What operations do to attempts and to accepted columns

Two summaries of the steps that several properties share.

* `Effect.accepted_eq`: no operation changes what was accepted with a run;
* `Effect.attemptChange`: an operation leaves the attempts of a run alone, appends the one it
  started, or finishes an open one, and says who finished it.
-/

namespace AgentRuntime.Lifecycle

open Lib Domain Database

variable {s : Store} {i : Input} {answer : Answer} {v v' : RunView}

/-! ### Accepted columns -/

theorem accepted_setRun (v : RunView) (sets : List RunSet) :
    (v.setRun sets).run.map accepted = v.run.map accepted := by
  rw [RunView.setRun_run, Option.map_map]
  refine Option.map_congr ?_
  intro r _
  exact accepted_assignAll sets r

theorem Noted.accepted_eq (h : Noted v v') : v'.run.map accepted = v.run.map accepted := by
  induction h with
  | refl => rfl
  | tail _ hnote ih =>
    rw [← ih]
    cases hnote with
    | evaluationStatus x => exact accepted_setRun _ _
    | remark e hsome he => rfl
    | delivery id sets => rfl

variable {r : Run}

/-- A step keeps what was accepted with the run. -/
theorem RunStep.accepted_eq (h : RunStep s i answer v v') (hrun : v.run = some r) :
    v'.run.map accepted = some (accepted r) := by
  have hset : ∀ sets, (v.setRun sets).run.map accepted = some (accepted r) := by
    intro sets
    rw [accepted_setRun, hrun]
    rfl
  cases h with
  | created hnone hevent =>
    rw [hrun] at hnone
    exact absurd hnone (by simp)
  | _ => exact hset _

/-- **Accepted columns never change.** -/
theorem Effect.accepted_eq (h : Effect s i answer v v') (hrun : v.run = some r) :
    ∃ r', v'.run = some r' ∧ accepted r' = accepted r := by
  have hmap : v'.run.map accepted = some (accepted r) := by
    cases h with
    | noted h => rw [h.accepted_eq, hrun]; rfl
    | stepped hbefore hstep hafter =>
      obtain ⟨x, hx⟩ := hbefore.run_eq hrun
      rw [hafter.accepted_eq, hstep.accepted_eq hx]
      rfl
  obtain ⟨r', hr', heq⟩ := Option.map_eq_some_iff.mp hmap
  exact ⟨r', hr', heq⟩

/-! ### Attempts -/

/-- Who finishes attempt `a` of run `r`, and what is written to it: the worker that holds the
lease, with a call that names the attempt, or lease recovery. -/
inductive FinishedBy (i : Input) (answer : Answer) (r : Run) (a : RunAttempt) :
    List AttemptSet → Prop where
  | success {workerId : String} {result : ExecutionResult}
      (hop : i.op = .completeSuccess r.id a.id workerId result)
      (hanswer : answer = .completed true)
      (hlease : ownsActiveLease r workerId i.call.now = true) :
      FinishedBy i answer r a (finishSucceededAttempt a i.call.now result)
  | failure {workerId errorCode : String}
      (hop : i.op = .completeFailure r.id a.id workerId errorCode)
      (hanswer : answer = .completed true)
      (hlease : ownsActiveLease r workerId i.call.now = true) :
      FinishedBy i answer r a (finishFailedAttempt a i.call.now errorCode)
  | recovery {batchSize : ℕ}
      (hop : i.op = .recoverExpiredLeases batchSize)
      (hexpired : leaseExpired i.call.now r = true) :
      FinishedBy i answer r a (finishFailedAttempt a i.call.now
        ExecutionErrorCode.executionLeaseExpired.value)

/-- The attempt `a` an operation has just started for run `r`. -/
structure JustStarted (i : Input) (answer : Answer) (r : Run) (n : ℕ) (a : RunAttempt)
    (svc : ExecutionService) (policy : RetryPolicy) (work : ClaimedWork) : Prop where
  claim : ∃ workerId, i.op = .claim svc r.id workerId
  claimed : answer = .claim ⟨.claimed, r.id, some work⟩
  attempt : work.attemptId = a.id
  provider : work.provider = a.provider
  named : a.provider = policy.providerFor n
  number : a.attemptNumber = n
  isOpen : a.finishedAt = none ∧ a.outcome = none
  belongs : a.runId = r.id
  allowed : claimPolicy svc r n = .ok policy

/-- What an operation does to the attempts of a run with row `r`. -/
inductive AttemptChange (i : Input) (answer : Answer) (r : Run) (attempts : List RunAttempt) :
    List RunAttempt → Prop where
  | same : AttemptChange i answer r attempts attempts
  | started {a : RunAttempt} {svc : ExecutionService} {policy : RetryPolicy} {work : ClaimedWork}
      (hqueued : r.executionStatus = .queued)
      (h : JustStarted i answer r (nextNumber attempts) a svc policy work) :
      AttemptChange i answer r attempts (attempts ++ [a])
  | finished {a : RunAttempt} {sets : List AttemptSet} (hmem : a ∈ attempts)
      (hopen : a.finishedAt = none) (h : FinishedBy i answer r a sets) :
      AttemptChange i answer r attempts (attempts.map fun b =>
        if b.id = a.id then assignAll AttemptSet.assign sets b else b)

theorem Noted.attempts_eq (h : Noted v v') : v'.attempts = v.attempts := by
  induction h with
  | refl => rfl
  | tail _ hnote ih =>
    rw [← ih]
    cases hnote <;> rfl

theorem Failing.finished {a : RunAttempt} {code : String} {recovery : Bool}
    (h : Failing i answer v r a code recovery) :
    AttemptChange i answer r v.attempts
      (v.setAttempt a.id (finishFailedAttempt a i.call.now code)).attempts := by
  cases h with
  | worker hop hanswer hlease hmem hopen =>
    exact .finished hmem hopen (.failure hop hanswer hlease)
  | recovery hop hexpired hlatest =>
    obtain ⟨hmem, hopen⟩ := latestOpen_eq_some hlatest
    exact .finished hmem hopen (.recovery hop hexpired)

theorem RunStep.attemptChange (h : RunStep s i answer v v') (hrun : v.run = some r) :
    AttemptChange i answer r v.attempts v'.attempts := by
  cases h with
  | @started r' svc workerId policy expires work hop hanswer hattempt hprovider hrun' hqueued hquota
      hpolicy hlease =>
      cases hrun.symm.trans hrun'
      exact .started hqueued
        ⟨⟨workerId, hop⟩, hanswer, hattempt, hprovider, rfl, rfl, ⟨rfl, rfl⟩, rfl, hpolicy⟩
  | succeeded hop hanswer hrun' hlease hmem hopen =>
    cases hrun.symm.trans hrun'
    exact .finished hmem hopen (.success hop hanswer hlease)
  | retried hfail hrun' =>
    cases hrun.symm.trans hrun'
    exact hfail.finished
  | deadLettered hfail hrun' =>
    cases hrun.symm.trans hrun'
    exact hfail.finished
  | failed hfail hrun' =>
    cases hrun.symm.trans hrun'
    exact hfail.finished
  | _ => exact .same

/-- The guards do not read the evaluation status. -/
theorem AttemptChange.of_evaluationStatus {x : EvaluationStatus}
    {attempts attempts' : List RunAttempt}
    (h : AttemptChange i answer { r with evaluationStatus := x } attempts attempts') :
    AttemptChange i answer r attempts attempts' := by
  cases h with
  | same => exact .same
  | started hqueued h => exact .started hqueued ⟨h.1, h.2, h.3, h.4, h.5, h.6, h.7, h.8, h.9⟩
  | finished hmem hopen h =>
    refine .finished hmem hopen ?_
    cases h with
    | success hop hanswer hlease => exact .success hop hanswer hlease
    | failure hop hanswer hlease => exact .failure hop hanswer hlease
    | recovery hop hexpired => exact .recovery hop hexpired

/-- **What an operation does to the attempts of a run.** -/
theorem Effect.attemptChange (h : Effect s i answer v v') (hrun : v.run = some r) :
    AttemptChange i answer r v.attempts v'.attempts := by
  cases h with
  | noted h =>
    rw [h.attempts_eq]
    exact .same
  | stepped hbefore hstep hafter =>
    obtain ⟨x, hx⟩ := hbefore.run_eq hrun
    rw [hafter.attempts_eq, ← hbefore.attempts_eq]
    exact (hstep.attemptChange hx).of_evaluationStatus

theorem Noted.run_none (h : Noted v v') (hnone : v.run = none) : v'.run = none := by
  have hmap := h.accepted_eq
  rw [hnone] at hmap
  exact Option.map_eq_none_iff.mp hmap

theorem Noted.status_map_eq (h : Noted v v') :
    v'.run.map Run.executionStatus = v.run.map Run.executionStatus := by
  cases hrun : v.run with
  | none => rw [h.run_none hrun]
  | some r =>
    obtain ⟨x, hx⟩ := h.run_eq hrun
    rw [hx]
    rfl

/-- A run that does not exist can only be created. -/
theorem RunStep.attempts_of_none (h : RunStep s i answer v v') (hnone : v.run = none) :
    v'.attempts = v.attempts := by
  obtain ⟨-, -, -, -, -, -, -, -, -, -, hsame⟩ := h.born hnone
  exact hsame

theorem Effect.attempts_of_none (h : Effect s i answer v v') (hnone : v.run = none) :
    v'.attempts = v.attempts := by
  cases h with
  | noted h => exact h.attempts_eq
  | stepped hbefore hstep hafter =>
    rw [hafter.attempts_eq, hstep.attempts_of_none (hbefore.run_none hnone), hbefore.attempts_eq]

end AgentRuntime.Lifecycle
