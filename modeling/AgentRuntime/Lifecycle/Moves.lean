import AgentRuntime.Lifecycle.RunStep

/-!
# The moves of a run

Each step of an existing run is one of eight moves. A move fixes the status it starts from, the
status it leads to, the event it writes to the history and the outbox event it leaves behind, so
that a property of these four is read off a table instead of the steps.

* `Move`: the table;
* `RunStep.moved`: every step of an existing run is a move;
* `RunStep.born`: the only other step creates a run.
-/

namespace AgentRuntime.Lifecycle

open Lib Domain Database

/-- The ways a run moves once it exists. -/
inductive Move where
  | start
  | defer
  | reject
  | succeed
  | retry
  | deadLetter
  | fail
  | requeue
  deriving DecidableEq, Repr

namespace Move

/-- The status a move starts from. -/
def source : Move → ExecutionStatus
  | .start => .queued
  | .defer => .queued
  | .reject => .queued
  | .succeed => .running
  | .retry => .running
  | .deadLetter => .running
  | .fail => .running
  | .requeue => .retryScheduled

/-- The status a move leads to. -/
def target : Move → ExecutionStatus
  | .start => .running
  | .defer => .retryScheduled
  | .reject => .failed
  | .succeed => .succeeded
  | .retry => .retryScheduled
  | .deadLetter => .deadLettered
  | .fail => .failed
  | .requeue => .queued

/-- The event a move writes; deferring and rejecting a claim write none. -/
def event : Move → Option EventType
  | .start => some .runClaimed
  | .defer => none
  | .reject => none
  | .succeed => some .runSucceeded
  | .retry => some .runRetryScheduled
  | .deadLetter => some .runDeadLettered
  | .fail => some .runFailed
  | .requeue => some .runRetryQueued

/-- The outbox event a move leaves behind. -/
def outbox : Move → Option OutboxEventType
  | .deadLetter => some .runDeadLettered
  | .requeue => some .runQueued
  | _ => none

theorem source_not_terminal (m : Move) : isTerminalExecutionStatus m.source = false := by
  cases m <;> rfl

end Move

/-! ### Guards and statuses -/

variable {s : Store} {i : Input} {answer : Answer} {v v' : RunView} {r : Run}

theorem ownsActiveLease_running {workerId : String} {now : Timestamp}
    (h : ownsActiveLease r workerId now = true) : r.executionStatus = .running := by
  simp only [ownsActiveLease, Bool.and_eq_true, beq_iff_eq] at h
  exact h.1.1

theorem leaseExpired_running {now : Timestamp} (h : leaseExpired now r = true) :
    r.executionStatus = .running := by
  simp only [leaseExpired, Bool.and_eq_true, beq_iff_eq] at h
  exact h.1

theorem Failing.running {a : RunAttempt} {code : String} {recovery : Bool}
    (h : Failing i answer v r a code recovery) : r.executionStatus = .running := by
  cases h with
  | worker _ _ hlease _ _ => exact ownsActiveLease_running hlease
  | recovery _ hexpired _ => exact leaseExpired_running hexpired

theorem retryDue_scheduled {now : Timestamp} (h : retryDue now r = true) :
    r.executionStatus = .retryScheduled := by
  simp only [retryDue, Bool.and_eq_true, beq_iff_eq] at h
  exact h.1

/-! ### Steps as moves -/

/-- Row `r` of the run with view `v` moves to row `r'` and view `v'`. -/
structure Moved (s : Store) (i : Input) (v v' : RunView) (r r' : Run) (m : Move) : Prop where
  run' : v'.run = some r'
  source : r.executionStatus = m.source
  target : r'.executionStatus = m.target
  events : ∃ new, v'.events = v.events ++ new ∧ new.map RunEvent.eventType = m.event.toList
  outbox : ∃ new, v'.outbox = v.outbox ++ new ∧ new.map OutboxEvent.eventType = m.outbox.toList
  deferral : m = .defer → ∃ svc workerId, i.op = .claim svc r.id workerId
    ∧ runningQuotaFull svc.quotas s r ∧ ∃ t, i.call.now.addSeconds 1 = .ok t
  rejection : m = .reject → ∃ svc workerId message, i.op = .claim svc r.id workerId
    ∧ ¬ runningQuotaFull svc.quotas s r
    ∧ claimPolicy svc r (nextNumber v.attempts) = .error (.valueError message)

/-- **Every step of an existing run is a move.** -/
theorem RunStep.moved (h : RunStep s i answer v v') (hr : v.run = some r) :
    ∃ r' m, Moved s i v v' r r' m := by
  cases h with
  | created hnone hevent =>
    rw [hr] at hnone
    exact absurd hnone (by simp)
  | started _ _ _ _ hrun hqueued =>
    cases hr.symm.trans hrun
    exact ⟨_, .start, by simp [hr]; rfl, hqueued, rfl, ⟨[_], rfl, rfl⟩, ⟨[], by simp, rfl⟩,
      by simp, by simp⟩
  | deferred hop _ hrun hqueued hquota htime =>
    cases hr.symm.trans hrun
    exact ⟨_, .defer, by simp [hr]; rfl, hqueued, rfl, ⟨[], by simp, rfl⟩, ⟨[], by simp, rfl⟩,
      fun _ => ⟨_, _, hop, hquota, _, htime⟩, by simp⟩
  | rejected hop _ hrun hqueued hquota hpolicy =>
    cases hr.symm.trans hrun
    exact ⟨_, .reject, by simp [hr]; rfl, hqueued, rfl, ⟨[], by simp, rfl⟩, ⟨[], by simp, rfl⟩,
      by simp, fun _ => ⟨_, _, _, hop, hquota, hpolicy⟩⟩
  | succeeded _ _ hrun hlease =>
    cases hr.symm.trans hrun
    exact ⟨_, .succeed, by simp [hr]; rfl, ownsActiveLease_running hlease, rfl, ⟨[_], rfl, rfl⟩,
      ⟨[], by simp, rfl⟩, by simp, by simp⟩
  | retried hfail hrun =>
    cases hr.symm.trans hrun
    exact ⟨_, .retry, by simp [hr]; rfl, hfail.running, rfl, ⟨[_], rfl, rfl⟩,
      ⟨[], by simp, rfl⟩, by simp, by simp⟩
  | deadLettered hfail hrun =>
    cases hr.symm.trans hrun
    exact ⟨_, .deadLetter, by simp [hr]; rfl, hfail.running, rfl, ⟨[_], rfl, rfl⟩,
      ⟨[_], rfl, rfl⟩, by simp, by simp⟩
  | failed hfail hrun =>
    cases hr.symm.trans hrun
    exact ⟨_, .fail, by simp [hr]; rfl, hfail.running, rfl, ⟨[_], rfl, rfl⟩,
      ⟨[], by simp, rfl⟩, by simp, by simp⟩
  | requeued _ hrun hdue =>
    cases hr.symm.trans hrun
    exact ⟨_, .requeue, by simp [hr]; rfl, retryDue_scheduled hdue, rfl, ⟨[_], rfl, rfl⟩,
      ⟨[_], rfl, rfl⟩, by simp, by simp⟩

/-- **The only step of a run that does not exist creates it**, queued and with an outbox event that
announces it. -/
theorem RunStep.born (h : RunStep s i answer v v') (hnone : v.run = none) :
    ∃ r' event o, v'.run = some r' ∧ r'.executionStatus = .queued
      ∧ v'.events = v.events ++ [event]
      ∧ (event.eventType = .runQueued ∨ event.eventType = .runReplayQueued)
      ∧ v'.outbox = v.outbox ++ [o] ∧ o.eventType = .runQueued ∧ o.publishedAt = none
      ∧ v'.attempts = v.attempts := by
  have habs : ∀ {r}, v.run = some r → False := fun hr => by simp [hnone] at hr
  cases h with
  | created _ hevent => exact ⟨_, _, _, rfl, rfl, rfl, hevent, rfl, rfl, rfl, rfl⟩
  | started _ _ _ _ hrun => exact (habs hrun).elim
  | deferred _ _ hrun => exact (habs hrun).elim
  | rejected _ _ hrun => exact (habs hrun).elim
  | succeeded _ _ hrun => exact (habs hrun).elim
  | retried _ hrun => exact (habs hrun).elim
  | deadLettered _ hrun => exact (habs hrun).elim
  | failed _ hrun => exact (habs hrun).elim
  | requeued _ hrun => exact (habs hrun).elim

end AgentRuntime.Lifecycle
