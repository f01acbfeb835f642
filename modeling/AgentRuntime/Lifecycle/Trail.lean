import AgentRuntime.Lifecycle.Bookkeeping

/-!
# The history of a run tells its state

Statuses are columns of a run that the services overwrite; its events are rows that they only add.
Read as the statuses they record, the events of a run are a path through the declared lifecycle
that ends where the run stands. Two moves leave no event, a claim that puts the queued run off and
one that rejects its policy, so a run that was last recorded as queued may stand at one of three
statuses.

* `Trailed`: what a list of recorded statuses says about a status;
* `Trailed.move`: every move keeps it;
* `history_tells_state`: the run lemma, for every run after any inputs.
-/

namespace AgentRuntime.Lifecycle

open Lib Domain Database Application

/-- The status that an event of the history records. -/
def recordedStatus : EventType → Option ExecutionStatus
  | .runQueued => some .queued
  | .runReplayQueued => some .queued
  | .runRetryQueued => some .queued
  | .runClaimed => some .running
  | .runRetryScheduled => some .retryScheduled
  | .runSucceeded => some .succeeded
  | .runFailed => some .failed
  | .runDeadLettered => some .deadLettered
  | _ => none

/-- The statuses that the history of a run records. -/
def RunView.trail (v : RunView) : List ExecutionStatus :=
  (v.events.map RunEvent.eventType).filterMap recordedStatus

/-- How many outbox events ask for an execution of the run. -/
def RunView.requests (v : RunView) : ℕ := (v.outbox.map OutboxEvent.eventType).count .runQueued

/-- One recorded status comes after another: the lifecycle has the transition, or the queued run was
put off and queued again. -/
def Follows (x y : ExecutionStatus) : Prop :=
  y ∈ allowedExecutionTransitions x ∨ x = .queued ∧ y = .queued

/-- A run may stand at `status` when `x` was recorded last. -/
def Shows (x status : ExecutionStatus) : Prop :=
  status = x ∨ x = .queued ∧ (status = .retryScheduled ∨ status = .failed)

/-- The trail leads from `QUEUED` along the lifecycle to where the run stands, with one request for
an execution each time the run was queued. -/
structure Trailed (status : Option ExecutionStatus) (trail : List ExecutionStatus)
    (requests : ℕ) : Prop where
  absent : status = none → trail = []
  start : ∀ x ∈ trail.head?, x = .queued
  path : trail.IsChain Follows
  present : ∀ y ∈ status, ∃ x ∈ trail.getLast?, Shows x y
  requested : requests = trail.count .queued

namespace Trailed

variable {trail : List ExecutionStatus} {requests : ℕ} {x y : ExecutionStatus}

theorem created (h : Trailed none trail requests) :
    Trailed (some .queued) (trail ++ [.queued]) (requests + 1) := by
  obtain rfl := h.absent rfl
  refine ⟨by simp, by simp, .singleton _, ?_, by rw [h.requested]; rfl⟩
  exact fun y hy => ⟨.queued, rfl, .inl (Option.some.inj hy).symm⟩

/-- A move that leaves an event. -/
theorem recorded {n : ℕ} (h : Trailed (some x) trail requests)
    (hfollows : ∀ w, Shows w x → Follows w y) (hn : n = [y].count .queued) :
    Trailed (some y) (trail ++ [y]) (requests + n) := by
  obtain ⟨w, hw, hshows⟩ := h.present x rfl
  have hne : trail ≠ [] := fun hnil => by simp [hnil] at hw
  refine ⟨by simp, ?_, ?_, ?_, by rw [h.requested, hn, List.count_append]⟩
  · rw [List.head?_append_of_ne_nil _ hne]
    exact h.start
  · rw [List.isChain_append]
    refine ⟨h.path, .singleton _, fun w' hw' z hz => ?_⟩
    cases Option.some.inj (hw.symm.trans hw')
    cases hz
    exact hfollows w hshows
  · exact fun z hz => ⟨y, by simp, .inl (Option.some.inj hz).symm⟩

/-- A claim that puts the queued run off or rejects it. -/
theorem silent (h : Trailed (some .queued) trail requests) (hy : Shows .queued y) :
    Trailed (some y) trail requests := by
  obtain ⟨w, hw, hshows⟩ := h.present .queued rfl
  cases (hshows.elim Eq.symm And.left : w = .queued)
  refine { h with absent := by simp, present := fun z hz => ?_ }
  cases hz
  exact ⟨.queued, hw, hy⟩

/-- **Moves** keep the trail. -/
theorem move (m : Move) (h : Trailed (some m.source) trail requests) :
    Trailed (some m.target) (trail ++ m.event.toList.filterMap recordedStatus)
      (requests + m.outbox.toList.count .runQueued) := by
  have hfollows (hevent : m.event ≠ none) (w : ExecutionStatus) (hw : Shows w m.source) :
      Follows w m.target := by
    revert hevent hw
    cases m <;> cases w <;> simp [Shows, Follows, Move.source, Move.target, Move.event,
      allowedExecutionTransitions]
  cases m with
  | defer => simpa [Move.event, Move.outbox, Move.target] using h.silent (.inr ⟨rfl, .inl rfl⟩)
  | reject => simpa [Move.event, Move.outbox, Move.target] using h.silent (.inr ⟨rfl, .inr rfl⟩)
  | _ => exact h.recorded (hfollows (by simp [Move.event])) rfl

end Trailed

variable {v v' : RunView}

theorem Note.trail_eq (h : Note v v') : v'.trail = v.trail := by
  cases h with
  | remark e hrun he =>
    have hnone : recordedStatus e.eventType = none := by
      revert he
      cases e.eventType <;> simp [isRemark, recordedStatus]
    simp [RunView.trail, hnone]
  | _ => rfl

theorem Note.requests_eq (h : Note v v') : v'.requests = v.requests := by
  unfold RunView.requests
  rw [Noted.outbox_map_eq outboxType_assign (.single h)]

theorem RunStep.trailed {s : Store} {i : Input} {answer : Answer} (hstep : RunStep s i answer v v')
    (h : Trailed (v.run.map Run.executionStatus) v.trail v.requests) :
    Trailed (v'.run.map Run.executionStatus) v'.trail v'.requests := by
  unfold RunView.trail RunView.requests at h ⊢
  cases hrun : v.run with
  | none =>
    obtain ⟨r', event, o, hr', hqueued, hevents, htype, houtbox, hasked, -⟩ := hstep.born hrun
    have hrecorded : recordedStatus event.eventType = some .queued := by
      rcases htype with htype | htype <;> rw [htype] <;> rfl
    rw [hrun] at h
    simpa [hr', hqueued, hevents, hrecorded, houtbox, hasked] using h.created
  | some r =>
    obtain ⟨r', m, hm⟩ := hstep.moved hrun
    obtain ⟨events, hevents, htypes⟩ := hm.events
    obtain ⟨outbox, houtbox, hasked⟩ := hm.outbox
    rw [hrun, Option.map_some, hm.source] at h
    rw [hm.run', Option.map_some, hm.target, hevents, List.map_append, List.filterMap_append,
      htypes, houtbox, List.map_append, List.count_append, hasked]
    exact h.move m

/-- **The history of a run tells its state.** After any inputs, the statuses recorded in the
history of a run start with `QUEUED`, follow the lifecycle and end where the run stands, apart from
claims that put it off or reject it; and the outbox has asked for an execution exactly as many times
as the run was queued. -/
theorem history_tells_state [Externals] (inputs : List Input) (k : Uuid) :
    Trailed (((service.after inputs).runs.get? k).map Run.executionStatus)
      (view (service.after inputs) k).trail (view (service.after inputs) k).requests := by
  refine reachable_views (P := fun v => Trailed (v.run.map Run.executionStatus) v.trail v.requests)
    ⟨fun _ => rfl, by simp [RunView.trail, RunView.empty], .nil, by simp [RunView.empty], rfl⟩
    (fun v v' hv hnote => ?_) (fun _ _ _ _ _ hv hstep => hstep.trailed hv)
    ⟨inputs, rfl⟩ k
  rw [Noted.status_map_eq (.single hnote), hnote.trail_eq, hnote.requests_eq]
  exact hv

end AgentRuntime.Lifecycle
