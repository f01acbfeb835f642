import AgentRuntime.Lifecycle.Fencing

/-!
# Terminal events and dead letters

The move that ends a run writes the event that says how it ended, and for a dead-lettered run the
outbox event that announces it, in the transaction that ends it. One move does not: a claim that
rejects the stored policy fails the run without any event.

* `reachable_deadLetters`: dead letters match the status of every run of every reachable store;
* `terminal_bookkeeping`: so does the terminal event of every run whose policy no claim rejected,
  and of no other run.
-/

namespace AgentRuntime.Lifecycle

open Lib Domain Database Application

/-- The event that records a terminal status. -/
def terminalEvent : ExecutionStatus → Option EventType
  | .succeeded => some .runSucceeded
  | .failed => some .runFailed
  | .deadLettered => some .runDeadLettered
  | _ => none

def isTerminalEvent : EventType → Bool
  | .runSucceeded => true
  | .runFailed => true
  | .runDeadLettered => true
  | _ => false

/-- The terminal events in the history of a run. -/
def RunView.terminalEvents (v : RunView) : List RunEvent :=
  v.events.filter fun e => isTerminalEvent e.eventType

/-- How many outbox events announce that the run was dead-lettered. -/
def RunView.deadLetters (v : RunView) : ℕ :=
  (v.outbox.map OutboxEvent.eventType).count .runDeadLettered

theorem terminalEvent_eq_none {x : ExecutionStatus} :
    terminalEvent x = none ↔ isTerminalExecutionStatus x = false := by
  cases x <;> decide

/-- A claim finds the queued run `k` under quota, and its stored policy unusable. -/
def PolicyRejected (k : Uuid) (s : Store) (i : Input) : Prop :=
  ∃ svc workerId r message, i.op = .claim svc k workerId ∧ s.runs.get? k = some r
    ∧ r.executionStatus = .queued ∧ ¬ runningQuotaFull svc.quotas s r
    ∧ claimPolicy svc r (nextNumber (s.attemptsOf k)) = .error (.valueError message)

/-- `PolicyRejected` as a test. -/
def rejectsPolicy (k : Uuid) (s : Store) (i : Input) : Bool :=
  match i.op, s.runs.get? k with
  | .claim svc runId _, some r =>
    decide (runId = k ∧ r.executionStatus = .queued ∧ ¬ runningQuotaFull svc.quotas s r)
      && (match claimPolicy svc r (nextNumber (s.attemptsOf k)) with
        | .error (.valueError _) => true
        | _ => false)
  | _, _ => false

theorem rejectsPolicy_iff {k : Uuid} {s : Store} {i : Input} :
    rejectsPolicy k s i = true ↔ PolicyRejected k s i := by
  constructor
  · intro h
    unfold rejectsPolicy at h
    split at h
    · rename_i svc runId workerId r hop hr
      rw [Bool.and_eq_true, decide_eq_true_iff] at h
      obtain ⟨⟨rfl, hqueued, hquota⟩, hpolicy⟩ := h
      split at hpolicy
      · rename_i message herror
        exact ⟨svc, workerId, r, message, hop, hr, hqueued, hquota, herror⟩
      · exact absurd hpolicy (by simp)
    · exact absurd h (by simp)
  · rintro ⟨svc, workerId, r, message, hop, hr, hqueued, hquota, hpolicy⟩
    simp [rejectsPolicy, hop, hr, hqueued, hquota, hpolicy]

instance (k : Uuid) (s : Store) (i : Input) : Decidable (PolicyRejected k s i) :=
  decidable_of_iff _ rejectsPolicy_iff

/-- The step takes run `k` to a terminal status. -/
def Ends (k : Uuid) (e : ServiceEntry) : Prop :=
  (∀ r, e.before.runs.get? k = some r → isTerminalExecutionStatus r.executionStatus = false)
    ∧ ∃ r, e.after.runs.get? k = some r ∧ isTerminalExecutionStatus r.executionStatus = true

/-- The terminal bookkeeping of run `k`, whose history is part of `past`. -/
structure Bookkept (past : List ServiceEntry) (k : Uuid) (v : RunView) : Prop where
  /-- The one terminal event of a terminal run matches its status; other runs have none. -/
  matching : v.terminalEvents.map RunEvent.eventType
    = ((v.run.map Run.executionStatus).bind terminalEvent).toList
  /-- It was written by the transaction that made the run terminal. -/
  same_transaction : ∀ event ∈ v.terminalEvents, ∃ e ∈ past, Ends k e
    ∧ event ∉ e.before.events.rows ∧ event ∈ e.after.events.rows
  /-- Exactly the dead-lettered runs have a dead letter, and only one. -/
  dead_letter : v.deadLetters
    = if v.run.map Run.executionStatus = some .deadLettered then 1 else 0

/-! ### Notes -/

section Notes

variable {v v' : RunView}

theorem Noted.terminalEvents_eq (h : Noted v v') : v'.terminalEvents = v.terminalEvents := by
  induction h with
  | refl => rfl
  | tail _ hnote ih =>
    rw [← ih]
    cases hnote with
    | evaluationStatus x => rfl
    | remark e hrun he =>
      have hnot : isTerminalEvent e.eventType = false := by
        revert he
        cases e.eventType <;> simp [isRemark, isTerminalEvent]
      simp [RunView.terminalEvents, hnot]
    | delivery id sets => rfl

/-- Notes change the delivery columns of outbox events only. -/
theorem Noted.outbox_map_eq {β : Type} {f : OutboxEvent → β}
    (hf : ∀ (c : OutboxSet) e, f (c.assign e) = f e) (h : Noted v v') :
    v'.outbox.map f = v.outbox.map f := by
  induction h with
  | refl => rfl
  | tail _ hnote ih =>
    rw [← ih]
    cases hnote with
    | evaluationStatus x => rfl
    | remark e hrun he => rfl
    | delivery id sets =>
      rw [RunView.setOutbox_outbox, List.map_map]
      congr 1
      funext e
      simp only [Function.comp_apply]
      split
      · exact assignAll_keeps hf sets e
      · rfl

theorem outboxType_assign (c : OutboxSet) (e : OutboxEvent) :
    (c.assign e).eventType = e.eventType := by
  cases c <;> rfl

theorem Noted.deadLetters_eq (h : Noted v v') : v'.deadLetters = v.deadLetters := by
  unfold RunView.deadLetters
  rw [h.outbox_map_eq outboxType_assign]

end Notes

/-! ### Dead letters -/

theorem Move.count_deadLetters (m : Move) :
    m.outbox.toList.count .runDeadLettered = if m.target = .deadLettered then 1 else 0 := by
  cases m <;> rfl

/-- **Dead letters match the status** of every run of every reachable store. -/
theorem reachable_deadLetters [Externals] {s : Store} (h : service.Reachable s) (k : Uuid) :
    (view s k).deadLetters
      = if (view s k).run.map Run.executionStatus = some .deadLettered then 1 else 0 := by
  refine reachable_views (P := fun v => v.deadLetters
    = if v.run.map Run.executionStatus = some .deadLettered then 1 else 0) rfl ?_ ?_ h k
  · intro v v' hv hnote
    rw [Noted.deadLetters_eq (.single hnote), Noted.status_map_eq (.single hnote)]
    exact hv
  · intro s i answer v v' hv hstep
    unfold RunView.deadLetters at hv ⊢
    cases hrun : v.run with
    | none =>
      obtain ⟨r', event, o, hr', hqueued, -, -, houtbox, htype, -⟩ := hstep.born hrun
      rw [houtbox, hr', List.map_append, List.count_append, hv, hrun]
      simp [htype, hqueued]
    | some r =>
      obtain ⟨r', m, hm⟩ := hstep.moved hrun
      obtain ⟨new, hnew, htypes⟩ := hm.outbox
      have hsource : r.executionStatus ≠ .deadLettered := by
        rw [hm.source]
        cases m <;> decide
      rw [hnew, List.map_append, List.count_append, htypes, hv, hrun, hm.run', m.count_deadLetters]
      simp [hsource, hm.target]

/-! ### Rejected policies -/

section Rejection

variable [Externals] {s : Store} {i : Input} {k : Uuid}

/-- A committed rejection only assigns the columns of the rejected run, notes apart. -/
theorem PolicyRejected.noted (h : PolicyRejected k s i) {answer : Answer}
    (hout : (service.step s i).1 = .ok answer) :
    (∃ r, s.runs.get? k = some r ∧ r.executionStatus = .queued)
      ∧ Noted ((view s k).setRun (rejectSets i.call.now)) (view (service.step s i).2 k) := by
  obtain ⟨svc, workerId, r, message, hop, hr, hqueued, hquota, hpolicy⟩ := h
  have hid : r.id = k := (Table.mem_of_get? hr).2
  subst hid
  refine ⟨⟨r, hr, hqueued⟩, ?_⟩
  rcases service_step_cases s i with ⟨answer', s', hrun, hstep⟩ | ⟨e, -, hstep⟩
  · rw [hstep]
    simp only [Input.run, hop, run_claim_queued hr hqueued, run_claimQueued_free hquota] at hrun
    refine Tx.of_map_ok (R := fun _ s' => Noted ((view s r.id).setRun (rejectSets i.call.now))
      (view s' r.id)) hrun ?_
    suffices hens : Tx.Ensures i.busy (claimUnderQuota svc i.call r workerId) s
        fun _ s' => Noted ((view s r.id).setRun (rejectSets i.call.now)) (view s' r.id) from hens
    simp only [claimUnderQuota, Tx.bind_eq, Tx.ensures_bind, ensures_nextAttemptNumber, hpolicy,
      rejectRun, Tx.ensures_exec, Tx.pure_eq, Tx.ensures_done]
    intro s1 h1
    refine (finalizeEvaluationJob_noted _ _).mono ?_
    intro _ s2 h2
    have hview : view s1 r.id = (view s r.id).setRun (rejectSets i.call.now) := by
      rw [view_apply h1]
      simp only [onView, if_true]
    exact hview ▸ h2 r.id
  · rw [hstep] at hout
    exact absurd hout (by simp)

end Rejection

/-! ### One step -/

theorem Move.terminal_events {m : Move} (h : m ≠ .reject) :
    m.event.toList.filter isTerminalEvent = (terminalEvent m.target).toList := by
  cases m with
  | reject => exact absurd rfl h
  | _ => rfl

section Step

variable {past past' : List ServiceEntry} {k : Uuid} {v v' : RunView} {r : Run}

/-- Notes and a longer past keep the books. -/
theorem Bookkept.noted (h : Bookkept past k v) (hnoted : Noted v v')
    (hpast : ∀ e ∈ past, e ∈ past') : Bookkept past' k v' where
  matching := by
    rw [hnoted.terminalEvents_eq, hnoted.status_map_eq]
    exact h.matching
  same_transaction event hevent := by
    rw [hnoted.terminalEvents_eq] at hevent
    obtain ⟨e, he, hwritten⟩ := h.same_transaction event hevent
    exact ⟨e, hpast e he, hwritten⟩
  dead_letter := by
    rw [hnoted.deadLetters_eq, hnoted.status_map_eq]
    exact h.dead_letter

theorem Bookkept.terminalEvents_eq_nil (h : Bookkept past k v)
    (hnot : ∀ r, v.run = some r → isTerminalExecutionStatus r.executionStatus = false) :
    v.terminalEvents = [] := by
  rw [← List.map_eq_nil_iff (f := RunEvent.eventType), h.matching]
  cases hrun : v.run with
  | none => rfl
  | some r => simp [terminalEvent_eq_none.mpr (hnot r hrun)]

/-- The terminal events a view gains when events are appended. -/
theorem RunView.terminalEvents_append {new : List RunEvent} (h : v'.events = v.events ++ new) :
    v'.terminalEvents = v.terminalEvents ++ new.filter fun e => isTerminalEvent e.eventType := by
  unfold RunView.terminalEvents
  rw [h, List.filter_append]

/-- In step `e` run `k` came to its status and to the terminal events of that status. -/
structure JustRecorded (e : ServiceEntry) (k : Uuid) : Prop where
  open_before : ∀ r, e.before.runs.get? k = some r →
    isTerminalExecutionStatus r.executionStatus = false
  none_before : (view e.before k).terminalEvents = []
  matching : (view e.after k).terminalEvents.map RunEvent.eventType
    = (((view e.after k).run.map Run.executionStatus).bind terminalEvent).toList

/-- Events written while the run moves belong to the transaction that ends it. -/
theorem JustRecorded.bookkept {e : ServiceEntry} (h : JustRecorded e k) (he : e ∈ past)
    (hdead : (view e.after k).deadLetters
      = if (view e.after k).run.map Run.executionStatus = some .deadLettered then 1 else 0) :
    Bookkept past k (view e.after k) where
  matching := h.matching
  same_transaction event hevent := by
    obtain ⟨hrow, hterminal⟩ := List.mem_filter.mp hevent
    obtain ⟨hafter, hrun⟩ := Table.mem_select.mp hrow
    refine ⟨e, he, ⟨h.open_before, ?_⟩, ?_, hafter⟩
    · have hne : (view e.after k).terminalEvents.map RunEvent.eventType ≠ [] :=
        fun hnil => List.ne_nil_of_mem hevent (List.map_eq_nil_iff.mp hnil)
      rw [h.matching] at hne
      obtain ⟨r, hr, hterm⟩ : ∃ r, e.after.runs.get? k = some r
          ∧ ¬ terminalEvent r.executionStatus = none := by
        simpa using hne
      refine ⟨r, hr, ?_⟩
      by_contra hnot
      rw [Bool.not_eq_true, ← terminalEvent_eq_none] at hnot
      exact hterm hnot
    · intro hbefore
      have hmem : event ∈ (view e.before k).terminalEvents :=
        List.mem_filter.mpr ⟨Table.mem_select.mpr ⟨hbefore, hrun⟩, hterminal⟩
      rw [h.none_before] at hmem
      exact absurd hmem (by simp)
  dead_letter := hdead

end Step

/-! ### Whole histories -/

/-- A claim rejected the stored policy of run `k` and committed. -/
def CommittedRejection (k : Uuid) (e : ServiceEntry) : Prop :=
  PolicyRejected k e.before e.input ∧ ∃ answer, e.output = .ok answer

/-- The books of run `k` are kept until a rejection is committed; after it the run is terminal
without a terminal event. -/
structure Ledger (past : List ServiceEntry) (k : Uuid) (v : RunView) : Prop where
  kept : (∀ e ∈ past, ¬ CommittedRejection k e) → Bookkept past k v
  broken : ∀ e ∈ past, CommittedRejection k e → v.terminalEvents = []
    ∧ ∃ r, v.run = some r ∧ isTerminalExecutionStatus r.executionStatus = true

section Ledger

variable [Externals] {past : List ServiceEntry} {s : Store} {i : Input} {k : Uuid}

/-- A step that moves the run, and is no rejection, records its own terminal event. -/
theorem justRecorded_of_step {answer : Answer} {v1 v2 : RunView}
    (h : Bookkept past k (view s k)) (hbefore : Noted (view s k) v1)
    (hstep : RunStep s i answer v1 v2) (hafter : Noted v2 (view (service.step s i).2 k))
    (hreject : ¬ PolicyRejected k s i) : JustRecorded (service.entry s i) k := by
  have hopen : ∀ r, s.runs.get? k = some r →
      isTerminalExecutionStatus r.executionStatus = false := by
    intro r hr
    obtain ⟨x, hx⟩ := hbefore.run_eq hr
    have hnot := hstep.not_terminal hx
    exact hnot
  have hnone : (view s k).terminalEvents = [] := h.terminalEvents_eq_nil hopen
  refine ⟨hopen, hnone, ?_⟩
  show (view (service.step s i).2 k).terminalEvents.map RunEvent.eventType = _
  rw [hafter.terminalEvents_eq]
  show _ = (((view (service.step s i).2 k).run.map Run.executionStatus).bind terminalEvent).toList
  rw [hafter.status_map_eq]
  cases hrun : s.runs.get? k with
  | none =>
    obtain ⟨r', event, o, hr', hqueued, hevents, htype, -⟩ :=
      hstep.born (hbefore.run_none hrun)
    have hnot : isTerminalEvent event.eventType = false := by
      rcases htype with h | h <;> rw [h] <;> rfl
    rw [RunView.terminalEvents_append hevents, hbefore.terminalEvents_eq, hnone, hr']
    simp [hnot, hqueued, terminalEvent]
  | some r =>
    obtain ⟨x, hx⟩ := hbefore.run_eq hrun
    obtain ⟨r', m, hm⟩ := hstep.moved hx
    obtain ⟨new, hnew, htypes⟩ := hm.events
    have hne : m ≠ .reject := by
      rintro rfl
      obtain ⟨svc, workerId, message, hop, hquota, hpolicy⟩ := hm.rejection rfl
      have hid : r.id = k := (Table.mem_of_get? hrun).2
      refine hreject ⟨svc, workerId, r, message, hid ▸ hop, hrun, hm.source, hquota, ?_⟩
      rw [hbefore.attempts_eq] at hpolicy
      exact hpolicy
    rw [RunView.terminalEvents_append hnew, hbefore.terminalEvents_eq, hnone, List.nil_append,
      hm.run', Option.map_some, Option.bind_some, hm.target, ← Move.terminal_events hne, ← htypes,
      List.filter_map]
    rfl

/-- One step keeps the ledger of every run. -/
theorem ledger_step (hreach : service.Reachable s) (h : Ledger past k (view s k)) :
    Ledger (past ++ [service.entry s i]) k (view (service.step s i).2 k) := by
  have hpast : ∀ e ∈ past, e ∈ past ++ [service.entry s i] := fun e he =>
    List.mem_append_left _ he
  rcases service_step_effects s i with ⟨answer, hout, heffects⟩ | ⟨e, hout, hsame⟩
  · refine ⟨?_, ?_⟩
    · intro hclean
      have hkept := h.kept fun e he => hclean e (hpast e he)
      have hreject : ¬ PolicyRejected k s i := fun hrejected =>
        hclean (service.entry s i) (by simp) ⟨hrejected, answer, hout⟩
      cases heffects k with
      | noted hnoted => exact hkept.noted hnoted hpast
      | stepped hbefore hstep hafter =>
        exact (justRecorded_of_step hkept hbefore hstep hafter hreject).bookkept (by simp)
          (reachable_deadLetters (hreach.step i) k)
    · intro e he hrejection
      rcases List.mem_append.mp he with hold | hnew
      · obtain ⟨hnone, r, hr, hterminal⟩ := h.broken e hold hrejection
        have hnoted := (heffects k).noted_of_terminal hr hterminal
        obtain ⟨x, hx⟩ := hnoted.run_eq hr
        exact ⟨hnoted.terminalEvents_eq.trans hnone, _, hx, hterminal⟩
      · rw [List.mem_singleton.mp hnew] at hrejection
        have hrejected : PolicyRejected k s i := hrejection.1
        obtain ⟨⟨r, hr, hqueued⟩, hnoted⟩ := hrejected.noted hout
        have hopen : ∀ r, (view s k).run = some r →
            isTerminalExecutionStatus r.executionStatus = false := by
          intro r' hr'
          cases hr.symm.trans hr'
          rw [hqueued]
          rfl
        have hclean : ∀ e ∈ past, ¬ CommittedRejection k e := by
          intro e he hbroken
          obtain ⟨-, r', hr', hterminal⟩ := h.broken e he hbroken
          rw [hopen r' hr'] at hterminal
          exact absurd hterminal (by simp)
        obtain ⟨x, hx⟩ := hnoted.run_eq (r := assignAll RunSet.assign (rejectSets i.call.now) r)
          (by simp [hr])
        refine ⟨hnoted.terminalEvents_eq.trans ((h.kept hclean).terminalEvents_eq_nil hopen), _, hx,
          ?_⟩
        simp only [assign_rejectSets]
        rfl
  · have herror : ¬ CommittedRejection k (service.entry s i) := by
      rintro ⟨-, answer, hanswer⟩
      have hok : (service.step s i).1 = .ok answer := hanswer
      rw [hout] at hok
      exact absurd hok (by simp)
    rw [hsame]
    refine ⟨fun hclean => (h.kept fun e he => hclean e (hpast e he)).noted .refl hpast, ?_⟩
    intro e he hrejection
    rcases List.mem_append.mp he with hold | hnew
    · exact h.broken e hold hrejection
    · rw [List.mem_singleton.mp hnew] at hrejection
      exact absurd hrejection herror

theorem history_ledger (inputs : List Input) (k : Uuid) :
    Ledger (service.history inputs) k (view (service.after inputs) k) := by
  refine (service.history_induction (fun past s => service.Reachable s
    ∧ ∀ k, Ledger past k (view s k)) ?_ ?_ inputs).2 k
  · refine ⟨service.reachable_init, fun k => ⟨fun _ => ⟨rfl, ?_, rfl⟩, ?_⟩⟩
    · intro event hevent
      exact absurd hevent (by simp [RunView.terminalEvents, view, service, Store.empty])
    · intro e he
      exact absurd he (by simp)
  · rintro past s i ⟨hreach, ih⟩
    exact ⟨hreach.step i, fun k => ledger_step hreach (ih k)⟩

end Ledger

/-- **Terminal bookkeeping.** After any sequence of operations, a run whose stored policy no claim
rejected is bookkept, and a run whose policy a claim rejected and committed is not: it is terminal
without a terminal event. -/
theorem terminal_bookkeeping [Externals] (inputs : List Input) (k : Uuid) :
    ((∀ e ∈ service.history inputs, ¬ PolicyRejected k e.before e.input) →
        Bookkept (service.history inputs) k (view (service.after inputs) k))
      ∧ ∀ e ∈ service.history inputs, PolicyRejected k e.before e.input →
        (∃ answer, e.output = .ok answer) →
          ¬ Bookkept (service.history inputs) k (view (service.after inputs) k) := by
  have hledger := history_ledger inputs k
  refine ⟨fun hclean => hledger.kept fun e he hrejection => hclean e he hrejection.1, ?_⟩
  intro e he hrejected hcommitted hkept
  obtain ⟨hnone, r, hr, hterminal⟩ := hledger.broken e he ⟨hrejected, hcommitted⟩
  have hmatching := hkept.matching
  rw [hnone, hr] at hmatching
  have hopen : terminalEvent r.executionStatus = none := by
    simpa using hmatching.symm
  rw [terminalEvent_eq_none, hterminal] at hopen
  exact absurd hopen (by simp)

/-- The books of a run that was retried once and succeeded. -/
theorem terminal_bookkeeping_sample :
    Bookkept (sampleService.history sampleRetriedRun) (sampleUuid 1)
      (view (sampleService.after sampleRetriedRun) (sampleUuid 1)) := by
  refine (@terminal_bookkeeping sampleExternals sampleRetriedRun (sampleUuid 1)).1 ?_
  decide +kernel

/-- A claim finds a stored policy without attempts: the run is `FAILED` and its history has no
terminal event. -/
theorem rejected_policy_without_event :
    let s := sampleService.after [sampleSubmit 0 1 [("max_attempts", .int 0)], sampleClaim 1 2 1]
    (s.runs.get? (sampleUuid 1)).map (fun r => (r.executionStatus, r.errorCode))
        = some (.failed, some "INVALID_STORED_POLICY")
      ∧ (view s (sampleUuid 1)).events.map RunEvent.eventType
          = [.runQueued]
      ∧ (view s (sampleUuid 1)).terminalEvents.length = 0 := by
  decide +kernel

end AgentRuntime.Lifecycle
