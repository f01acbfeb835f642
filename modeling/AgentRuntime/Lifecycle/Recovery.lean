import AgentRuntime.Lifecycle.Coherence

/-!
# Expired leases and due retries

The two schedulers select runs by a column: recovery those whose lease has expired, scheduling
those whose time has come. Each handles its batch in one transaction, and a call that commits has
moved every run it selected.

* `expiredBatch`, `dueBatch`, `mem_batch`: what a call selects;
* `recoverExpiredLeases_leaves`, `scheduleDueRetries_queues`: what a call that commits has done.
-/

namespace AgentRuntime.Lifecycle

open Lib Tx Domain Database Application

/-! ### Statuses along a transaction -/

section Statuses

variable {P : Option ExecutionStatus → Prop} {s s1 : Store} {k : Uuid}

/-- The status of run `k`, if there is one, satisfies `P`. -/
def StatusIs (P : Option ExecutionStatus → Prop) (k : Uuid) (s : Store) : Prop :=
  P ((view s k).run.map Run.executionStatus)

theorem statusIs_of_update {r : Run} {sets : List RunSet}
    (h : Writes.apply (Write.updateRun r.id sets) s = .ok s1) (hget : s.runs.get? r.id = some r)
    (hstatus : P (some (assignAll RunSet.assign sets r).executionStatus)) :
    StatusIs P r.id s1 := by
  unfold StatusIs
  rw [view_apply h r.id]
  simpa [onView, hget] using hstatus

theorem StatusIs.noted (h : StatusIs P k s) (hnoted : Noted (view s k) (view s1 k)) :
    StatusIs P k s1 := by
  unfold StatusIs
  rw [hnoted.status_map_eq]
  exact h

/-- A write that leaves the runs leaves their statuses. -/
theorem StatusIs.write {w : Write} (h : StatusIs P k s) (happly : Writes.apply w s = .ok s1)
    (hw : (onView k w (view s k)).run = (view s k).run) : StatusIs P k s1 := by
  unfold StatusIs
  rw [view_apply happly, hw]
  exact h

end Statuses

/-! ### Selection -/

section Selection

variable {s : Store} {i : Input} {r : Run} {clause : Run → Bool} {column : Run → Option Timestamp}
  {batchSize : ℕ} {busy : Lock → Bool}

/-- A run that satisfies the clause is selected if it is not locked and the batch has room. -/
theorem mem_batch (hget : s.runs.get? r.id = some r) (hclause : clause r = true)
    (hfree : busy (.run r.id) = false) (hroom : (s.runs.select clause).length ≤ batchSize) :
    r ∈ (batchLocks clause column batchSize s busy).filterMap s.lockedRow := by
  refine List.mem_filterMap.mpr ⟨.run r.id, ?_, hget⟩
  unfold batchLocks
  rw [List.take_of_length_le]
  · refine List.mem_filter.mpr ⟨List.mem_map.mpr ⟨r, ?_, rfl⟩, by simp [hfree]⟩
    rw [List.mem_insertionSort]
    exact Table.mem_select.mpr ⟨(Table.mem_of_get? hget).1, hclause⟩
  · calc _ ≤ _ := List.length_filter_le ..
      _ = (s.runs.select clause).length := by rw [List.length_map, List.length_insertionSort]
      _ ≤ batchSize := hroom

/-- The runs a recovery call selects. -/
def expiredBatch (i : Input) (batchSize : ℕ) (s : Store) : List Run :=
  (batchLocks (leaseExpired i.call.now) Run.executionLeaseExpiresAt batchSize s i.busy).filterMap
    s.lockedRow

theorem expiredBatch_batch (i : Input) (batchSize : ℕ) (s : Store) :
    Batch s (leaseExpired i.call.now) (expiredBatch i batchSize s) :=
  (lockBatch_batch _ _ run_lockBatch).2

/-- The runs a scheduling call selects. -/
def dueBatch (i : Input) (batchSize : ℕ) (s : Store) : List Run :=
  (batchLocks (retryDue i.call.now) Run.nextAttemptAt batchSize s i.busy).filterMap s.lockedRow

theorem dueBatch_batch (i : Input) (batchSize : ℕ) (s : Store) :
    Batch s (retryDue i.call.now) (dueBatch i batchSize s) :=
  (lockBatch_batch _ _ run_lockBatch).2

variable [Externals]

/-- What a program ensures holds after the call that runs it, unless the call raises. -/
theorem step_of_ensures {t : DbTx Unit} {answer : Unit × Store → Answer} {Q : Store → Prop}
    (hrun : i.run s = (t.run i.busy s).map fun p => (answer p, p.2))
    (ht : Ensures i.busy t s fun _ => Q) (hok : (service.step s i).1.isOk = true) :
    Q (service.step s i).2 := by
  cases hall : t.run i.busy s with
  | error e =>
    rw [hall] at hrun
    rw [service_step_error hrun] at hok
    exact absurd hok Bool.false_ne_true
  | ok p =>
    rw [hall] at hrun
    rw [service_step_ok hrun]
    exact ht p.1 p.2 hall

/-- A call whose program commits does not raise. -/
theorem step_of_commits {t : DbTx Unit} {answer : Unit × Store → Answer}
    (hrun : i.run s = (t.run i.busy s).map fun p => (answer p, p.2))
    (ht : Commits i.busy t s fun _ _ => True) : (service.step s i).1.isOk = true := by
  obtain ⟨a, s', hloop, -⟩ := ht
  rw [hloop] at hrun
  rw [service_step_ok hrun]
  rfl

/-- A recovery call is a loop over its batch. -/
theorem run_recover (hop : i.op = .recoverExpiredLeases batchSize) :
    i.run s = ((forEach (expiredBatch i batchSize s) (recoverRun i.call)).run i.busy s).map
      fun p => (.count (expiredBatch i batchSize s).length, p.2) := by
  simp only [Input.run, hop, recoverExpiredLeases, bind_eq, run_bind, run_lockBatch,
    ok_bind, pure_eq, run_done]
  show (((forEach (expiredBatch i batchSize s) (recoverRun i.call)).run i.busy s).bind _).map _
    = _
  cases (forEach (expiredBatch i batchSize s) (recoverRun i.call)).run i.busy s <;> rfl

/-- A scheduling call is a loop over its batch. -/
theorem run_schedule (hop : i.op = .scheduleDueRetries batchSize) :
    i.run s = ((forEach (dueBatch i batchSize s) (requeueRun i.call)).run i.busy s).map
      fun p => (.count (dueBatch i batchSize s).length, p.2) := by
  simp only [Input.run, hop, scheduleDueRetries, bind_eq, run_bind, run_lockBatch,
    ok_bind, pure_eq, run_done]
  show (((forEach (dueBatch i batchSize s) (requeueRun i.call)).run i.busy s).bind _).map _ = _
  cases (forEach (dueBatch i batchSize s) (requeueRun i.call)).run i.busy s <;> rfl

end Selection

/-! ### What a call that commits has done -/

section Processing

variable {s : Store} {i : Input} {r : Run} {busy : Lock → Bool} {c : Call} {batchSize : ℕ}

/-- Settling a failed attempt ends the lease. -/
theorem scheduleRetryOrFinalize_leaves {a : RunAttempt} {code : String} {recovery : Bool}
    {x : EvaluationStatus} (hget : s.runs.get? r.id = some { r with evaluationStatus := x }) :
    Ensures busy (scheduleRetryOrFinalize c r a code recovery) s
      fun _ s' => StatusIs (· ≠ some .running) r.id s' := by
  have hupdate : ∀ {s1 s2 : Store} {finish : List AttemptSet} {sets : List RunSet},
      Writes.apply (Write.updateAttempt a.id finish) s = .ok s1 →
      Writes.apply (Write.updateRun r.id sets) s1 = .ok s2 →
      (assignAll RunSet.assign sets { r with evaluationStatus := x }).executionStatus
        ≠ .running → StatusIs (· ≠ some .running) r.id s2 := by
    intro s1 s2 finish sets h1 h2 hstatus
    obtain ⟨-, rfl⟩ := apply_updateAttempt h1
    exact statusIs_of_update (r := { r with evaluationStatus := x }) h2 hget
      (fun heq => hstatus (Option.some.inj heq))
  simp only [scheduleRetryOrFinalize, bind_eq, ensures_bind, ensures_ofExcept]
  intro policy _
  split
  · simp only [ensures_bind, ensures_ofExcept, ensures_exec]
    intro delay _ t _ s1 h1 s2 h2 s3 h3
    exact (hupdate h1 h2 (by simp)).write h3 (by simp [onView, newEvent])
  · simp only [ensures_bind, ensures_exec]
    intro s1 h1
    split
    · simp only [ensures_bind, ensures_exec]
      intro s2 h2 s3 h3 s4 h4
      have hended := ((hupdate h1 h2 (by simp)).write h3
        (by simp [onView, deadLetterOutbox])).write h4 (by simp [onView, newEvent])
      exact (finalizeEvaluationJob_noted _ _).mono fun _ s5 hnoted => hended.noted (hnoted r.id)
    · simp only [ensures_bind, ensures_exec]
      intro s2 h2 s3 h3
      have hended := (hupdate h1 h2 (by simp)).write h3 (by simp [onView, newEvent])
      exact (finalizeEvaluationJob_noted _ _).mono fun _ s4 hnoted => hended.noted (hnoted r.id)

theorem requeueRun_queues {x : EvaluationStatus}
    (hget : s.runs.get? r.id = some { r with evaluationStatus := x }) :
    Ensures busy (requeueRun c r) s fun _ s' => StatusIs (· = some .queued) r.id s' := by
  simp only [requeueRun, bind_eq, ensures_bind, ensures_exec]
  intro s1 h1 s2 h2 s3 h3
  have hqueued : StatusIs (· = some .queued) r.id s1 :=
    statusIs_of_update (r := { r with evaluationStatus := x }) h1 hget (by simp)
  exact (hqueued.write h2 (by simp [onView, queuedOutbox])).write h3 (by simp [onView, newEvent])

/-- A recovery that finds the open attempt of the run ends the lease. -/
theorem recoverRun_leaves {s1 : Store} {a : RunAttempt} (hget : s.runs.get? r.id = some r)
    (hopen : latestOpen (s.attemptsOf r.id) = some a)
    (hnoted : Noted (view s r.id) (view s1 r.id)) :
    Ensures busy (recoverRun c r) s1 fun _ s2 => StatusIs (· ≠ some .running) r.id s2 := by
  obtain ⟨x, hx⟩ := hnoted.run_eq hget
  have hattempts : s1.attemptsOf r.id = s.attemptsOf r.id := hnoted.attempts_eq
  simp only [recoverRun, bind_eq, ensures_bind, ensures_latestOpenAttempt, hattempts, hopen]
  exact scheduleRetryOrFinalize_leaves hx

/-- The open attempt of a running run is the one the scheduler finds. -/
theorem Coherent.latestOpen_eq {attempts : List RunAttempt} (h : Coherent r attempts)
    (hrunning : r.executionStatus = .running) :
    ∃ a, latestOpen attempts = some a ∧ ∀ b ∈ attempts, b.finishedAt = none ↔ b = a := by
  have hlength : 0 < attempts.length := List.length_pos_iff.mpr (h.attempted hrunning)
  have hlast : attempts.length ∈ attempts.map RunAttempt.attemptNumber := by
    rw [h.numbered, List.mem_range'_1]
    omega
  obtain ⟨a, ha, hnumber⟩ := List.mem_map.mp hlast
  have hopen : a.finishedAt = none := (h.open_iff a ha).mpr ⟨hnumber, hrunning⟩
  cases hlatest : latestOpen attempts with
  | none =>
    have hmem : a ∈ (attempts.filter fun b => b.finishedAt.isNone).insertionSort
        fun b c => c.attemptNumber ≤ b.attemptNumber := by
      rw [List.mem_insertionSort]
      exact List.mem_filter.mpr ⟨ha, by simp [hopen]⟩
    rw [List.head?_eq_none_iff.mp hlatest] at hmem
    exact absurd hmem List.not_mem_nil
  | some b =>
    obtain ⟨hb, hbopen⟩ := latestOpen_eq_some hlatest
    refine ⟨b, rfl, fun d hd => ⟨fun hdopen => h.eq_of_open hd hb hdopen hbopen, ?_⟩⟩
    rintro rfl
    exact hbopen

variable [Externals]

omit [Externals] in
/-- What the body ensures of the status of the run it is given, the loop ensures of all of them. -/
theorem batch_status {f : Run → DbTx Unit} {clause : Run → Bool} {runs : List Run}
    {P : Option ExecutionStatus → Prop} (hbatch : Batch s clause runs)
    (hbody : ∀ x ∈ runs, ∀ s1, Noted (view s x.id) (view s1 x.id) → Ensures i.busy (f x) s1
      fun _ s2 => EffectAt s i (.count 0) x.id s1 s2 ∧ StatusIs P x.id s2) :
    Ensures i.busy (forEach runs f) s fun _ s' => ∀ x ∈ runs, StatusIs P x.id s' := by
  refine (batch_effects (Q := fun _ v => P (v.run.map Run.executionStatus)) ?_ hbatch
    hbody).mono fun _ _ h => h.2
  intro x v v' hnoted hstatus
  rw [hnoted.status_map_eq]
  exact hstatus

/-- **A recovery that commits** has ended the lease of every run it selected. -/
theorem recoverExpiredLeases_leaves (hreach : service.Reachable s)
    (hop : i.op = .recoverExpiredLeases batchSize) (hmem : r ∈ expiredBatch i batchSize s)
    (hok : (service.step s i).1.isOk = true) :
    StatusIs (· ≠ some .running) r.id (service.step s i).2 := by
  have hbatch := expiredBatch_batch i batchSize s
  refine step_of_ensures (run_recover hop) (batch_status hbatch fun x hx s1 hnoted => ?_) hok r hmem
  have hget := hbatch.stored x hx
  have hexpired := hbatch.selected x hx
  obtain ⟨a, hopen, -⟩ :=
    (reachable_coherent hreach hget).latestOpen_eq (leaseExpired_running hexpired)
  exact (recoverRun_effectAt hop hexpired hget hnoted).and (recoverRun_leaves hget hopen hnoted)

/-- **A scheduling call that commits** has queued every run it selected. -/
theorem scheduleDueRetries_queues (hop : i.op = .scheduleDueRetries batchSize)
    (hmem : r ∈ dueBatch i batchSize s) (hok : (service.step s i).1.isOk = true) :
    StatusIs (· = some .queued) r.id (service.step s i).2 := by
  have hbatch := dueBatch_batch i batchSize s
  refine step_of_ensures (run_schedule hop) (batch_status hbatch fun x hx s1 hnoted => ?_) hok r hmem
  obtain ⟨e, hx1⟩ := hnoted.run_eq (hbatch.stored x hx)
  exact (requeueRun_effectAt hop (hbatch.selected x hx) hx1).and (requeueRun_queues hx1)

end Processing

end AgentRuntime.Lifecycle
