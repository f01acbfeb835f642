import AgentRuntime.Lifecycle.Coupling
import AgentRuntime.Lifecycle.PolicyRange

/-!
# What the evaluations say of their jobs

The record of an evaluation job is PENDING while the job is open and shows its verdict once it has
ended; the error branch of `_finalize_evaluation_job` is dead; and no run of another kind ever
changes an evaluation.

* `RecordAgrees`: everything a record says of its job;
* `finalizes_not_missing`: the operations that end runs never miss a record;
* `evaluations_follow_jobs`: the whole statement, for every reachable store and every operation.
-/

namespace AgentRuntime.Lifecycle

open Lib Table Domain Database Application Messaging Execution
open Tx hiding exec bind

variable {busy : Lock → Bool} {s s' : Store}

/-! ### The record is never missing -/

/-- The exception of `_finalize_evaluation_job`. -/
def missingRecord : PyError := .runtimeError "Evaluation job has no lifecycle record"

/-- Jobs have their records, and a run of this id and kind is stored. -/
structure JobStored (s : Store) (id : Uuid) (kind : WorkKind) : Prop where
  jobs : JobsRecorded none s
  row : ∃ r ∈ s.runs.rows, r.id = id ∧ r.workKind = kind

section Raises

variable {c : Call} {run : Run} {id : Uuid} {kind : WorkKind}

variable {w : Write}

theorem JobStored.write (h : JobStored s id kind) (hw : NoJob w)
    (happly : Writes.apply w s = .ok s') : JobStored s' id kind := by
  obtain ⟨r, hr, hid, hkind⟩ := h.row
  obtain ⟨r', hr', hid', hkind'⟩ := run_kept happly hr
  exact ⟨h.jobs.write hw happly, r', hr', hid'.trans hid, hkind'.trans hkind⟩

theorem raises_exec_not_missing : Raises busy (exec w) s (· ≠ missingRecord) := by
  refine (raises_exec w).mpr fun e h => ?_
  rcases apply_error h with rfl | rfl
  · exact nofun
  · exact nofun

/-- A write that inserts no job, followed by what relies on the records. -/
theorem exec_not_missing {Q : Unit → Store → Prop} (h : JobStored s id kind)
    (hnext : ∀ s', JobStored s' id kind → Q () s') (hw : NoJob w := by rintro _ ⟨⟩) :
    Raises busy (exec w) s (· ≠ missingRecord) ∧ Ensures busy (exec w) s Q :=
  ⟨raises_exec_not_missing, (ensures_exec w).mpr fun s' happly => hnext s' (h.write hw happly)⟩

theorem finalizeEvaluationJob_not_missing (h : JobStored s run.id run.workKind) :
    Raises busy (finalizeEvaluationJob c run) s (· ≠ missingRecord) := by
  unfold finalizeEvaluationJob
  split
  · exact raises_done ()
  · rename_i hkind
    obtain ⟨r, hr, hid, hkind'⟩ := h.row
    obtain ⟨e, he, hjob⟩ := h.jobs.record r hr (hkind'.trans (not_not.mp hkind)) (by simp)
    obtain ⟨evaluation, hevaluation⟩ : ∃ evaluation, s.evaluationOfJob run.id = some evaluation := by
      rw [← Option.isSome_iff_exists]
      exact List.find?_isSome.mpr ⟨e, he, by simp [hjob, hid]⟩
    simp only [bind_eq, raises_bind, raises_read, ensures_read, hevaluation,
      raises_acquire, ensures_acquire, true_and]
    refine ⟨raises_exec_not_missing, (ensures_exec _).mpr fun s1 _ => ?_⟩
    refine ⟨raises_of_run_ok (run_lockedRun _), ?_⟩
    simp only [ensures_lockedRun]
    split
    · refine (raises_bind _ _).mpr ⟨raises_exec_not_missing, ?_⟩
      exact (ensures_exec _).mpr fun _ _ => raises_exec_not_missing
    · exact raises_exec_not_missing

/-- The row the service finishes has been assigned to, and keeps its id and kind. -/
theorem finalize_not_missing (sets : List RunSet) (h : JobStored s run.id run.workKind) :
    Raises busy (finalizeEvaluationJob c (assignAll RunSet.assign sets run)) s
      (· ≠ missingRecord) := by
  have hid : (assignAll RunSet.assign sets run).id = run.id :=
    congrArg Prod.fst (assignAll_keeps RunSet.ident_assign sets run)
  refine finalizeEvaluationJob_not_missing ?_
  rw [assignAll_keeps workKind_assign sets run, hid]
  exact h

/-- The exceptions of reading a policy are others. -/
theorem fromSnapshot_not_missing {value : JsonObject} {e : PyError}
    (h : RetryPolicy.fromSnapshot value = .error e) : e ≠ missingRecord := by
  rcases RetryPolicy.fromSnapshot_cases value with
    ⟨policy, hread, -⟩ | ⟨message, hread, -⟩ | ⟨message, hread, -⟩
  · rw [hread] at h
    exact absurd h (by simp)
  · rw [hread] at h
    cases h
    exact nofun
  · rw [hread] at h
    cases h
    exact nofun

theorem addSeconds_not_missing {t : Timestamp} {seconds : ℚ} {e : PyError}
    (h : t.addSeconds seconds = .error e) : e ≠ missingRecord := by
  obtain ⟨message, rfl⟩ := Timestamp.addSeconds_error h
  exact nofun

theorem delay_not_missing {policy : RetryPolicy} {n : ℕ} {e : PyError}
    (h : policy.delayAfterAttempt n = .error e) : e ≠ missingRecord := by
  unfold RetryPolicy.delayAfterAttempt at h
  split at h
  · cases h
    exact nofun
  · exact absurd h (by simp)

theorem scheduleRetryOrFinalize_not_missing {a : RunAttempt} {code : String} {recovery : Bool}
    (h : JobStored s run.id run.workKind) :
    Raises busy (scheduleRetryOrFinalize c run a code recovery) s (· ≠ missingRecord) := by
  simp only [scheduleRetryOrFinalize, bind_eq, raises_bind, raises_ofExcept, ensures_ofExcept]
  refine ⟨fun _ => fromSnapshot_not_missing, fun policy _ => ?_⟩
  split
  · simp only [raises_bind, raises_ofExcept, ensures_ofExcept]
    refine ⟨fun _ => delay_not_missing, fun delay _ => ⟨fun _ => addSeconds_not_missing,
      fun t _ => ?_⟩⟩
    refine exec_not_missing h fun s1 h1 => ?_
    exact exec_not_missing h1 fun s2 _ => raises_exec_not_missing
  · refine (raises_bind _ _).mpr
      (exec_not_missing h fun s1 h1 => ?_)
    split
    · refine (raises_bind _ _).mpr
        (exec_not_missing h1 fun s2 h2 => ?_)
      refine (raises_bind _ _).mpr
        (exec_not_missing h2 fun s3 h3 => ?_)
      exact (raises_bind _ _).mpr
        (exec_not_missing h3 fun s4 h4 => finalize_not_missing _ h4)
    · refine (raises_bind _ _).mpr
        (exec_not_missing h1 fun s2 h2 => ?_)
      exact (raises_bind _ _).mpr
        (exec_not_missing h2 fun s3 h3 => finalize_not_missing _ h3)

variable {workerId : String}

theorem claim_not_missing {svc : ExecutionService} {runId : Uuid} (hjobs : JobsRecorded none s) :
    Raises busy (claim svc c runId workerId) s (· ≠ missingRecord) := by
  cases hrun : s.runs.get? runId with
  | none =>
    simp only [claim, bind_eq, raises_bind, raises_read, ensures_read, hrun, true_and]
    exact raises_done _
  | some run =>
    obtain ⟨hmem, hid⟩ := mem_of_get? hrun
    have hid : run.id = runId := hid
    subst hid
    have hstored : JobStored s run.id run.workKind := ⟨hjobs, run, hmem, rfl, rfl⟩
    by_cases hqueued : run.executionStatus = .queued
    · unfold Raises
      rw [run_claim_queued hrun hqueued]
      by_cases hquota : runningQuotaFull svc.quotas s run
      · rw [run_claimQueued_full hquota]
        have hdefer : Raises busy (deferRun c run) s (· ≠ missingRecord) := by
          simp only [deferRun, bind_eq, raises_bind, raises_ofExcept, ensures_ofExcept]
          refine ⟨fun _ => addSeconds_not_missing, fun t _ => ?_⟩
          exact exec_not_missing hstored fun _ _ =>
            raises_done _
        exact hdefer
      · rw [run_claimQueued_free hquota]
        have hclaim : Raises busy (claimUnderQuota svc c run workerId) s
            (· ≠ missingRecord) := by
          simp only [claimUnderQuota, bind_eq, raises_bind, ensures_nextAttemptNumber]
          refine ⟨raises_of_run_ok (run_nextAttemptNumber _), ?_⟩
          rcases claimPolicy_cases svc run (nextNumber (s.attemptsOf run.id)) with
            ⟨policy, hpolicy, -⟩ | ⟨message, hpolicy, -⟩ | ⟨message, hpolicy, -⟩
          · simp only [hpolicy, startAttempt, bind_eq, raises_bind, raises_ofExcept,
              ensures_ofExcept]
            refine ⟨fun _ => addSeconds_not_missing, fun t _ => ?_⟩
            refine exec_not_missing hstored fun s1 h1 => ?_
            refine exec_not_missing h1 fun s2 h2 => ?_
            exact exec_not_missing h2 fun _ _ =>
              raises_done _
          · simp only [hpolicy, rejectRun, bind_eq, raises_bind]
            refine exec_not_missing hstored fun s1 h1 => ?_
            exact ⟨finalize_not_missing _ h1, fun _ _ _ => raises_done _⟩
          · simp only [hpolicy]
            exact (raises_raise _).mpr nofun
        exact hclaim
    · simp only [claim, bind_eq, raises_bind, raises_read, ensures_read, hrun,
        ensures_lockIdentity, ensures_lockedRun, claimLocked, ne_eq, hqueued, not_false_eq_true,
        if_true, true_and]
      refine ⟨raises_of_run_ok (run_lockIdentity _ _), raises_of_run_ok (run_lockedRun _), ?_⟩
      split
      · exact raises_done _
      split
      · split <;> exact raises_done _
      · exact raises_done _

variable {runId attemptId : Uuid}

/-- A completion call that finds no attempt of its own raises nothing. -/
theorem raises_activeAttempt {α : Type} {f : Option (Run × RunAttempt) → DbTx α}
    {E : PyError → Prop} {a : α} (hnone : f none = .done a)
    (hsome : ∀ run attempt, ActiveAttempt s c runId attemptId workerId run attempt →
      Raises busy (f (some (run, attempt))) s E) :
    Raises busy ((activeAttempt c runId attemptId workerId).bind f) s E := by
  refine (raises_bind _ _).mpr ⟨?_, ensures_activeAttempt ?_ hsome⟩
  · simp only [activeAttempt, bind_eq, raises_bind, ensures_lockedRun]
    refine ⟨raises_of_run_ok (run_lockedRun _), ?_⟩
    split
    · exact raises_done _
    · split
      · exact raises_done _
      · refine (raises_bind _ _).mpr ⟨raises_of_run_ok (run_lockedAttempt _), ?_⟩
        simp only [ensures_lockedAttempt]
        split
        · exact raises_done _
        · split <;> exact raises_done _
  · rw [hnone]
    exact raises_done _

theorem jobStored_of_active {a : RunAttempt}
    (h : ActiveAttempt s c runId attemptId workerId run a) (hjobs : JobsRecorded none s) :
    JobStored s run.id run.workKind :=
  ⟨hjobs, run, (mem_of_get? h.run_eq).1, rfl, rfl⟩

theorem completeSuccess_not_missing {result : ExecutionResult} (hjobs : JobsRecorded none s) :
    Raises busy (completeSuccess c runId attemptId workerId result) s (· ≠ missingRecord) := by
  refine raises_activeAttempt rfl fun run a hactive => ?_
  have h := jobStored_of_active hactive hjobs
  simp only [bind_eq, raises_bind]
  refine exec_not_missing h fun s1 h1 => ?_
  refine exec_not_missing h1 fun s2 h2 => ?_
  refine exec_not_missing h2 fun s3 h3 => ?_
  exact ⟨finalize_not_missing _ h3, fun _ _ _ => raises_done _⟩

theorem completeFailure_not_missing {workerId code : String} (hjobs : JobsRecorded none s) :
    Raises busy (completeFailure c runId attemptId workerId code) s (· ≠ missingRecord) := by
  refine raises_activeAttempt rfl fun run a hactive => ?_
  simp only [bind_eq, raises_bind]
  exact ⟨scheduleRetryOrFinalize_not_missing (jobStored_of_active hactive hjobs),
    fun _ _ _ => raises_done _⟩

theorem recoverExpiredLeases_not_missing {batchSize : ℕ} (hjobs : JobsRecorded none s) :
    Raises busy (recoverExpiredLeases c batchSize) s (· ≠ missingRecord) := by
  simp only [recoverExpiredLeases, bind_eq, raises_bind]
  refine ⟨raises_of_run_ok run_lockBatch, lockBatch_batch.mono ?_⟩
  rintro runs _ ⟨rfl, hbatch⟩
  refine ⟨?_, fun _ _ _ => raises_done _⟩
  refine Raises.forEach (I := fun s => ∀ r ∈ runs, JobStored s r.id r.workKind) ?_
    fun r hr => ⟨hjobs, r, (mem_of_get? (hbatch.stored r hr)).1, rfl, rfl⟩
  intro r hr s1 h1
  constructor
  · simp only [recoverRun, bind_eq, raises_bind, ensures_latestOpenAttempt]
    refine ⟨raises_of_run_ok (run_latestOpenAttempt _), ?_⟩
    split
    · exact raises_done _
    · exact scheduleRetryOrFinalize_not_missing (h1 r hr)
  · refine (recoverRun_settlesRun c r).preserves
      (P := fun s => ∀ r ∈ runs, JobStored s r.id r.workKind) ?_ s1 h1
    intro w s2 s3 hw happly h2 r' hr'
    exact (h2 r' hr').write (noJob_of_executes hw.executes) happly

end Raises

/-- The operations that finish evaluation jobs. -/
def Finalizes : Op → Prop
  | .claim _ _ _ => True
  | .completeSuccess _ _ _ _ => True
  | .completeFailure _ _ _ _ => True
  | .recoverExpiredLeases _ => True
  | _ => False

/-- **In a reachable store no operation finds a job without its record.** -/
theorem finalizes_not_missing [Externals] (h : service.Reachable s) {i : Input}
    (hop : Finalizes i.op) : (service.step s i).1 ≠ .error missingRecord := by
  have hjobs := reachable_jobsRecorded h
  have hmap {α : Type} {t : DbTx α} {f : α × Store → Answer × Store}
      (ht : Raises i.busy t s (· ≠ missingRecord)) :
      (t.run i.busy s).map f ≠ .error missingRecord := by
    cases hrun : t.run i.busy s with
    | ok p => simp [Except.map]
    | error e => simpa [Except.map] using ht e hrun
  rw [ne_eq, service_step_fst_error]
  unfold Input.run
  split
  case h_5 => exact hmap (claim_not_missing hjobs)
  case h_6 => exact hmap (completeSuccess_not_missing hjobs)
  case h_7 => exact hmap (completeFailure_not_missing hjobs)
  case h_8 => exact hmap (recoverExpiredLeases_not_missing hjobs)
  all_goals
    rename_i hi
    rw [hi] at hop
    exact hop.elim

/-! ### Records and jobs -/

/-- `bool(result.get("passed"))` of the result a run has stored. -/
def passedResult (r : Run) : Bool :=
  (JsonObject.getD (r.resultPayload.getD []) "passed" .null).truthy

/-- What record `e` says of its job. -/
structure RecordAgrees (s : Store) (e : Evaluation) (job : Run) : Prop where
  tenant : ∃ source ∈ s.runs.rows, source.id = e.runId ∧ source.clientId = job.clientId
  pending : e.status = .pending ∧ e.completedAt = none ↔
    isTerminalExecutionStatus job.executionStatus = false
  passed : e.status = .passed ↔ job.executionStatus = .succeeded ∧ passedResult job = true
  failed : e.status = .failed ↔ job.executionStatus = .succeeded ∧ passedResult job = false
  error : e.status = .error ↔ job.executionStatus = .failed ∨ job.executionStatus = .deadLettered
  completedAt : e.completedAt = job.completedAt
  notices : (s.events.rows.filter (isNotice (some job.id))).map (fun n => (n.runId, n.eventType))
    = if isTerminalExecutionStatus job.executionStatus then [(e.runId, .evaluation e.status)] else []

/-- Evaluation jobs and evaluations correspond one to one, and agree. -/
structure EvaluationsAgree (s : Store) : Prop where
  job : ∀ e ∈ s.evaluations.rows,
    ∃! job, job ∈ s.runs.rows ∧ job.workKind = .evaluation ∧ e.jobRunId = some job.id
  record : ∀ job ∈ s.runs.rows, job.workKind = .evaluation →
    ∃! e, e ∈ s.evaluations.rows ∧ e.jobRunId = some job.id
  agrees : ∀ e ∈ s.evaluations.rows, ∀ job ∈ s.runs.rows, e.jobRunId = some job.id →
    RecordAgrees s e job

/-- Whatever changes an evaluation is the end of its own job. -/
def OnlyOwnJob (s s' : Store) : Prop :=
  ∀ e ∈ s.evaluations.rows, ∃ e' ∈ s'.evaluations.rows, e'.id = e.id ∧
    (e' = e ∨ ∃ job job', e.jobRunId = some job.id ∧ job.workKind = .evaluation
      ∧ s.runs.get? job.id = some job ∧ isTerminalExecutionStatus job.executionStatus = false
      ∧ s'.runs.get? job.id = some job' ∧ isTerminalExecutionStatus job'.executionStatus = true)

section Agreement

variable {e : Evaluation} {job : Run}

theorem finalVerdict_eq_none {r : Run} :
    finalVerdict r = none ↔ isTerminalExecutionStatus r.executionStatus = false := by
  unfold finalVerdict
  split <;> simp_all

theorem mem_records {k : Option Uuid} :
    e ∈ (jobView s k).records ↔ e ∈ s.evaluations.rows ∧ e.jobRunId = k := by
  rw [jobView, mem_select, beq_iff_eq]

/-- The job of an evaluation is stored, and is an evaluation job. -/
theorem Coupled.storedJob (hs : Coupled s) (he : e ∈ s.evaluations.rows) :
    ∃ job ∈ s.runs.rows, job.workKind = .evaluation ∧ e.jobRunId = some job.id := by
  have hmem : e ∈ (jobView s e.jobRunId).records := mem_records.mpr ⟨he, rfl⟩
  rcases hs e.jobRunId with ⟨j, e', hjob, hkind, -⟩ | ⟨-, hempty, -⟩
  · obtain ⟨id, hid, hsummary⟩ := Option.bind_eq_some_iff.mp hjob
    obtain ⟨job, hget, rfl⟩ := Option.map_eq_some_iff.mp hsummary
    obtain ⟨hrow, hrowid⟩ := mem_of_get? hget
    exact ⟨job, hrow, hkind, hid.trans (congrArg some hrowid.symm)⟩
  · rw [hempty] at hmem
    exact absurd hmem (by simp)

theorem jobView_job (hjob : job ∈ s.runs.rows) :
    (jobView s (some job.id)).job = some (summary job) := by
  have hget : s.runs.get? job.id = some job := get?_eq_some_iff.mpr ⟨hjob, rfl⟩
  simp [jobView, hget]

/-- The record of a job, with all that it shows. -/
theorem Coupled.recorded (hs : Coupled s) (hjob : job ∈ s.runs.rows)
    (hkind : job.workKind = .evaluation) :
    ∃ e, Recorded (tenantOf s) (some job.id) (jobView s (some job.id)) (summary job) e :=
  (hs (some job.id)).recorded (jobView_job hjob) hkind

theorem Coupled.record_unique (hs : Coupled s) (hjob : job ∈ s.runs.rows)
    (hkind : job.workKind = .evaluation) :
    ∃! e, e ∈ s.evaluations.rows ∧ e.jobRunId = some job.id := by
  obtain ⟨e, hrecorded⟩ := hs.recorded hjob hkind
  have honly : ∀ x, x ∈ s.evaluations.rows ∧ x.jobRunId = some job.id ↔ x = e := by
    intro x
    rw [← mem_records, hrecorded.only, List.mem_singleton]
  exact ⟨e, (honly e).mpr rfl, fun x hx => (honly x).mp hx⟩

theorem Coupled.job_unique (hs : Coupled s) (he : e ∈ s.evaluations.rows) :
    ∃! job, job ∈ s.runs.rows ∧ job.workKind = .evaluation ∧ e.jobRunId = some job.id := by
  obtain ⟨job, hjob, hkind, hid⟩ := hs.storedJob he
  refine ⟨job, ⟨hjob, hkind, hid⟩, ?_⟩
  rintro x ⟨hx, -, hxid⟩
  exact eq_of_id_eq hx hjob (Option.some.inj (hxid.symm.trans hid))

/-- The status of a record by the status of its job. -/
theorem record_status_iff {status : EvaluationStatus} (x : EvaluationStatus)
    (h : status = (finalVerdict job).getD .pending) :
    status = x ↔ finalVerdict job = some x ∨ finalVerdict job = none ∧ x = .pending := by
  rw [h]
  cases finalVerdict job with
  | none => simp [eq_comm]
  | some verdict => simp

theorem finalVerdict_eq_some {x : EvaluationStatus} :
    finalVerdict job = some x ↔
      job.executionStatus = .succeeded ∧ (if passedResult job then .passed else .failed) = x
        ∨ (job.executionStatus = .failed ∨ job.executionStatus = .deadLettered) ∧ .error = x := by
  have hsucceeded (h : job.executionStatus = .succeeded) :
      jobVerdict job = if passedResult job then .passed else .failed := if_pos h
  have hfailed (h : job.executionStatus ≠ .succeeded) : jobVerdict job = .error := if_neg h
  unfold finalVerdict
  cases hstatus : job.executionStatus with
  | succeeded => simp [isTerminal_iff, hsucceeded hstatus]
  | failed => simp [isTerminal_iff, hfailed (by simp [hstatus])]
  | deadLettered => simp [isTerminal_iff, hfailed (by simp [hstatus])]
  | _ => simp [isTerminal_iff]

/-- **A record agrees with its job.** -/
theorem Coupled.agrees (hs : Coupled s) (hrow : CoherentRow job) (he : e ∈ s.evaluations.rows)
    (hjob : job ∈ s.runs.rows) (hid : e.jobRunId = some job.id) : RecordAgrees s e job := by
  have hkind : job.workKind = .evaluation := by
    obtain ⟨job', hjob', hkind, hid'⟩ := hs.storedJob he
    rw [eq_of_id_eq hjob hjob' (Option.some.inj (hid.symm.trans hid'))]
    exact hkind
  obtain ⟨e', hrecorded⟩ := hs.recorded hjob hkind
  have heq : e = e' := by
    have hmem := mem_records.mpr ⟨he, hid⟩
    rw [hrecorded.only] at hmem
    exact List.mem_singleton.mp hmem
  subst heq
  have hstatus : e.status = (finalVerdict job).getD .pending := hrecorded.status
  have hcompleted : e.completedAt = job.completedAt := hrecorded.completedAt
  refine ⟨?_, ?_, ?_, ?_, ?_, hcompleted, ?_⟩
  · obtain ⟨client, hsource, hown⟩ := hrecorded.tenant
    obtain ⟨source, hget, hclient⟩ := Option.map_eq_some_iff.mp hsource
    obtain ⟨hmem, hsourceId⟩ := mem_of_get? hget
    refine ⟨source, hmem, hsourceId, hclient.trans ?_⟩
    have hget' : s.runs.get? job.id = some job := get?_eq_some_iff.mpr ⟨hjob, rfl⟩
    simpa [tenantOf, hget'] using hown.symm
  · constructor
    · rintro ⟨hpending, -⟩
      rw [record_status_iff _ hstatus] at hpending
      rcases hpending with hverdict | ⟨hnone, -⟩
      · rw [finalVerdict_eq_some] at hverdict
        cases hpassed : passedResult job <;> simp [hpassed] at hverdict
      · exact finalVerdict_eq_none.mp hnone
    · intro hopen
      rw [hstatus, finalVerdict_eq_none.mpr hopen, hcompleted]
      refine ⟨rfl, ?_⟩
      rw [← Option.not_isSome_iff_eq_none, hrow.completed, hopen]
      exact Bool.false_ne_true
  · rw [record_status_iff _ hstatus, finalVerdict_eq_some]
    cases passedResult job <;> simp
  · rw [record_status_iff _ hstatus, finalVerdict_eq_some]
    cases passedResult job <;> simp
  · rw [record_status_iff _ hstatus, finalVerdict_eq_some]
    cases passedResult job <;> simp
  · have hnotices : (s.events.rows.filter (isNotice (some job.id))).map
        (fun n => (n.runId, n.eventType))
        = (finalVerdict job).toList.map fun verdict => (e.runId, .evaluation verdict) :=
      hrecorded.notices
    rw [hnotices, hstatus]
    unfold finalVerdict
    split <;> rfl

/-- A step of the job with the views `v` and `v'` keeps its records, or ends the job. -/
theorem JobEffect.records {tenant : Uuid → Option String} {k : Option Uuid} {v v' : JobView}
    (h : JobEffect tenant k v v') {e : Evaluation} (he : e ∈ v.records) :
    ∃ e' ∈ v'.records, e'.id = e.id ∧ (e' = e ∨ ∃ c t verdict,
      v.job = some ⟨.evaluation, c, none⟩ ∧ v'.job = some ⟨.evaluation, some t, some verdict⟩) := by
  rcases h with rfl | hstep
  · exact ⟨e, he, rfl, .inl rfl⟩
  · cases hstep with
    | accepted hnew hkind => exact ⟨e, he, rfl, .inl rfl⟩
    | opened hnew hstatus hcompleted hsource hjob =>
      exact ⟨e, List.mem_append_left _ he, rfl, .inl rfl⟩
    | ended hopen hkind => exact ⟨e, he, rfl, .inl rfl⟩
    | concluded hopen hrecord hid hrun hstatus hcompleted hnotice htype =>
      rw [hrecord, List.mem_singleton] at he
      subst he
      exact ⟨_, List.mem_singleton_self _, hid, .inr ⟨_, _, _, hopen, rfl⟩⟩

end Agreement

section Reachable

variable [Externals]

theorem reachable_evaluationsAgree (h : service.Reachable s) : EvaluationsAgree s := by
  have hs := reachable_coupled h
  refine ⟨fun e he => hs.job_unique he, fun job hjob hkind => hs.record_unique hjob hkind, ?_⟩
  intro e he job hjob hid
  have hget : s.runs.get? job.id = some job := get?_eq_some_iff.mpr ⟨hjob, rfl⟩
  exact hs.agrees (reachable_coherent h hget).toCoherentRow he hjob hid

theorem step_onlyOwnJob (h : service.Reachable s) (i : Input) :
    OnlyOwnJob s (service.step s i).2 := by
  rcases service_step_cases s i with ⟨answer, s', hrun, hstep⟩ | ⟨x, -, hstep⟩
  · rw [hstep]
    intro e he
    have heffect := run_jobEffects (reachable_coupled h) hrun e.jobRunId
    obtain ⟨e', he', hid, hchange⟩ := heffect.records (mem_records.mpr ⟨he, rfl⟩)
    refine ⟨e', (mem_records.mp he').1, hid, hchange.imp_right ?_⟩
    rintro ⟨c, t, verdict, hopen, hended⟩
    obtain ⟨id, hid', hsummary⟩ := Option.bind_eq_some_iff.mp hopen
    rw [hid'] at hended
    obtain ⟨job, hget, hjob⟩ := Option.map_eq_some_iff.mp hsummary
    obtain ⟨job', hget', hjob'⟩ := Option.map_eq_some_iff.mp hended
    have hjobid : job.id = id := (mem_of_get? hget).2
    subst hjobid
    refine ⟨job, job', hid', congrArg JobSummary.kind hjob, hget, ?_, hget', ?_⟩
    · exact finalVerdict_eq_none.mp (congrArg JobSummary.verdict hjob)
    · rw [← Bool.not_eq_false, ← finalVerdict_eq_none]
      have hverdict : finalVerdict job' = some verdict := congrArg JobSummary.verdict hjob'
      simp [hverdict]
  · rw [hstep]
    exact fun e he => ⟨e, he, rfl, .inl rfl⟩

/-- **Evaluations follow their jobs.** In every reachable store evaluation jobs and evaluations
correspond one to one, with the same tenant; the record shows where the job stands and when it
ended, and one notice on the source tells its verdict; no operation misses a record; and an
evaluation changes only when its own job ends. -/
theorem evaluations_follow_jobs {s : Store} (h : service.Reachable s) :
    EvaluationsAgree s ∧ ∀ i : Input,
      (Finalizes i.op → (service.step s i).1 ≠ .error missingRecord)
        ∧ OnlyOwnJob s (service.step s i).2 :=
  ⟨reachable_evaluationsAgree h, fun i => ⟨finalizes_not_missing h, step_onlyOwnJob h i⟩⟩

end Reachable

/-- Evaluate a run of the sample deployment; the job is `sampleUuid n`. -/
def sampleEvaluate (seconds n run : ℕ) : Input :=
  sampleInput seconds n (.evaluate sampleRunService "tenant" (sampleUuid run) [] none)

/-- A run succeeds, and an evaluation job passes it. -/
def sampleEvaluatedRun : List Input :=
  [sampleSubmit 0 1 [], sampleClaim 1 2 1, sampleSucceed 2 3 1 2, sampleEvaluate 3 4 1,
    sampleClaim 4 5 4, sampleInput 5 6 (.completeSuccess (sampleUuid 4) (sampleUuid 5) "worker"
      ⟨"deterministic", [("passed", .bool true)], none⟩)]

/-- The evaluation of the sample run and the next claim. -/
theorem evaluations_follow_jobs_sample :
    let s := sampleService.after sampleEvaluatedRun
    s.evaluations.rows.map Evaluation.status = [.passed]
      ∧ EvaluationsAgree s
      ∧ (sampleService.step s (sampleClaim 6 7 4)).1 ≠ .error missingRecord
      ∧ OnlyOwnJob s (sampleService.step s (sampleClaim 6 7 4)).2 := by
  have hfollow := @evaluations_follow_jobs sampleExternals _ ⟨sampleEvaluatedRun, rfl⟩
  exact ⟨by decide +kernel, hfollow.1, (hfollow.2 (sampleClaim 6 7 4)).1 trivial,
    (hfollow.2 (sampleClaim 6 7 4)).2⟩

end AgentRuntime.Lifecycle
