import AgentRuntime.Concurrency.Acceptance
import AgentRuntime.Lifecycle.RunStep

/-!
# Workers, schedulers and the dispatcher among others

The claims, completions, recoveries, retries, charges and deliveries obey the discipline. They change a
run only while they hold its row and have read its status under that lock; a claim that starts a run
counts the running ones under the locks of the run's scopes. The loops of the recovery and of the retry
scheduler hold a batch of rows and handle one after the other.

* `Progress`: how far a transaction has come that settles run `k`: what it held it still holds, and the
  statuses of the other runs it holds are as they were;
* `follows_finalizeEvaluationJob`, `follows_scheduleRetryOrFinalize`: the shared parts;
* `claim_follows`, `completeSuccess_follows`, …: the operations.
-/

namespace AgentRuntime.Concurrency

open Lib Table Domain Application Database Lifecycle Messaging Execution
open Tx hiding exec bind

variable {α : Type} {limits : Option QuotaLimits}
  {Q : α → List (Hold Resource) → List Write → Store → Prop} {L L0 : List (Hold Resource)}
  {ws : List Write} {v v' v0 u : Store} {w : Write} {k : Uuid} {g : Unit → DbTx α}

/-! ### Progress -/

/-- The write gives no run but `k` a new status. -/
def OnlyStatusOf (k : Uuid) (w : Write) : Prop :=
  ∀ id sets, w = .updateRun id sets → SetsStatus sets → id = k

variable {id : Uuid} {r : Run}

/-- A run keeps its status under a write that gives it none. -/
theorem apply_keeps_status (hw : OnlyStatusOf k w) (happly : Writes.apply w v = .ok u)
    (hid : id ≠ k) (hr : v.runs.get? id = some r) :
    ∃ r', u.runs.get? id = some r' ∧ r'.executionStatus = r.executionStatus := by
  rcases (apply_change happly).runs with hsame | ⟨q, rfl, hins⟩ | ⟨id', sets, rfl, hruns⟩
  · exact ⟨r, by rw [hsame]; exact hr, rfl⟩
  · have hr' := get?_insert_of_some hins hr
    exact ⟨r, hr', rfl⟩
  · rw [hruns, get?_update]
    split
    · rename_i heq
      refine ⟨_, by rw [hr]; rfl, executionStatus_assignAll (fun hsets => ?_) r⟩
      exact hid (heq.trans (hw id' sets rfl hsets))
    · exact ⟨r, hr, rfl⟩

/-- From holding `L0` and seeing `v0`, on the way to settle run `k`. -/
structure Progress (L0 : List (Hold Resource)) (v0 : Store) (k : Uuid) (L : List (Hold Resource))
    (ws : List Write) (v : Store) : Prop where
  sub : L0 ⊆ L
  set : Settling L ws v
  kept : ∀ {id r}, Locked L0 (.run id) → id ≠ k → v0.runs.get? id = some r →
    ∃ r', v.runs.get? id = some r' ∧ r'.executionStatus = r.executionStatus

namespace Progress

theorem start (h : Settling L ws v) (k : Uuid) : Progress L v k L ws v :=
  ⟨List.Subset.refl L, h, fun _ _ hr => ⟨_, hr, rfl⟩⟩

theorem frame (h : Progress L0 v0 k L ws v) (hframe : Frame L v v') :
    Progress L0 v0 k L ws v' where
  sub := h.sub
  set := h.set.frame hframe
  kept hid hne hr := by
    obtain ⟨r', hr', hstatus⟩ := h.kept hid hne hr
    exact ⟨r', hframe.runs.held (h.sub hid) hr', hstatus⟩

theorem write (h : Progress L0 v0 k L ws v) (happly : Writes.apply w v = .ok u)
    (hheld : ∀ l m, (l, m) ∈ touched w → Locked L l) (hw : OnlyStatusOf k w) :
    Progress L0 v0 k (taken w ++ L) (ws ++ [w]) u where
  sub := List.Subset.trans h.sub (List.subset_append_right _ _)
  set := h.set.write happly hheld
  kept hid hne hr := by
    obtain ⟨r1, hr1, hstatus1⟩ := h.kept hid hne hr
    obtain ⟨r2, hr2, hstatus2⟩ := apply_keeps_status hw happly hne hr1
    exact ⟨r2, hr2, hstatus2.trans hstatus1⟩

/-- Another lock, if the locks stay in order. -/
theorem lock (h : Progress L0 v0 k L ws v) {l : Hold Resource} (hset : Settling (l :: L) ws v) :
    Progress L0 v0 k (l :: L) ws v :=
  ⟨List.Subset.trans h.sub (List.subset_cons_self _ _), hset, h.kept⟩

end Progress

/-- A write that takes only what is held. -/
theorem follows_write (h : Progress L0 v0 k L ws v)
    (hheld : ∀ l m, (l, m) ∈ touched w → Locked L l) (hw : OnlyStatusOf k w)
    (hlegal : ∀ v1, Frame L v v1 → Legal limits (taken w ++ L) v1 w)
    (hnext : ∀ v1 u, Frame L v v1 → Writes.apply w v1 = .ok u →
      Progress L0 v0 k (taken w ++ L) (ws ++ [w]) u →
      Follows limits Q (g ()) (taken w ++ L) (ws ++ [w]) u) :
    Follows limits Q ((exec w).bind g) L ws v := by
  refine obeys_exec.mpr fun v1 h1 => ⟨asks_taken fun l m hl => ?_, fun u happly => ⟨?_, ?_⟩⟩
  · exact .again (hheld l m hl)
  · exact hlegal v1 h1
  · exact hnext v1 u h1 happly ((h.frame h1).write happly hheld hw)

theorem touched_insertEvent (e : RunEvent) :
    touched (.insertEvent e)
      = (.run e.runId, .share) :: e.attemptId.toList.map fun id => (.attempt id, .share) := rfl

theorem onlyStatusOf_insertEvent (k : Uuid) (e : RunEvent) : OnlyStatusOf k (.insertEvent e) :=
  fun _ _ h => absurd h (by simp)

/-- An entry in the history of a run that is held. -/
theorem follows_event {e : RunEvent} (h : Progress L0 v0 k L ws v)
    (hrun : Locked L (.run e.runId)) (hattempt : ∀ id ∈ e.attemptId, Locked L (.attempt id))
    (hnext : ∀ u, Progress L0 v0 k (taken (.insertEvent e) ++ L) (ws ++ [.insertEvent e]) u →
      Follows limits Q (g ()) (taken (.insertEvent e) ++ L) (ws ++ [.insertEvent e]) u) :
    Follows limits Q ((exec (.insertEvent e)).bind g) L ws v := by
  refine follows_write h (fun l m hl => ?_) (onlyStatusOf_insertEvent k e)
    (fun _ _ => entries_subset (.insertEvent e) L) fun _ u _ _ hp => hnext u hp
  rw [touched_insertEvent] at hl
  rcases List.mem_cons.mp hl with hl | hl
  · cases hl
    exact hrun
  · obtain ⟨id, hid, heq⟩ := List.mem_map.mp hl
    cases heq
    exact hattempt id (Option.mem_toList.mp hid)

/-- An outbox event of a run that is held. -/
theorem follows_outbox {e : OutboxEvent} (h : Progress L0 v0 k L ws v)
    (hrun : Locked L (.run e.aggregateId))
    (hnext : ∀ u, Progress L0 v0 k (taken (.insertOutbox e) ++ L) (ws ++ [.insertOutbox e]) u →
      Follows limits Q (g ()) (taken (.insertOutbox e) ++ L) (ws ++ [.insertOutbox e]) u) :
    Follows limits Q ((exec (.insertOutbox e)).bind g) L ws v := by
  refine follows_write h (fun l m hl => absurd hl (by simp [touched]))
    (fun _ _ h => absurd h (by simp)) (fun v1 h1 => ⟨entries_subset (.insertOutbox e) L, ?_⟩)
    fun _ u _ _ hp => hnext u hp
  exact (h.frame h1).set.runs hrun

/-- An attempt of a run that is held. -/
theorem follows_updateAttempt {a : RunAttempt} {sets : List AttemptSet}
    (h : Progress L0 v0 k L ws v) (ha : v.attempts.get? a.id = some a)
    (hheld : Locked L (.attempt a.id)) (hrun : Locked L (.run a.runId))
    (hnext : ∀ v1 u, Frame L v v1 → Writes.apply (Write.updateAttempt a.id sets) v1 = .ok u →
      Progress L0 v0 k (taken (.updateAttempt a.id sets) ++ L)
        (ws ++ [.updateAttempt a.id sets]) u →
      Follows limits Q (g ()) (taken (.updateAttempt a.id sets) ++ L)
        (ws ++ [.updateAttempt a.id sets]) u) :
    Follows limits Q ((exec (.updateAttempt a.id sets)).bind g) L ws v := by
  refine follows_write h (fun l m hl => ?_) (fun _ _ h => absurd h (by simp)) (fun v1 h1 => ?_) hnext
  · cases List.mem_singleton.mp hl
    exact hheld
  · exact ⟨a, h1.attempts.held hrun ha, List.mem_append_right _ hrun⟩

/-- A new status for a run that is held and has not ended. -/
theorem follows_updateRun {sets : List RunSet} (h : Progress L0 v0 id L ws v)
    (hget : v.runs.get? id = some r) (hheld : Locked L (.run id))
    (hlive : isTerminalExecutionStatus r.executionStatus = false)
    (hroom : ∀ w : Watch, (assignAll RunSet.assign sets r).executionStatus ∈ w.statuses →
      r.executionStatus ∈ w.statuses ∨ Room limits L v.runs w r)
    (hnext : ∀ u, Progress L0 v0 id (taken (.updateRun id sets) ++ L)
        (ws ++ [.updateRun id sets]) u →
      Follows limits Q (g ()) (taken (.updateRun id sets) ++ L)
        (ws ++ [.updateRun id sets]) u) :
    Follows limits Q ((exec (.updateRun id sets)).bind g) L ws v := by
  refine follows_write h (fun l m hl => ?_) (fun _ _ heq _ => ?_) (fun v1 h1 => ?_)
    fun _ u _ _ hp => hnext u hp
  · cases List.mem_singleton.mp hl
    exact hheld
  · cases heq
    rfl
  · refine ⟨r, h1.runs.held hheld hget, List.mem_append_right _ hheld, fun _ => hlive, fun w hw => ?_⟩
    refine (hroom w hw).imp_right fun hr => ?_
    exact (hr.frame h1.runs).mono (List.subset_append_right _ _)

/-! ### Evaluation jobs -/

/-- A new evaluation status for a run that is held. -/
theorem legal_noteRun {status : EvaluationStatus} (hheld : Locked L (.run id))
    (hrun : v.runs.get? id = some r) :
    Legal limits L v (.updateRun id [.evaluationStatus status]) := by
  refine ⟨r, hrun, hheld, ?_, fun w hw => .inl hw⟩
  rintro ⟨status', hmem⟩
  exact absurd hmem (by simp)

/-- The event on the source of a job that ends: the source is held, and it is stored if the event
can be. -/
theorem follows_sourceEvent {e : RunEvent} (h : Progress L0 v0 k L ws v)
    (hsource : Source L v e.runId) (hattempt : e.attemptId = none)
    (hnext : ∀ L' ws' v', Progress L0 v0 k L' ws' v' → Follows limits Q (g ()) L' ws' v') :
    Follows limits Q ((exec (.insertEvent e)).bind g)
      ((.lock (.run e.runId), .exclusive) :: L) ws v := by
  have htouched : touched (.insertEvent e) = [(.run e.runId, .share)] := by
    rw [touched_insertEvent, hattempt]
    rfl
  refine obeys_exec.mpr fun v1 h1 => ⟨asks_taken fun l m hl => ?_, fun u happly => ⟨?_, ?_⟩⟩
  · rw [htouched, List.mem_singleton] at hl
    cases hl
    exact .again List.mem_cons_self
  · exact entries_subset (.insertEvent e) _
  · have hframe := Frame.anti (List.subset_cons_self _ _) h1
    obtain ⟨t, -, -, hrun⟩ := apply_insertEvent happly
    have hset := (h.frame hframe).set.source (hsource.grows hframe.grows) hrun
    refine hnext _ _ u (((h.frame hframe).lock hset).write happly (fun l m hl => ?_)
      (onlyStatusOf_insertEvent k e))
    rw [htouched, List.mem_singleton] at hl
    cases hl
    exact List.mem_cons_self

theorem evaluationOfJob_eq_some {s : Store} {e : Evaluation} (h : s.evaluationOfJob id = some e) :
    s.evaluations.get? e.id = some e ∧ e.jobRunId = some id := by
  unfold Store.evaluationOfJob at h
  have hjob := List.find?_some h
  exact ⟨get?_eq_some_iff.mpr ⟨List.mem_of_find?_eq_some h, rfl⟩, beq_iff_eq.mp hjob⟩

variable {c : Call}

/-- The source of a job that ends gets the verdict if no later evaluation has been asked for. -/
theorem follows_settleSource {jobId : Uuid} {evaluation : Evaluation} {verdict : EvaluationStatus}
    (h : Progress L0 v0 k L ws v) (hsource : Source L v evaluation.runId)
    (hnext : ∀ L' ws' v', Progress L0 v0 k L' ws' v' → Follows limits Q (g ()) L' ws' v') :
    Follows limits Q ((lockedRun evaluation.runId).bind fun source =>
      (Tx.read fun s : Store => s.latestEvaluation evaluation.runId).bind fun latest =>
      Tx.bind (if source.isSome ∧ latest = some evaluation.id then
          (exec (.updateRun evaluation.runId [.evaluationStatus verdict])).bind fun _ =>
            exec (.insertEvent (newEvent c jobId 1 evaluation.runId none (.evaluation verdict)
              [("job_run_id", .uuid jobId)]))
        else exec (.insertEvent (newEvent c jobId 1 evaluation.runId none (.evaluation verdict)
          [("job_run_id", .uuid jobId)]))) g) L ws v := by
  unfold lockedRun
  simp only [bind_eq, bind_assoc]
  refine obeys_acquire.mpr fun v1 h1 => ⟨.source (hsource.grows h1.grows) (h.frame h1).set, ?_⟩
  refine obeys_read.mpr fun v2 h2 => obeys_read.mpr fun v3 h3 => ?_
  have hframe := h1.trans (Frame.anti (List.subset_cons_self _ _) (Frame.trans h2 h3))
  split
  · rename_i hlatest
    obtain ⟨source, hget⟩ := Option.isSome_iff_exists.mp hlatest.1
    have hget3 := h3.runs.held List.mem_cons_self hget
    have hset := (h.frame hframe).set.source (hsource.grows hframe.grows)
      (Option.isSome_iff_exists.mpr ⟨source, hget3⟩)
    rw [bind_assoc]
    refine follows_write ((h.frame hframe).lock hset) (fun l m hl => ?_) (fun id sets heq hsets => ?_)
      (fun v4 h4 => legal_noteRun (List.mem_append_right _ List.mem_cons_self)
        (h4.runs.held List.mem_cons_self hget3)) fun v4 u h4 happly hp => ?_
    · cases List.mem_singleton.mp hl
      exact List.mem_cons_self
    · cases heq
      obtain ⟨status, hmem⟩ := hsets
      exact absurd hmem (by simp)
    · refine follows_event hp ?_ (fun _ hid => absurd hid (by simp [newEvent]))
        fun u hp' => hnext _ _ u hp'
      exact List.mem_append_right _ List.mem_cons_self
  · exact follows_sourceEvent (h.frame hframe) (hsource.grows hframe.grows) rfl hnext

variable {run : Run}

/-- **The end of an evaluation job** takes the evaluation and the source of the job. -/
theorem follows_finalizeEvaluationJob (h : Progress L0 v0 k L ws v)
    (hheld : Locked L (.run run.id))
    (hnext : ∀ L' ws' v', Progress L0 v0 k L' ws' v' → Follows limits Q (g ()) L' ws' v') :
    Follows limits Q ((finalizeEvaluationJob c run).bind g) L ws v := by
  unfold finalizeEvaluationJob
  split
  · exact hnext L ws v h
  rw [bind_eq, bind_assoc]
  refine obeys_read.mpr fun v1 h1 => ?_
  split
  · trivial
  rename_i evaluation hevaluation
  obtain ⟨hget, hjob⟩ := evaluationOfJob_eq_some hevaluation
  simp only [bind_eq, bind_assoc]
  refine obeys_acquire.mpr fun v2 h2 => ?_
  obtain ⟨e2, he2, hrun2, hjob2⟩ := h2.grows.evaluations _ _ hget
  have hp2 := (h.frame h1).frame h2
  refine ⟨.evaluation he2 (hjob2.trans hjob) hheld hp2.set, ?_⟩
  have hp := hp2.lock (hp2.set.evaluation he2 (hjob2.trans hjob) hheld)
  refine follows_write hp (fun l m hl => ?_) (fun _ _ h => absurd h (by simp)) (fun _ _ => trivial)
    fun v3 u h3 happly hp3 => ?_
  · cases List.mem_singleton.mp hl
    exact List.mem_cons_self
  obtain ⟨e3, he3, hrun3, -⟩ := (h3.grows.trans (apply_grows happly)).evaluations _ _ he2
  have hsource : Source (taken (.updateEvaluation evaluation.id (evaluationSets run evaluation))
      ++ (.lock (.evaluation evaluation.id), .exclusive) :: L) u evaluation.runId :=
    ⟨evaluation.id, e3, by simp [Locked], he3, hrun3.trans hrun2⟩
  exact follows_settleSource hp3 hsource hnext

/-! ### Failed attempts -/

/-- A run that has not ended is counted as active already, so only a new start needs room. -/
theorem counted_already {status : ExecutionStatus}
    (hlive : isTerminalExecutionStatus r.executionStatus = false) (hstatus : status ≠ .running)
    (w : Watch) (hw : status ∈ w.statuses) : r.executionStatus ∈ w.statuses := by
  cases w with
  | running => exact absurd (List.mem_singleton.mp hw) hstatus
  | active =>
    cases hr : r.executionStatus with
    | queued | running | retryScheduled => simp [Watch.statuses, activeStatuses]
    | succeeded | failed | deadLettered =>
      rw [hr] at hlive
      exact absurd hlive (by decide)

/-- The row is held and has the status. -/
def InStatus (status : ExecutionStatus) (v : Store) (id : Uuid) : Prop :=
  ∃ row, v.runs.get? id = some row ∧ row.executionStatus = status

/-- A run and its open attempt, both held: the run is running. -/
structure Open (L : List (Hold Resource)) (v : Store) (run : Run) (attempt : RunAttempt) : Prop where
  running : InStatus .running v run.id
  held : Locked L (.run run.id)
  attemptStored : v.attempts.get? attempt.id = some attempt
  own : attempt.runId = run.id
  attemptHeld : Locked L (.attempt attempt.id)

/-- The end of an attempt and a new status for its run. -/
theorem follows_finish {attempt : RunAttempt} {finish : List AttemptSet} {sets : List RunSet}
    (h : Progress L0 v0 run.id L ws v) (hopen : Open L v run attempt)
    (hstatus : ∀ r, (assignAll RunSet.assign sets r).executionStatus ≠ .running)
    (hnext : ∀ L' ws' v', Progress L0 v0 run.id L' ws' v' → Locked L' (.run run.id) →
      Locked L' (.attempt attempt.id) → Follows limits Q (g ()) L' ws' v') :
    Follows limits Q ((exec (.updateAttempt attempt.id finish)).bind fun _ =>
      (exec (.updateRun run.id sets)).bind g) L ws v := by
  refine follows_updateAttempt h hopen.attemptStored hopen.attemptHeld (hopen.own ▸ hopen.held)
    fun v1 u h1 happly hp => ?_
  obtain ⟨-, rfl⟩ := apply_updateAttempt happly
  obtain ⟨row, hrow, hrunning⟩ := hopen.running
  have hlive : isTerminalExecutionStatus row.executionStatus = false := by
    rw [hrunning]
    rfl
  refine follows_updateRun hp (h1.runs.held hopen.held hrow) (List.mem_append_right _ hopen.held)
    hlive (fun w hw => .inl (counted_already hlive (hstatus row) w hw)) fun u hp' => ?_
  refine hnext _ _ u hp' ?_ ?_
  · exact List.mem_append_right _ (List.mem_append_right _ hopen.held)
  · exact List.mem_append_right _ (List.mem_append_right _ hopen.attemptHeld)

/-- **A failed attempt** of a running run that is held. -/
theorem follows_scheduleRetryOrFinalize {attempt : RunAttempt} {errorCode : String}
    {recovery : Bool} (h : Progress L0 v0 run.id L ws v) (hopen : Open L v run attempt)
    (hnext : ∀ L' ws' v', Progress L0 v0 run.id L' ws' v' → Follows limits Q (g ()) L' ws' v') :
    Follows limits Q ((scheduleRetryOrFinalize c run attempt errorCode recovery).bind g) L ws v := by
  have hid (status : ExecutionStatus) :
      (assignAll RunSet.assign (endSets status c.now errorCode) run).id = run.id := by simp
  have hlast {id : Uuid} {L' : List (Hold Resource)} (hL' : Locked L' (.attempt attempt.id)) :
      id ∈ some attempt.id → Locked L' (.attempt id) := by
    rintro ⟨⟩
    exact hL'
  unfold scheduleRetryOrFinalize
  simp only [bind_eq, bind_assoc]
  refine obeys_ofExcept fun policy _ => ?_
  split
  · simp only [bind_assoc]
    refine obeys_ofExcept fun delaySeconds _ => obeys_ofExcept fun nextAttemptAt _ => ?_
    refine follows_finish h hopen (fun _ => by simp) fun L1 ws1 v1 hp1 hrun1 hattempt1 => ?_
    exact follows_event hp1 hrun1 (fun id => hlast hattempt1) fun u hp2 => hnext _ _ u hp2
  · split
    · simp only [bind_assoc]
      refine follows_finish h hopen (fun _ => by simp) fun L1 ws1 v1 hp1 hrun1 hattempt1 => ?_
      refine follows_outbox hp1 hrun1 fun u2 hp2 => ?_
      refine follows_event hp2 (List.mem_append_right _ hrun1)
        (fun id => hlast (List.mem_append_right _ hattempt1)) fun u3 hp3 => ?_
      refine follows_finalizeEvaluationJob hp3 ?_ hnext
      rw [hid]
      exact List.mem_append_right _ (List.mem_append_right _ hrun1)
    · simp only [bind_assoc]
      refine follows_finish h hopen (fun _ => by simp) fun L1 ws1 v1 hp1 hrun1 hattempt1 => ?_
      refine follows_event hp1 hrun1 (fun id => hlast hattempt1) fun u2 hp2 => ?_
      refine follows_finalizeEvaluationJob hp2 ?_ hnext
      rw [hid]
      exact List.mem_append_right _ hrun1

/-! ### Completions -/

/-- The lock on one run row. -/
abbrev rowLock (id : Uuid) : List (Hold Resource) := [(.lock (.run id), .exclusive)]

theorem settling_rowLock (hget : v.runs.get? r.id = some r)
    (hlive : isTerminalExecutionStatus r.executionStatus = false) :
    Settling (rowLock r.id) ws v := by
  refine Settling.start fun l m hl => .inr ⟨r.id, r, ?_⟩
  cases List.mem_singleton.mp hl
  exact ⟨rfl, rfl, hget, hlive⟩

variable {runId attemptId : Uuid}

/-- **The checks of a completion** leave both rows locked, or lead to the answer `none`. -/
theorem follows_activeAttempt {workerId : String} {g : Option (Run × RunAttempt) → DbTx α}
    (hnone : ∀ L' v', Follows limits Q (g none) L' [] v')
    (hsome : ∀ L' v' run attempt, Settling L' [] v' → Open L' v' run attempt →
      Follows limits Q (g (some (run, attempt))) L' [] v') :
    Follows limits Q ((activeAttempt c runId attemptId workerId).bind g) [] [] v := by
  unfold activeAttempt lockedRun lockedAttempt
  simp only [bind_eq, bind_assoc]
  refine obeys_acquire.mpr fun v1 h1 => ⟨.row fun l m hl => absurd hl (by simp), ?_⟩
  refine obeys_read.mpr fun v2 h2 => ?_
  split
  · exact hnone _ _
  rename_i run hrun
  obtain rfl : run.id = runId := (mem_of_get? hrun).2
  split
  · exact hnone _ _
  rename_i hlease
  have hrunning : run.executionStatus = .running := by
    simp only [ownsActiveLease, Bool.and_eq_true, beq_iff_eq, not_not] at hlease
    exact hlease.1.1
  have hset (v' : Store) (h' : Frame (rowLock run.id) v2 v') : Settling (rowLock run.id) [] v' :=
    settling_rowLock (h'.runs.held List.mem_cons_self hrun) (by rw [hrunning]; rfl)
  simp only [bind_assoc]
  refine obeys_acquire.mpr fun v3 h3 => ⟨.named (fun l m hl => ?_) (hset v3 h3), ?_⟩
  · cases List.mem_singleton.mp hl
    exact ⟨run.id, rfl⟩
  refine obeys_read.mpr fun v4 h4 => ?_
  split
  · exact hnone _ _
  rename_i attempt hattempt
  obtain rfl : attempt.id = attemptId := (mem_of_get? hattempt).2
  split
  · exact hnone _ _
  rename_i hopen
  rw [not_or, not_not, not_not] at hopen
  have h24 : Frame (rowLock run.id) v2 v4 := h3.trans (Frame.anti (List.subset_cons_self _ _) h4)
  have hheld : Locked (rowLock run.id) (.run attempt.runId) := by
    rw [hopen.1]
    exact List.mem_cons_self
  refine hsome _ v4 run attempt ((hset v4 h24).attempt hattempt hheld) ?_
  exact ⟨⟨run, h24.runs.held List.mem_cons_self hrun, hrunning⟩,
    List.mem_cons_of_mem _ List.mem_cons_self, hattempt, hopen.1, List.mem_cons_self⟩

/-- **A success.** -/
theorem completeSuccess_follows {workerId : String} {result : ExecutionResult} :
    Follows limits (fun _ _ _ _ => True) (completeSuccess c runId attemptId workerId result)
      [] [] v := by
  refine follows_activeAttempt (fun _ _ _ _ => trivial) fun L1 v1 run attempt hset hopen => ?_
  refine follows_finish (Progress.start hset run.id) hopen (fun _ => by simp)
    fun L2 ws2 v2 hp2 hrun2 hattempt2 => ?_
  refine follows_event hp2 hrun2 (fun id hid => ?_) fun u hp3 => ?_
  · cases hid
    exact hattempt2
  refine follows_finalizeEvaluationJob hp3 ?_ fun _ _ _ _ _ _ => trivial
  rw [show (assignAll RunSet.assign (succeedSets c.now result) run).id = run.id by simp]
  exact List.mem_append_right _ hrun2

/-- **A failure.** -/
theorem completeFailure_follows {workerId errorCode : String} :
    Follows limits (fun _ _ _ _ => True) (completeFailure c runId attemptId workerId errorCode)
      [] [] v := by
  refine follows_activeAttempt (fun _ _ _ _ => trivial) fun L1 v1 run attempt hset hopen => ?_
  exact follows_scheduleRetryOrFinalize (Progress.start hset run.id) hopen fun _ _ _ _ _ _ => trivial

/-! ### Batches -/

/-- The rows of a batch that are still to be handled: held, and in the status they were selected for. -/
structure Pending (status : ExecutionStatus) (rest : List Run) (L : List (Hold Resource))
    (ws : List Write) (v : Store) : Prop where
  set : Settling L ws v
  held : ∀ r ∈ rest, Locked L (.run r.id)
  stored : ∀ r ∈ rest, InStatus status v r.id
  nodup : (rest.map Run.id).Nodup

namespace Pending

variable {status : ExecutionStatus} {rest : List Run} {x : Run} {ws0 : List Write}

theorem frame (h : Pending status rest L ws v) (hframe : Frame L v v') :
    Pending status rest L ws v' where
  set := h.set.frame hframe
  held := h.held
  stored r hr := by
    obtain ⟨row, hrow, hstatus⟩ := h.stored r hr
    exact ⟨row, hframe.runs.held (h.held r hr) hrow, hstatus⟩
  nodup := h.nodup

/-- After the first row has been handled. -/
theorem next (h : Pending status (x :: rest) L0 ws0 v0) (hp : Progress L0 v0 x.id L ws v) :
    Pending status rest L ws v where
  set := hp.set
  held r hr := hp.sub (h.held r (List.mem_cons_of_mem _ hr))
  stored r hr := by
    have hne : r.id ≠ x.id := fun heq =>
      (List.nodup_cons.mp h.nodup).1 (heq ▸ List.mem_map_of_mem hr)
    obtain ⟨row, hrow, hstatus⟩ := h.stored r (List.mem_cons_of_mem _ hr)
    obtain ⟨row', hrow', hkept⟩ := hp.kept (h.held r (List.mem_cons_of_mem _ hr)) hne hrow
    exact ⟨row', hrow', hkept.trans hstatus⟩
  nodup := (List.nodup_cons.mp h.nodup).2

end Pending

variable {batchSize : ℕ}

/-- **Locking a batch** of rows that are in a status that is not terminal. -/
theorem follows_lockBatch {clause : Run → Bool} {column : Run → Option Timestamp}
    (status : ExecutionStatus) {g : List Run → DbTx α}
    (hclause : ∀ r, clause r = true → r.executionStatus = status)
    (hlive : isTerminalExecutionStatus status = false)
    (h : ∀ runs L' v', Pending status runs L' [] v' → Follows limits Q (g runs) L' [] v') :
    Follows limits Q ((lockBatch clause column batchSize).bind g) [] [] v := by
  unfold lockBatch
  rw [bind_eq, bind_assoc]
  refine obeys_acquireFree.mpr fun v1 h1 isFree locks hlocks => ?_
  refine obeys_read.mpr fun v2 h2 => h _ _ v2 ?_
  have hstored : ∀ l ∈ locks, ∃ r, l = .run r.id ∧ v2.runs.get? r.id = some r
      ∧ r.executionStatus = status := by
    intro l hl
    have hmem : l ∈ batchLocks clause column batchSize v1 fun l => !isFree l := by
      rw [hlocks] at hl
      exact List.mem_of_mem_filter hl
    obtain ⟨r, hr, hselected, rfl⟩ := mem_batchLocks hmem
    refine ⟨r, rfl, h2.runs.held ?_ (get?_eq_some_iff.mpr ⟨hr, rfl⟩), hclause r hselected⟩
    exact List.mem_append_left _ (List.mem_map_of_mem hl)
  have hread {r : Run} (hr : r ∈ locks.filterMap v2.lockedRow) :
      .run r.id ∈ locks ∧ InStatus status v2 r.id := by
    obtain ⟨l, hl, hrow⟩ := List.mem_filterMap.mp hr
    obtain ⟨rfl, -⟩ := lockedRow_eq_some hrow
    obtain ⟨q, hid, hq, hstatus⟩ := hstored _ hl
    refine ⟨hl, q, ?_, hstatus⟩
    rw [Lock.run.inj hid]
    exact hq
  refine ⟨Settling.start fun l m hl => .inr ?_, fun r hr => ?_, fun r hr => (hread hr).2, ?_⟩
  · rw [List.append_nil] at hl
    obtain ⟨l', hl', heq⟩ := List.mem_map.mp hl
    cases heq
    obtain ⟨r, rfl, hr, hstatus⟩ := hstored l hl'
    exact ⟨r.id, r, rfl, rfl, hr, by rw [hstatus]; exact hlive⟩
  · exact List.mem_append_left _ (List.mem_map_of_mem (hread hr).1)
  · have hsub := filterMap_map_sublist (fun l r h => (lockedRow_eq_some (s := v2) h).1.symm) locks
    refine runLocks_nodup.mp (List.Nodup.sublist hsub ?_)
    rw [hlocks]
    exact batchLocks_nodup.filter _

/-- One run of the recovery. -/
theorem follows_recoverRun {rest : List Run} (h : Pending .running (run :: rest) L ws v) :
    Follows limits (fun _ => Pending .running rest) (recoverRun c run) L ws v := by
  have hp := Progress.start h.set run.id
  unfold recoverRun latestOpenAttempt
  simp only [bind_eq, bind_assoc]
  refine obeys_read.mpr fun v1 h1 => ?_
  have hheld := h.held run List.mem_cons_self
  split
  · exact fun v2 h2 => h.next ((hp.frame h1).frame h2)
  rename_i attempt hattempt
  obtain ⟨hmem, -⟩ := latestOpen_eq_some hattempt
  obtain ⟨hmem, hown⟩ := mem_select.mp hmem
  have hown : attempt.runId = run.id := beq_iff_eq.mp hown
  have hlocked : Locked L (.run attempt.runId) := by
    rw [hown]
    exact hheld
  rw [bind_assoc]
  refine obeys_acquire.mpr fun v2 h2 => ?_
  have hget := h2.attempts.held hlocked (get?_eq_some_iff.mpr ⟨hmem, rfl⟩)
  have hp2 := (hp.frame h1).frame h2
  refine ⟨.attempt hget hlocked hp2.set, ?_⟩
  simp only [pure_eq, Tx.done_bind]
  rw [← bind_done (scheduleRetryOrFinalize c run attempt _ true)]
  refine follows_scheduleRetryOrFinalize (hp2.lock (hp2.set.attempt hget hlocked)) ?_
    fun L' ws' v' hp' => fun v'' h'' => h.next (hp'.frame h'')
  exact ⟨((h.frame h1).frame h2).stored run List.mem_cons_self, List.mem_cons_of_mem _ hheld, hget,
    hown, List.mem_cons_self⟩

/-- **Recovery.** -/
theorem recoverExpiredLeases_follows :
    Follows limits (fun _ _ _ _ => True) (recoverExpiredLeases c batchSize) [] [] v := by
  refine follows_lockBatch .running (fun r hr => ?_) rfl fun runs L1 v1 h1 => ?_
  · simp only [leaseExpired, Bool.and_eq_true, beq_iff_eq] at hr
    exact hr.1
  · refine Obeys.bind (Obeys.forEach (I := Pending .running) Pending.frame
      follows_recoverRun runs h1) fun _ _ _ _ _ _ _ => trivial

/-- One run of the retry scheduler. -/
theorem follows_requeueRun {rest : List Run} (h : Pending .retryScheduled (run :: rest) L ws v) :
    Follows limits (fun _ => Pending .retryScheduled rest) (requeueRun c run) L ws v := by
  have hheld := h.held run List.mem_cons_self
  obtain ⟨row, hrow, hstatus⟩ := h.stored run List.mem_cons_self
  have hlive : isTerminalExecutionStatus row.executionStatus = false := by
    rw [hstatus]
    rfl
  refine follows_updateRun (Progress.start h.set run.id) hrow hheld hlive
    (fun w hw => .inl (counted_already hlive (by simp) w hw)) fun u1 hp1 => ?_
  refine follows_outbox hp1 (List.mem_append_right _ hheld) fun u2 hp2 => ?_
  refine follows_event hp2 (List.mem_append_right _ (List.mem_append_right _ hheld))
    (fun _ hid => absurd hid (by simp [newEvent])) fun u3 hp3 v' h' => h.next (hp3.frame h')

/-- **The retry scheduler.** -/
theorem scheduleDueRetries_follows :
    Follows limits (fun _ _ _ _ => True) (scheduleDueRetries c batchSize) [] [] v := by
  refine follows_lockBatch .retryScheduled (fun r hr => ?_) rfl fun runs L1 v1 h1 => ?_
  · simp only [retryDue, Bool.and_eq_true, beq_iff_eq] at hr
    exact hr.1
  · refine Obeys.bind (Obeys.forEach (I := Pending .retryScheduled)
      Pending.frame follows_requeueRun runs h1) fun _ _ _ _ _ _ _ => trivial

/-! ### Claims -/

/-- A run row that is held on top of the scopes of the run. -/
structure Attached (L : List (Hold Resource)) (v : Store) (run : Run) : Prop where
  stored : v.runs.get? run.id = some run
  held : Locked L (.run run.id)
  scopesHeld : ∀ k ∈ scopes run, ScopeHeld L k.text
  only : ∀ l m, (.lock l, m) ∈ L → (∃ y, l = .advisory y) ∨ (l = .run run.id ∧ m = .exclusive)

theorem Attached.frame (h : Attached L v run) (hframe : Frame L v v') : Attached L v' run :=
  { h with stored := hframe.runs.held h.held h.stored }

/-- **Locking a run with its scopes.** The columns that name the scopes of a run never change, so the
scopes that were locked are those of the row read under the lock. -/
theorem follows_lockAttached {runId : Uuid} {identity : Run} {g : Option Run → DbTx α}
    (hidentity : v.runs.get? runId = some identity)
    (hnone : ∀ L' v', Follows limits Q (g none) L' [] v')
    (hsome : ∀ L' v' run, run.id = runId → Attached L' v' run →
      Follows limits Q (g (some run)) L' [] v') :
    Follows limits Q
      ((lockIdentity (orElseText identity.principalId identity.clientId) identity.clientId).bind
        fun _ => (lockedRun runId).bind g) [] [] v := by
  refine follows_lockIdentity (.inl (by simp)) fun L v1 hL h1 => ?_
  unfold lockedRun
  rw [bind_eq, bind_assoc]
  refine obeys_acquire.mpr fun v2 h2 => ⟨.row fun l m hl => .inl (hL.onlyScopes l m hl), ?_⟩
  refine obeys_read.mpr fun v3 h3 => ?_
  cases hrun : v3.runs.get? runId with
  | none => exact hnone _ v3
  | some run =>
    obtain rfl : run.id = runId := (mem_of_get? hrun).2
    obtain ⟨r, hr, haccepted⟩ := ((h1.grows.trans h2.grows).trans h3.grows).runs _ _ hidentity
    rw [hrun] at hr
    cases hr
    have hprincipal : run.principalId = identity.principalId :=
      congrArg Accepted.principalId haccepted
    have hclient : run.clientId = identity.clientId := congrArg Accepted.clientId haccepted
    refine hsome _ v3 run rfl ⟨hrun, List.mem_cons_self, fun k hk => ?_, fun l m hl => ?_⟩
    · simp only [scopes, hprincipal, hclient, List.mem_cons, List.not_mem_nil, or_false] at hk
      rcases hk with rfl | rfl
      · exact List.mem_cons_of_mem _ hL.principal
      · exact List.mem_cons_of_mem _ hL.tenant
    · rcases List.mem_cons.mp hl with hl | hl
      · cases hl
        exact .inr ⟨rfl, rfl⟩
      · exact .inl (hL.onlyScopes l m hl)

/-- How a claim ends. If it answers `NOT_READY` it has done nothing and the run is not queued, or it
has put the run off for a second; if it hands out work it has inserted the attempt. -/
structure ClaimPost (c : Call) (runId : Uuid) (answer : ClaimResult) (ws : List Write) (v : Store) :
    Prop where
  notReady : answer.decision = .notReady →
    (ws = [] ∧ ∃ r, v.runs.get? runId = some r ∧ r.executionStatus ≠ .queued)
      ∨ ∃ t, c.now.addSeconds 1 = .ok t ∧ ws = [.updateRun runId (deferSets t)]
  started : ∀ work ∈ answer.work,
    ∃ a, .insertAttempt a ∈ ws ∧ a.id = work.attemptId ∧ a.runId = runId

theorem claimPost_of_decision {runId : Uuid} {answer : ClaimResult}
    (hdecision : answer.decision ≠ .notReady) (hwork : answer.work = none) :
    ClaimPost c runId answer ws v :=
  ⟨fun h => absurd h hdecision, fun work h => absurd h (by simp [hwork])⟩

/-- A queued run that is held together with its scopes. -/
structure Claiming (L : List (Hold Resource)) (v : Store) (run : Run) : Prop
    extends Attached L v run where
  queued : run.executionStatus = .queued

namespace Claiming

variable {run : Run}

theorem frame (h : Claiming L v run) (hframe : Frame L v v') : Claiming L v' run :=
  { h with toAttached := h.toAttached.frame hframe }

theorem live (h : Claiming L v run) : isTerminalExecutionStatus run.executionStatus = false := by
  rw [h.queued]
  rfl

theorem progress (h : Claiming L v run) : Progress L v run.id L [] v := by
  refine .start (Settling.start fun l m hl => (h.only l m hl).imp_right ?_) run.id
  exact fun heq => ⟨run.id, run, heq.1, heq.2, h.stored, h.live⟩

end Claiming

section Claim

variable {c : Call} {run : Run} {svc : ExecutionService} {workerId : String}

/-- A claim that is put off. -/
theorem follows_deferRun (h : Claiming L v run) :
    Follows limits (fun answer _ => ClaimPost c run.id answer) (deferRun c run) L [] v := by
  refine obeys_ofExcept fun nextAttemptAt ht => ?_
  refine follows_updateRun h.progress h.stored h.held h.live
    (fun w hw => .inl (counted_already h.live (by simp) w hw)) fun u _ v' _ => ?_
  exact ⟨fun _ => .inr ⟨nextAttemptAt, ht, rfl⟩, fun _ hwork => absurd hwork (by simp)⟩

/-- A claim that fails the run. -/
theorem follows_rejectRun (h : Claiming L v run) :
    Follows limits (fun answer _ => ClaimPost c run.id answer) (rejectRun c run) L [] v := by
  refine follows_updateRun h.progress h.stored h.held h.live
    (fun w hw => .inl (counted_already h.live (by simp) w hw)) fun u hp => ?_
  refine follows_finalizeEvaluationJob hp ?_ fun _ _ _ _ _ _ => claimPost_of_decision (by simp) rfl
  rw [show (assignAll RunSet.assign (rejectSets c.now) run).id = run.id by simp]
  exact List.mem_append_right _ h.held

/-- A claim that starts an attempt. -/
theorem follows_startAttempt {attemptNumber : ℕ} {policy : RetryPolicy} (h : Claiming L v run)
    (hroom : Room limits L v.runs .running run) :
    Follows limits (fun answer _ => ClaimPost c run.id answer)
      (startAttempt svc c run workerId attemptNumber policy) L [] v := by
  refine obeys_ofExcept fun leaseExpiresAt _ => ?_
  refine follows_updateRun h.progress h.stored h.held h.live (fun w hw => ?_)
    fun u hp => ?_
  · cases w with
    | running => exact .inr hroom
    | active =>
      rw [h.queued]
      exact .inl (by simp [Watch.statuses, activeStatuses])
  have hheld := List.mem_append_right (taken (.updateRun run.id
    (startSets c run workerId leaseExpiresAt))) h.held
  refine follows_write hp (fun l m hl => ?_) (fun _ _ h => absurd h (by simp))
    (fun v1 h1 => entries_subset (.insertAttempt _) _) fun v1 u1 h1 happly hp1 => ?_
  · cases List.mem_singleton.mp hl
    exact hheld
  refine obeys_exec.mpr fun v2 h2 => ⟨asks_taken fun l m hl => ?_, fun u2 _ => ⟨?_, ?_⟩⟩
  · rw [touched_insertEvent] at hl
    rcases List.mem_cons.mp hl with hl | hl
    · cases hl
      exact .again (List.mem_append_right _ hheld)
    · cases List.mem_singleton.mp hl
      exact .ownAttempt (a := newAttempt c run attemptNumber (policy.providerFor attemptNumber)
        workerId) (by simp) (hp1.frame h2).set.toRooted
  · exact entries_subset (.insertEvent _) _
  · refine fun v3 _ => ⟨fun hnot => absurd hnot (by simp), fun work hwork => ?_⟩
    cases hwork
    exact ⟨newAttempt c run attemptNumber (policy.providerFor attemptNumber) workerId, by simp,
      rfl, rfl⟩

/-- One count of running runs. -/
theorem follows_atCapacity {p : Run → Bool} {limit : ℤ} {g : Bool → DbTx α}
    (hfull : ∀ v', Frame L v v' → Follows limits Q (g true) L ws v')
    (hroom : ∀ v', Frame L v v' → (countRuns v' p [.running] : ℤ) < limit →
      Follows limits Q (g false) L ws v') :
    Follows limits Q ((atCapacity p limit).bind g) L ws v := by
  unfold atCapacity
  rw [bind_eq, bind_assoc]
  refine obeys_read.mpr fun v1 h1 => ?_
  by_cases hle : limit ≤ (countRuns v1 p [.running] : ℤ)
  · simp only [hle, decide_true, pure_eq, Tx.done_bind]
    exact hfull v1 h1
  · simp only [hle, decide_false, pure_eq, Tx.done_bind]
    exact hroom v1 h1 (not_le.mp hle)

/-- The claim of a queued run. -/
theorem follows_claimQueued (hagrees : Agrees limits svc.quotas) (h : Claiming L v run) :
    Follows limits (fun answer _ => ClaimPost c run.id answer) (claimQueued svc c run workerId)
      L [] v := by
  refine follows_atCapacity (fun v1 h1 => follows_deferRun (h.frame h1)) fun v1 h1 hcount1 => ?_
  refine follows_atCapacity (fun v2 h2 => follows_deferRun ((h.frame h1).frame h2))
    fun v2 h2 hcount2 => ?_
  refine obeys_read.mpr fun v3 h3 => ?_
  have hclaiming := ((h.frame h1).frame h2).frame h3
  have hroom : Room limits L v3.runs .running run := by
    intro k hk
    refine ⟨h.scopesHeld k hk, fun l hl => ?_⟩
    rw [hagrees l hl]
    have hle1 := (Frame.trans h2 h3).runs.counts (h.scopesHeld k hk) .running
    have hle2 := h3.runs.counts (h.scopesHeld k hk) .running
    simp only [scopes, List.mem_cons, List.not_mem_nil, or_false] at hk
    rcases hk with rfl | rfl
    · exact lt_of_le_of_lt (Int.ofNat_le.mpr hle1) hcount1
    · exact lt_of_le_of_lt (Int.ofNat_le.mpr hle2) hcount2
  split
  · exact follows_startAttempt hclaiming hroom
  · exact follows_rejectRun hclaiming
  · trivial

/-- **Claims.** -/
theorem claim_follows {runId : Uuid} (hagrees : Agrees limits svc.quotas) :
    Follows limits (fun answer _ => ClaimPost c runId answer) (claim svc c runId workerId) [] [] v := by
  refine obeys_read.mpr fun v1 h1 => ?_
  split
  · exact fun _ _ => claimPost_of_decision (by simp) rfl
  rename_i identity hidentity
  refine follows_lockAttached hidentity (fun _ _ _ _ => claimPost_of_decision (by simp) rfl) ?_
  rintro L v2 run rfl hrun
  have hother (hne : run.executionStatus ≠ .queued) :
      Follows limits (fun answer _ => ClaimPost c run.id answer)
        (.done ⟨.notReady, run.id, none⟩) L [] v2 :=
    fun v' h' => ⟨fun _ => .inl ⟨rfl, run, (hrun.frame h').stored, hne⟩,
      fun _ hwork => absurd hwork (by simp)⟩
  show Follows limits _ (claimLocked svc c run workerId) L [] v2
  unfold claimLocked
  split
  · exact fun _ _ => claimPost_of_decision (by simp) rfl
  split
  · rename_i hrunning
    split
    · exact fun _ _ => claimPost_of_decision (by simp) rfl
    · exact hother (by rw [hrunning]; simp)
  split
  · rename_i hne
    exact hother hne
  · rename_i hqueued
    exact follows_claimQueued hagrees { hrun with queued := not_not.mp hqueued }

end Claim

/-! ### Deliveries -/

/-- Locks of outbox rows only. -/
abbrev OnlyOutbox (L : List (Hold Resource)) : Prop :=
  ∀ l m, (.lock l, m) ∈ L → ∃ id, l = .outbox id

/-- The two statements after the broker call. -/
theorem follows_record {e : OutboxEvent} {sets : List OutboxSet} {event : RunEvent}
    (hL : OnlyOutbox L) (hheld : Locked L (.outbox e.id)) (hattempt : event.attemptId = none)
    (hnext : ∀ L' ws' v', Follows limits Q (g ()) L' ws' v') :
    Follows limits Q ((exec (.updateOutbox e.id sets)).bind fun _ =>
      (exec (.insertEvent event)).bind g) L ws v := by
  refine obeys_exec.mpr fun v1 h1 => ⟨asks_taken fun l m hl => ?_, fun u1 _ => ⟨trivial, ?_⟩⟩
  · cases List.mem_singleton.mp hl
    exact .again hheld
  refine obeys_exec.mpr fun v2 h2 => ⟨asks_taken fun l m hl => ?_, fun u2 _ => ⟨?_, hnext _ _ u2⟩⟩
  · rw [touched_insertEvent, hattempt] at hl
    cases List.mem_singleton.mp hl
    refine .row fun l m hl => .inr ?_
    rcases List.mem_append.mp hl with hl | hl
    · cases List.mem_singleton.mp (lock_mem_taken.mp hl)
      exact ⟨e.id, rfl⟩
    · exact hL l m hl
  · exact entries_subset (.insertEvent event) _

/-- **Deliveries.** -/
theorem dispatchOne_follows {publish : OutboxEvent → Except String Unit} :
    Follows limits (fun _ _ _ _ => True) (dispatchOne c publish) [] [] v := by
  unfold dispatchOne lockUnpublished
  simp only [bind_eq, bind_assoc]
  refine obeys_acquireFree.mpr fun v1 h1 isFree locks hlocks => obeys_read.mpr fun v2 h2 => ?_
  split
  · exact fun _ _ => trivial
  rename_i event hevent
  have hlock : locks = [.outbox event.id] := by
    split at hevent
    · rw [show event.id = _ from (mem_of_get? hevent).2]
    · exact absurd hevent (by simp)
  subst hlock
  have hL : OnlyOutbox ([Lock.outbox event.id].map (fun l => (locking.lock l, .exclusive)) ++ []) := by
    intro l m hl
    cases List.mem_singleton.mp hl
    exact ⟨event.id, rfl⟩
  have hheld : Locked ([Lock.outbox event.id].map (fun l => (locking.lock l, .exclusive)) ++ [])
      (.outbox event.id) := List.mem_singleton.mpr rfl
  unfold recordOutcome
  split
  · unfold recordPublished
    simp only [bind_eq, bind_assoc]
    exact follows_record hL hheld rfl fun _ _ _ _ _ => trivial
  · unfold recordPublishFailed
    simp only [bind_eq, bind_assoc]
    exact follows_record hL hheld rfl fun _ _ _ _ _ => trivial

end AgentRuntime.Concurrency
