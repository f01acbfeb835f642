import AgentRuntime.Lifecycle.Coherence
import AgentRuntime.Lifecycle.Jobs

/-!
# Evaluations and their jobs

An evaluation is one row of its own and one run that carries it out. This module follows the two
together. `jobView` collects what belongs to a job: where its run stands, the evaluations that
name it, and the history entries that report its end. `JobStep` is the abstract model: a run is
accepted, a job is opened with its record, a run ends, or a job ends with its verdict in its record
and one notice.

* `finalizeEvaluationJob_jobView`: what `_finalize_evaluation_job` does to all views;
* `run_jobEffects`: an operation takes every job through at most one `JobStep`;
* `Coupled`, `reachable_coupled`: records and jobs agree in every reachable store.
-/

namespace AgentRuntime.Lifecycle

open Lib Tx Table Domain Database Application Messaging Execution

/-! ### Jobs, records and notices -/

/-- The verdict of a run that has ended. -/
def finalVerdict (r : Run) : Option EvaluationStatus :=
  if isTerminalExecutionStatus r.executionStatus then some (jobVerdict r) else none

/-- What a record shows of the run that carries it out. -/
structure JobSummary where
  kind : WorkKind
  completedAt : Option Timestamp
  verdict : Option EvaluationStatus

def summary (r : Run) : JobSummary := ⟨r.workKind, r.completedAt, finalVerdict r⟩

/-- The job a history entry names. -/
def namedJob (n : RunEvent) : Option Uuid :=
  match n.metadata.find? fun m => m.1 == "job_run_id" with
  | some (_, .uuid id) => some id
  | _ => none

/-- The types of the entries that report the end of an evaluation. -/
def isVerdict : EventType → Bool
  | .evaluation .pending => false
  | .evaluation _ => true
  | _ => false

/-- The entry reports the end of job `k`. -/
def isNotice (k : Option Uuid) (n : RunEvent) : Bool := isVerdict n.eventType && namedJob n == k

/-- A job with the evaluations that name it and the notices of its end. -/
structure JobView where
  job : Option JobSummary
  records : List Evaluation
  notices : List RunEvent

/-- The view of job `k`; what names no job at all is in the view of `none`. -/
def jobView (s : Store) (k : Option Uuid) : JobView where
  job := k.bind fun id => (s.runs.get? id).map summary
  records := s.evaluations.select fun e => e.jobRunId == k
  notices := s.events.select (isNotice k)

theorem jobVerdict_ne_pending (r : Run) : jobVerdict r ≠ .pending := by
  unfold jobVerdict
  split
  · split <;> simp
  · simp

/-! ### Writes and job views -/

/-- The write leaves every job view as it is. -/
def Quiet (s : Store) : Write → Prop
  | .updateRun id sets => ∀ r, s.runs.get? id = some r →
      summary (assignAll RunSet.assign sets r) = summary r
  | .insertEvent e => isVerdict e.eventType = false
  | .insertRun _ => False
  | .insertEvaluation _ => False
  | .updateEvaluation _ _ => False
  | _ => True

variable {busy : Lock → Bool} {s s' : Store}

variable {id : Uuid} {sets : List RunSet}

theorem jobView_updateRun (h : Writes.apply (Write.updateRun id sets) s = .ok s')
    (k : Option Uuid) :
    jobView s' k = { jobView s k with
      job := if k = some id then (s.runs.get? id).map fun r => summary (assignAll RunSet.assign sets r)
             else (jobView s k).job } := by
  cases h
  cases k with
  | none => rfl
  | some k =>
    have hget := get?_update s.runs id k (assignAll RunSet.assign sets)
      (assignAll_keeps RunSet.ident_assign sets)
    simp only [jobView, Option.bind_some, hget, Option.some.injEq]
    split
    · rename_i hk
      subst hk
      simp only [Option.map_map]
      rfl
    · rfl

theorem jobView_insertEvent {n : RunEvent} (h : Writes.apply (Write.insertEvent n) s = .ok s')
    (k : Option Uuid) : jobView s' k = { jobView s k with
      notices := (jobView s k).notices ++ if isNotice k n = true then [n] else [] } := by
  obtain ⟨t, hins, rfl, -⟩ := apply_insertEvent h
  have hsel := select_insert hins (isNotice k)
  simp only [jobView, hsel]

variable {e : Evaluation}

theorem jobView_insertEvaluation (h : Writes.apply (Write.insertEvaluation e) s = .ok s')
    (k : Option Uuid) :
    jobView s' k = { jobView s k with
      records := (jobView s k).records ++ if e.jobRunId = k then [e] else [] } := by
  obtain ⟨t, hins, rfl⟩ := apply_insertEvaluation h
  have hsel := select_insert hins fun e => e.jobRunId == k
  simp only [jobView, hsel, beq_iff_eq]

theorem jobView_updateEvaluation {sets : List EvaluationSet}
    (h : Writes.apply (Write.updateEvaluation id sets) s = .ok s') (k : Option Uuid) :
    jobView s' k = { jobView s k with
      records := (jobView s k).records.map fun e =>
        if e.id = id then assignAll EvaluationSet.assign sets e else e } := by
  cases h
  have hjob : ∀ e : Evaluation, (assignAll EvaluationSet.assign sets e).jobRunId = e.jobRunId :=
    fun e => congrArg Prod.snd (assignAll_keeps EvaluationSet.ident_assign sets e)
  have hsel := select_update s.evaluations id (assignAll EvaluationSet.assign sets)
    (assignAll_keeps EvaluationSet.ident_assign sets) (fun e => e.jobRunId == k)
    (fun e => by rw [hjob e])
  simp only [jobView, hsel]
  rfl

variable {r : Run}

theorem jobView_insertRun (h : Writes.apply (Write.insertRun r) s = .ok s') (k : Option Uuid) :
    jobView s' k = { jobView s k with
      job := if k = some r.id then some (summary r) else (jobView s k).job } := by
  obtain ⟨t, hins, rfl⟩ := apply_insertRun h
  cases k with
  | none => rfl
  | some k =>
    have hget := get?_insert hins k
    rw [Run.row_id] at hget
    simp only [jobView, Option.bind_some, hget, Option.some.injEq, eq_comm (a := k)]
    split <;> rfl

/-- **Quiet writes leave the job views as they are.** -/
theorem jobView_quiet {w : Write} (h : Writes.apply w s = .ok s') (hw : Quiet s w) :
    jobView s' = jobView s := by
  funext k
  cases w with
  | insertRun r => exact hw.elim
  | insertEvaluation e => exact hw.elim
  | updateEvaluation id sets => exact hw.elim
  | updateRun id sets =>
    rw [jobView_updateRun h]
    split
    · rename_i hk
      subst hk
      have hjob : (s.runs.get? id).map (fun r => summary (assignAll RunSet.assign sets r))
          = (jobView s (some id)).job := Option.map_congr hw
      rw [hjob]
    · rfl
  | insertEvent e =>
    have hnot : isNotice k e = false := by
      rw [isNotice, show isVerdict e.eventType = false from hw, Bool.false_and]
    rw [jobView_insertEvent h, hnot]
    simp
  | _ =>
    cases applied h
    rfl

/-! ### The end of a job -/

theorem quiet_evaluationStatus (id : Uuid) (x : EvaluationStatus) :
    Quiet s (.updateRun id [.evaluationStatus x]) := fun _ _ => rfl

theorem evaluationOfJob_eq (s : Store) (k : Uuid) :
    s.evaluationOfJob k = (jobView s (some k)).records.head? := by
  unfold Store.evaluationOfJob jobView Table.select
  exact List.head?_filter.symm

/-- Assigning columns of the record of one job leaves the records of all others. -/
theorem updateEvaluation_other {k k' : Option Uuid} {sets : List EvaluationSet}
    (he : e ∈ (jobView s k).records) (hk : k' ≠ k) :
    ((jobView s k').records.map fun x =>
      if x.id = e.id then assignAll EvaluationSet.assign sets x else x)
      = (jobView s k').records := by
  obtain ⟨hmem, hjob⟩ := mem_select.mp he
  rw [List.map_congr_left, List.map_id]
  intro x hx
  obtain ⟨hmem', hjob'⟩ := mem_select.mp hx
  have hne : x.id ≠ e.id := by
    intro hid
    rw [eq_of_id_eq hmem' hmem hid] at hjob'
    exact hk ((beq_iff_eq.mp hjob').symm.trans (beq_iff_eq.mp hjob))
  simp only [hne, if_false, id_eq]

/-- The notice a job leaves on its source. -/
def notice (c : Call) (run : Run) (e : Evaluation) : RunEvent :=
  newEvent c run.id 1 e.runId none (.evaluation (jobVerdict run)) [("job_run_id", .uuid run.id)]

theorem isNotice_notice (c : Call) (run : Run) (e : Evaluation) (k : Option Uuid) :
    isNotice k (notice c run e) = decide (some run.id = k) := by
  have hverdict : isVerdict (notice c run e).eventType = true := by
    show isVerdict (.evaluation (jobVerdict run)) = true
    have hne := jobVerdict_ne_pending run
    cases hv : jobVerdict run with
    | pending => exact absurd hv hne
    | _ => rfl
  have hnamed : namedJob (notice c run e) = some run.id := by
    simp [namedJob, notice, newEvent]
  rw [isNotice, hverdict, hnamed, Bool.true_and]
  exact beq_eq_decide _ _

/-- The verdict of the run is in its record, and one notice is on its source. -/
structure Concluded (c : Call) (run : Run) (e : Evaluation) (V V' : Option Uuid → JobView) :
    Prop where
  own : V' (some run.id) = ⟨(V (some run.id)).job,
    [assignAll EvaluationSet.assign (evaluationSets run e) e],
    (V (some run.id)).notices ++ [notice c run e]⟩
  others : ∀ k, k ≠ some run.id → V' k = V k

/-- **Finishing an evaluation job** concludes it and leaves all other jobs as they are; a run of
another kind has nothing to conclude. -/
theorem finalizeEvaluationJob_jobView (c : Call) {run : Run}
    (hrecord : run.workKind = .evaluation → ∃ e, (jobView s (some run.id)).records = [e]) :
    Ensures busy (finalizeEvaluationJob c run) s fun _ s' =>
      (run.workKind ≠ .evaluation → jobView s' = jobView s)
        ∧ (run.workKind = .evaluation → ∃ e, (jobView s (some run.id)).records = [e]
          ∧ Concluded c run e (jobView s) (jobView s')) := by
  unfold finalizeEvaluationJob
  split
  · rename_i hkind
    exact (ensures_done ()).mpr ⟨fun _ => rfl, fun h => absurd h hkind⟩
  · rename_i hkind
    rw [not_not] at hkind
    obtain ⟨e, hrec⟩ := hrecord hkind
    have hmem : e ∈ (jobView s (some run.id)).records := by
      rw [hrec]
      simp
    simp only [bind_eq, ensures_bind, ensures_read, evaluationOfJob_eq, hrec,
      List.head?_cons, ensures_acquire, ensures_exec, ensures_lockedRun]
    intro s1 h1
    -- the record first; the status of the source is no part of a job view
    have hown1 : jobView s1 (some run.id) = { jobView s (some run.id) with
        records := [assignAll EvaluationSet.assign (evaluationSets run e) e] } := by
      rw [jobView_updateEvaluation h1, hrec]
      simp
    have hothers1 : ∀ k, k ≠ some run.id → jobView s1 k = jobView s k := by
      intro k hk
      rw [jobView_updateEvaluation h1, updateEvaluation_other hmem hk]
    have hconclude : ∀ s2 s3, jobView s2 = jobView s1 →
        Writes.apply (Write.insertEvent (notice c run e)) s2 = .ok s3 →
        Concluded c run e (jobView s) (jobView s3) := by
      intro s2 s3 h2 h3
      constructor
      · rw [jobView_insertEvent h3, h2, hown1, isNotice_notice]
        simp
      · intro k hk
        rw [jobView_insertEvent h3, h2, hothers1 k hk, isNotice_notice]
        simp [Ne.symm hk]
    split
    · simp only [ensures_bind, ensures_exec]
      intro s2 h2 s3 h3
      refine ⟨fun h => absurd hkind h, fun _ => ⟨e, rfl, hconclude s2 s3 ?_ h3⟩⟩
      exact jobView_quiet h2 (quiet_evaluationStatus _ _)
    · simp only [ensures_exec]
      intro s2 h2
      exact ⟨fun h => absurd hkind h, fun _ => ⟨e, rfl, hconclude s1 s2 rfl h2⟩⟩

/-! ### Steps of a job -/

/-- The tenant of a run. -/
def tenantOf (s : Store) (id : Uuid) : Option String := (s.runs.get? id).map Run.clientId

/-- What can happen to job `k`; `tenant` names the tenants of the runs. -/
inductive JobStep (tenant : Uuid → Option String) (k : Option Uuid) (v : JobView) : JobView → Prop where
  /-- A run of another kind is accepted. -/
  | accepted {kind : WorkKind} (hnew : v.job = none) (hkind : kind ≠ .evaluation) :
      JobStep tenant k v { v with job := some ⟨kind, none, none⟩ }
  /-- A job is accepted with its record, which is about a run of the same tenant. -/
  | opened {e : Evaluation} {client : String} (hnew : v.job = none) (hstatus : e.status = .pending)
      (hcompleted : e.completedAt = none) (hsource : tenant e.runId = some client)
      (hjob : k.bind tenant = some client) :
      JobStep tenant k v
        { v with job := some ⟨.evaluation, none, none⟩, records := v.records ++ [e] }
  /-- A run of another kind ends. -/
  | ended {kind : WorkKind} {c : Option Timestamp} {t : Timestamp} {verdict : EvaluationStatus}
      (hopen : v.job = some ⟨kind, c, none⟩) (hkind : kind ≠ .evaluation) :
      JobStep tenant k v { v with job := some ⟨kind, some t, some verdict⟩ }
  /-- A job ends: its record shows when and how, and one notice on its source says so. -/
  | concluded {e e' : Evaluation} {n : RunEvent} {c : Option Timestamp} {t : Timestamp}
      {verdict : EvaluationStatus} (hopen : v.job = some ⟨.evaluation, c, none⟩)
      (hrecord : v.records = [e]) (hid : e'.id = e.id) (hrun : e'.runId = e.runId)
      (hstatus : e'.status = verdict) (hcompleted : e'.completedAt = some t)
      (hnotice : n.runId = e.runId) (htype : n.eventType = .evaluation verdict) :
      JobStep tenant k v ⟨some ⟨.evaluation, some t, some verdict⟩, [e'], v.notices ++ [n]⟩

/-- Job `k` takes at most one step. -/
def JobEffect (tenant : Uuid → Option String) (k : Option Uuid) (v v' : JobView) : Prop :=
  v' = v ∨ JobStep tenant k v v'

/-- The record of an evaluation job agrees with it. -/
structure Recorded (tenant : Uuid → Option String) (k : Option Uuid) (v : JobView) (j : JobSummary)
    (e : Evaluation) : Prop where
  only : v.records = [e]
  status : e.status = j.verdict.getD .pending
  completedAt : e.completedAt = j.completedAt
  tenant : ∃ client, tenant e.runId = some client ∧ k.bind tenant = some client
  notices : v.notices.map (fun n => (n.runId, n.eventType))
    = j.verdict.toList.map fun verdict => (e.runId, .evaluation verdict)

/-- A job has its record; what is no job has neither records nor notices. -/
def CoupledView (tenant : Uuid → Option String) (k : Option Uuid) (v : JobView) : Prop :=
  (∃ j e, v.job = some j ∧ j.kind = .evaluation ∧ Recorded tenant k v j e)
    ∨ (∀ j, v.job = some j → j.kind ≠ .evaluation) ∧ v.records = [] ∧ v.notices = []

variable {client : String}

section Steps

variable {tenant tenant' : Uuid → Option String} {k : Option Uuid} {v v' : JobView}

theorem bind_tenant_kept
    (htenant : ∀ id client, tenant id = some client → tenant' id = some client)
    (h : k.bind tenant = some client) : k.bind tenant' = some client := by
  obtain ⟨id, rfl, hid⟩ := Option.bind_eq_some_iff.mp h
  exact htenant id client hid

theorem CoupledView.none (h : CoupledView tenant k v) (hnew : v.job = none) :
    v.records = [] ∧ v.notices = [] := by
  rcases h with ⟨j, e, hjob, -, -⟩ | ⟨-, hempty⟩
  · rw [hnew] at hjob
    exact absurd hjob (by simp)
  · exact hempty

theorem CoupledView.recorded (h : CoupledView tenant k v) {j : JobSummary} (hjob : v.job = some j)
    (hkind : j.kind = .evaluation) : ∃ e, Recorded tenant k v j e := by
  rcases h with ⟨j', e, hjob', -, hrecorded⟩ | ⟨hnone, -⟩
  · rw [hjob] at hjob'
    cases hjob'
    exact ⟨e, hrecorded⟩
  · exact absurd hkind (hnone j hjob)

theorem CoupledView.plain (h : CoupledView tenant k v) {j : JobSummary} (hjob : v.job = some j)
    (hkind : j.kind ≠ .evaluation) : v.records = [] ∧ v.notices = [] := by
  rcases h with ⟨j', e, hjob', hkind', -⟩ | ⟨-, hempty⟩
  · rw [hjob] at hjob'
    cases hjob'
    exact absurd hkind' hkind
  · exact hempty

/-- **One step keeps jobs and records coupled.** -/
theorem CoupledView.step (h : CoupledView tenant k v)
    (htenant : ∀ id client, tenant id = some client → tenant' id = some client)
    (hstep : JobStep tenant' k v v') : CoupledView tenant' k v' := by
  cases hstep with
  | accepted hnew hkind =>
    refine .inr ⟨?_, h.none hnew⟩
    rintro j hj
    cases hj
    exact hkind
  | @opened e client hnew hstatus hcompleted hsource hjob =>
    obtain ⟨hrecords, hnotices⟩ := h.none hnew
    refine .inl ⟨_, e, rfl, rfl, ?_, hstatus, hcompleted, ⟨client, hsource, hjob⟩, ?_⟩
    · simp [hrecords]
    · simp [hnotices]
  | ended hopen hkind =>
    refine .inr ⟨?_, h.plain hopen hkind⟩
    rintro j hj
    cases hj
    exact hkind
  | @concluded e e' n c t verdict hopen hrecord hid hrun hstatus hcompleted hnotice htype =>
    obtain ⟨e0, hrecorded⟩ := h.recorded hopen rfl
    have he : e0 = e := by
      have honly := hrecorded.only
      rw [hrecord] at honly
      exact (List.singleton_inj.mp honly).symm
    subst he
    obtain ⟨client, hsource, hjob⟩ := hrecorded.tenant
    have hempty : v.notices = [] := List.map_eq_nil_iff.mp hrecorded.notices
    refine .inl ⟨_, e', rfl, rfl, rfl, hstatus, hcompleted,
      ⟨client, hrun ▸ htenant _ _ hsource, bind_tenant_kept htenant hjob⟩, ?_⟩
    simp [hempty, hnotice, htype, hrun]

/-- Coupling survives as long as tenants are kept. -/
theorem CoupledView.mono (h : CoupledView tenant k v)
    (htenant : ∀ id client, tenant id = some client → tenant' id = some client) :
    CoupledView tenant' k v := by
  rcases h with ⟨j, e, hjob, hkind, hrecorded⟩ | hplain
  · obtain ⟨client, hsource, hown⟩ := hrecorded.tenant
    exact .inl ⟨j, e, hjob, hkind,
      { hrecorded with tenant := ⟨client, htenant _ _ hsource, bind_tenant_kept htenant hown⟩ }⟩
  · exact .inr hplain

theorem CoupledView.effect (h : CoupledView tenant k v)
    (htenant : ∀ id client, tenant id = some client → tenant' id = some client)
    (heffect : JobEffect tenant' k v v') : CoupledView tenant' k v' := by
  rcases heffect with rfl | hstep
  · exact h.mono htenant
  · exact h.step htenant hstep

end Steps

/-! ### Effects on all jobs -/

/-- Every job takes at most one step. -/
def JobEffects (s s' : Store) : Prop :=
  ∀ k, JobEffect (tenantOf s') k (jobView s k) (jobView s' k)

/-- Jobs and records agree. -/
def Coupled (s : Store) : Prop := ∀ k, CoupledView (tenantOf s) k (jobView s k)

theorem jobEffects_of_eq (h : jobView s' = jobView s) : JobEffects s s' :=
  fun k => .inl (congrFun h k)

/-- One run takes at most one step, and no other does. -/
def JobEffectAt (id : Uuid) (s s' : Store) : Prop :=
  (∀ tenant, JobEffect tenant (some id) (jobView s (some id)) (jobView s' (some id)))
    ∧ ∀ k, k ≠ some id → jobView s' k = jobView s k

theorem JobEffectAt.effects (h : JobEffectAt id s s') : JobEffects s s' := by
  intro k
  by_cases hk : k = some id
  · exact hk ▸ h.1 _
  · exact .inl (h.2 k hk)

theorem JobEffectAt.congr {s1 : Store} (h : JobEffectAt id s1 s') (hsame : jobView s1 = jobView s) :
    JobEffectAt id s s' := by
  unfold JobEffectAt
  rw [← hsame]
  exact h

theorem jobEffectAt_of_eq (h : jobView s' = jobView s) : JobEffectAt id s s' :=
  ⟨fun _ => .inl (congrFun h _), fun k _ => congrFun h k⟩

/-! ### Assignments that end a run and assignments that do not -/

/-- The assignments end a run at `t` with a verdict. -/
def Concludes (t : Timestamp) (verdict : EvaluationStatus) (sets : List RunSet) : Prop :=
  ∀ r, summary (assignAll RunSet.assign sets r) = ⟨r.workKind, some t, some verdict⟩

/-- The assignments leave a run without a verdict. -/
def Continues (sets : List RunSet) : Prop :=
  ∀ r, summary (assignAll RunSet.assign sets r) = ⟨r.workKind, r.completedAt, none⟩

theorem succeedSets_concludes (now : Timestamp) (result : ExecutionResult) :
    Concludes now (if (JsonObject.getD result.resultPayload "passed" .null).truthy
      then .passed else .failed) (succeedSets now result) := by
  intro r
  rw [assign_succeedSets]
  simp [summary, finalVerdict, jobVerdict, isTerminal_iff]

theorem rejectSets_concludes (now : Timestamp) : Concludes now .error (rejectSets now) := by
  intro r
  rw [assign_rejectSets]
  simp [summary, finalVerdict, jobVerdict, isTerminal_iff]

theorem endSets_concludes {status : ExecutionStatus} (hstatus : status = .failed ∨ status = .deadLettered)
    (now : Timestamp) (code : String) : Concludes now .error (endSets status now code) := by
  intro r
  rw [assign_endSets]
  rcases hstatus with rfl | rfl <;> simp [summary, finalVerdict, jobVerdict, isTerminal_iff]

theorem deferSets_continues (t : Timestamp) : Continues (deferSets t) := by
  intro r
  simp [summary, finalVerdict, isTerminal_iff]

theorem startSets_continues (c : Call) (run : Run) (workerId : String) (t : Timestamp) :
    Continues (startSets c run workerId t) := by
  intro r
  simp [summary, finalVerdict, isTerminal_iff]

theorem retrySets_continues (code : String) (t : Timestamp) : Continues (retrySets code t) := by
  intro r
  simp [summary, finalVerdict, isTerminal_iff]

theorem requeueSets_continues : Continues requeueSets := by
  intro r
  simp [summary, finalVerdict, isTerminal_iff]

/-- The job of the view is open: its run has no verdict yet. -/
def OpenJob (v : JobView) (kind : WorkKind) : Prop := ∃ c, v.job = some ⟨kind, c, none⟩

variable {k : Uuid}

theorem openJob_of_row (hrun : s.runs.get? k = some r)
    (hopen : isTerminalExecutionStatus r.executionStatus = false) :
    OpenJob (jobView s (some k)) r.workKind := by
  refine ⟨r.completedAt, ?_⟩
  simp [jobView, hrun, summary, finalVerdict, hopen]

theorem OpenJob.row {kind : WorkKind} (h : OpenJob (jobView s (some k)) kind) :
    ∃ r, s.runs.get? k = some r ∧ r.workKind = kind ∧ finalVerdict r = none := by
  obtain ⟨c, hjob⟩ := h
  simp only [jobView, Option.bind_some, Option.map_eq_some_iff] at hjob
  obtain ⟨r, hrun, hsummary⟩ := hjob
  exact ⟨r, hrun, congrArg JobSummary.kind hsummary, congrArg JobSummary.verdict hsummary⟩

theorem Continues.quiet (h : Continues sets) {kind : WorkKind}
    (hopen : OpenJob (jobView s (some k)) kind) : Quiet s (.updateRun k sets) := by
  intro r hr
  obtain ⟨r', hr', -, hverdict⟩ := hopen.row
  rw [hr] at hr'
  cases hr'
  rw [h r, summary, hverdict]

variable {tenant : Uuid → Option String}

/-- **The end of a run.** Once the assignments are written, finishing its evaluation job completes
one step of the run and leaves all others as they are. -/
theorem conclude_jobEffectAt {c : Call} {run : Run} {t : Timestamp} {verdict : EvaluationStatus}
    {s1 s2 : Store} (hends : Concludes t verdict sets)
    (hcoupled : CoupledView tenant (some run.id) (jobView s (some run.id)))
    (hopen : OpenJob (jobView s (some run.id)) run.workKind)
    (h1 : Writes.apply (Write.updateRun run.id sets) s = .ok s1) (h2 : jobView s2 = jobView s1) :
    Ensures busy (finalizeEvaluationJob c (assignAll RunSet.assign sets run)) s2
      fun _ s' => JobEffectAt run.id s s' := by
  obtain ⟨c0, hjob⟩ := hopen
  obtain ⟨r, hrun, hkind, -⟩ := OpenJob.row ⟨c0, hjob⟩
  -- the row after the assignments, as the service holds it and as it is stored
  have hid : (assignAll RunSet.assign sets run).id = run.id :=
    congrArg Prod.fst (assignAll_keeps RunSet.ident_assign sets run)
  have hkind' : (assignAll RunSet.assign sets run).workKind = run.workKind :=
    assignAll_keeps workKind_assign sets run
  have hcompleted : (assignAll RunSet.assign sets run).completedAt = some t :=
    congrArg JobSummary.completedAt (hends run)
  have hverdict : jobVerdict (assignAll RunSet.assign sets run) = verdict := by
    have hfinal : finalVerdict (assignAll RunSet.assign sets run) = some verdict :=
      congrArg JobSummary.verdict (hends run)
    unfold finalVerdict at hfinal
    split at hfinal
    · exact Option.some.inj hfinal
    · exact absurd hfinal (by simp)
  have hown : jobView s2 (some run.id)
      = { jobView s (some run.id) with job := some ⟨run.workKind, some t, some verdict⟩ } := by
    rw [h2, jobView_updateRun h1, if_pos rfl, hrun, Option.map_some, hends r, hkind]
  have hothers : ∀ k, k ≠ some run.id → jobView s2 k = jobView s k := by
    intro k hk
    rw [h2, jobView_updateRun h1, if_neg hk]
  refine (finalizeEvaluationJob_jobView c ?_).mono ?_
  · intro hevaluation
    obtain ⟨e, hrecorded⟩ := hcoupled.recorded hjob (hkind' ▸ hevaluation)
    refine ⟨e, ?_⟩
    rw [hid, hown]
    exact hrecorded.only
  · rintro _ s' ⟨hplain, hjobs⟩
    by_cases hevaluation : run.workKind = .evaluation
    · obtain ⟨e, hrecords, hconcluded⟩ := hjobs (hkind'.trans hevaluation)
      have hown' := hconcluded.own
      have hothers' := hconcluded.others
      rw [hid, hown] at hown' hrecords
      rw [hid] at hothers'
      refine ⟨fun _ => .inr ?_, fun k hk => (hothers' k hk).trans (hothers k hk)⟩
      rw [hown', hevaluation]
      rw [hevaluation] at hjob
      refine .concluded hjob hrecords ?_ ?_ ?_ ?_ rfl ?_
      · exact congrArg Prod.fst (assignAll_keeps EvaluationSet.ident_assign _ e)
      · exact assignAll_keeps evaluationRunId_assign _ e
      · unfold evaluationSets
        rw [hverdict]
        split <;> rfl
      · unfold evaluationSets
        rw [hcompleted]
        split <;> rfl
      · show EventType.evaluation (jobVerdict _) = _
        rw [hverdict]
    · have hsame := hplain (hkind' ▸ hevaluation)
      refine ⟨fun _ => .inr ?_, fun k hk => (congrFun hsame k).trans (hothers k hk)⟩
      rw [hsame, hown]
      exact .ended hjob hevaluation

/-! ### The operations -/

/-- A run of another kind is accepted. -/
theorem accepted_jobEffects {s1 : Store} (hkind : r.workKind ≠ .evaluation)
    (hsummary : summary r = ⟨r.workKind, none, none⟩)
    (h1 : Writes.apply (Write.insertRun r) s = .ok s1) (h2 : jobView s' = jobView s1) :
    JobEffects s s' := by
  have hfresh : s.runs.get? r.id = none := by
    obtain ⟨t, hins, -⟩ := apply_insertRun h1
    exact get?_insert_fresh hins
  suffices hat : JobEffectAt r.id s s' from hat.effects
  refine ⟨fun tenant => .inr ?_, ?_⟩
  · rw [h2, jobView_insertRun h1, if_pos rfl, hsummary]
    refine .accepted ?_ hkind
    simp [jobView, hfresh]
  · intro k hk
    rw [h2, jobView_insertRun h1, if_neg hk]

/-- Runs keep their tenant. -/
theorem tenantOf_write {w : Write} (h : Writes.apply w s = .ok s')
    (hid : tenantOf s id = some client) : tenantOf s' id = some client := by
  simp only [tenantOf, Option.map_eq_some_iff] at hid ⊢
  obtain ⟨r, hr, hclient⟩ := hid
  obtain ⟨r', hr', haccepted⟩ := runs_stay h _ _ hr
  exact ⟨r', hr', (congrArg Accepted.clientId haccepted).trans hclient⟩

/-- A job is accepted with its record. -/
theorem opened_jobEffects {job : Run} {s1 s2 s3 : Store}
    (hsummary : summary job = ⟨.evaluation, none, none⟩) (hjob : e.jobRunId = some job.id)
    (hstatus : e.status = .pending) (hcompleted : e.completedAt = none)
    (hsource : tenantOf s e.runId = some client) (hclient : job.clientId = client)
    (h1 : Writes.apply (Write.insertRun job) s = .ok s1) (h2 : jobView s2 = jobView s1)
    (h3 : Writes.apply (Write.insertEvaluation e) s2 = .ok s3) (h4 : jobView s' = jobView s3)
    (htenant : ∀ id client, tenantOf s1 id = some client → tenantOf s' id = some client) :
    JobEffects s s' := by
  obtain ⟨t, hins, hs1⟩ := apply_insertRun h1
  have hfresh : s.runs.get? job.id = none := get?_insert_fresh hins
  have hown : tenantOf s1 job.id = some client := by
    rw [tenantOf, hs1]
    show (t.get? job.id).map Run.clientId = _
    rw [get?_insert hins, Run.row_id, if_pos rfl, Option.map_some, hclient]
  intro k
  by_cases hk : k = some job.id
  · subst hk
    right
    rw [h4, jobView_insertEvaluation h3, h2, jobView_insertRun h1, if_pos rfl, if_pos hjob,
      hsummary]
    refine .opened ?_ hstatus hcompleted (htenant _ _ (tenantOf_write h1 hsource))
      (htenant _ _ hown)
    simp [jobView, hfresh]
  · left
    rw [h4, jobView_insertEvaluation h3, h2, jobView_insertRun h1, if_neg hk, hjob,
      if_neg (Ne.symm hk)]
    simp

theorem summary_newRun (c : Call) (clientId principal key hash : String) (kind : WorkKind)
    (input policy : JsonObject) (source : Option Uuid) :
    summary (newRun c clientId principal kind key hash input policy source)
      = ⟨kind, none, none⟩ := by
  simp [summary, finalVerdict, newRun, isTerminal_iff]

section Acceptance

variable [Externals] {svc : RunService} {c : Call} {clientId key : String}
  {input policy : JsonObject} {principalId : Option String} {kind : WorkKind} {runId : Uuid}

theorem submit_jobEffects (hkind : kind ≠ .evaluation) :
    ∀ a s', (submit svc c clientId key input policy principalId kind).run busy s
      = .ok (a, s') → JobEffects s s' := by
  intro a s' h
  cases submit_ok h with
  | found _ _ => exact jobEffects_of_eq rfl
  | @created s1 s2 s3 _ h1 h2 h3 h4 =>
    have hquiet : jobView s3 = jobView s1 :=
      (jobView_quiet h3 rfl).trans (jobView_quiet h2 trivial)
    refine accepted_jobEffects hkind (summary_newRun _ _ _ _ _ _ _ _ _) h1 ?_
    rcases h4 with rfl | ⟨_, h4⟩
    · exact hquiet
    · exact (jobView_quiet h4 rfl).trans hquiet

theorem replay_jobEffects :
    ∀ a s', (replay svc c clientId runId key principalId).run busy s
      = .ok (a, s') → JobEffects s s' := by
  intro a s' h
  cases replay_ok h with
  | found _ _ => exact jobEffects_of_eq rfl
  | created _ _ h1 h2 h3 h4 =>
    exact accepted_jobEffects (by simp [newRun]) (summary_newRun _ _ _ _ _ _ _ _ _) h1
      (((jobView_quiet h4 rfl).trans (jobView_quiet h3 rfl)).trans (jobView_quiet h2 trivial))

/-- An evaluation opens its job with the record. -/
theorem evaluate_jobEffects {rules : List JsonObject} :
    Ensures busy (evaluate svc c clientId runId rules principalId) s
      fun _ s' => JobEffects s s' := by
  refine ensures_evaluate fun source s1 s2 s3 s4 s5 s6 hget hclient h1 h2 h3 h4 h5 h6 => ?_
  have hquiet : jobView s6 = jobView s3 :=
    ((jobView_quiet h6 rfl).trans (jobView_quiet h5 rfl)).trans (jobView_quiet h4 trivial)
  refine opened_jobEffects (summary_newRun _ _ _ _ _ _ _ _ _) rfl rfl rfl ?_
    rfl h1 (jobView_quiet h2 (quiet_evaluationStatus _ _)) h3 hquiet ?_
  · simp [tenantOf, newEvaluation, newRun, hget, hclient]
  · intro id client h
    exact tenantOf_write h6 (tenantOf_write h5 (tenantOf_write h4 (tenantOf_write h3
      (tenantOf_write h2 h))))

end Acceptance

/-! #### Claims and completions -/

section Execution

variable {svc : ExecutionService} {c : Call} {run : Run} {runId attemptId : Uuid}
  {workerId : String}

theorem queued_not_terminal (h : r.executionStatus = .queued) :
    isTerminalExecutionStatus r.executionStatus = false := by
  rw [h]
  rfl

theorem running_not_terminal (h : r.executionStatus = .running) :
    isTerminalExecutionStatus r.executionStatus = false := by
  rw [h]
  rfl

theorem claim_jobEffects (hs : Coupled s) :
    Ensures busy (claim svc c runId workerId) s fun _ s' => JobEffects s s' := by
  cases hrun : s.runs.get? runId with
  | none => exact ensures_claim_missing hrun (jobEffects_of_eq rfl)
  | some run =>
    obtain rfl : run.id = runId := (mem_of_get? hrun).2
    refine ensures_claim hrun (fun _ _ => jobEffects_of_eq rfl) ?_ ?_ ?_
    · intro hqueued _
      have hopen := openJob_of_row hrun (queued_not_terminal hqueued)
      simp only [deferRun, bind_eq, ensures_bind, ensures_ofExcept, ensures_exec,
        pure_eq, ensures_done]
      intro t _ s1 h1
      exact jobEffects_of_eq (jobView_quiet h1 ((deferSets_continues t).quiet hopen))
    · intro hqueued _ policy _
      have hopen := openJob_of_row hrun (queued_not_terminal hqueued)
      simp only [startAttempt, bind_eq, ensures_bind, ensures_ofExcept, ensures_exec,
        pure_eq, ensures_done]
      intro t _ s1 h1 s2 h2 s3 h3
      exact jobEffects_of_eq (((jobView_quiet h3 rfl).trans (jobView_quiet h2 trivial)).trans
        (jobView_quiet h1 ((startSets_continues _ _ _ t).quiet hopen)))
    · intro hqueued _ _ _
      have hopen := openJob_of_row hrun (queued_not_terminal hqueued)
      simp only [rejectRun, bind_eq, ensures_bind, ensures_exec, pure_eq, ensures_done]
      intro s1 h1
      exact (conclude_jobEffectAt (rejectSets_concludes c.now) (hs (some run.id)) hopen h1 rfl).mono
        fun _ _ h => h.effects

theorem openJob_of_active {a : RunAttempt}
    (h : ActiveAttempt s c runId attemptId workerId run a) :
    run.id = runId ∧ OpenJob (jobView s (some runId)) run.workKind :=
  ⟨h.ids.1, openJob_of_row h.run_eq (running_not_terminal (ownsActiveLease_running h.lease))⟩

theorem completeSuccess_jobEffects {result : ExecutionResult} (hs : Coupled s) :
    Ensures busy (completeSuccess c runId attemptId workerId result) s
      fun _ s' => JobEffects s s' := by
  simp only [completeSuccess, bind_eq, ensures_bind]
  refine ensures_activeAttempt ((ensures_done _).mpr (jobEffects_of_eq rfl)) ?_
  intro run a hactive
  obtain ⟨rfl, hopen⟩ := openJob_of_active hactive
  simp only [ensures_bind, ensures_exec, pure_eq, ensures_done]
  intro s1 h1 s2 h2 s3 h3
  have hbefore : jobView s1 = jobView s := jobView_quiet h1 trivial
  rw [← hbefore] at hopen
  refine (conclude_jobEffectAt (succeedSets_concludes c.now result) (hbefore ▸ hs (some run.id)) hopen h2
    (jobView_quiet h3 rfl)).mono ?_
  intro _ s4 heffect
  exact (heffect.congr hbefore).effects

/-- Settling a failed attempt either leaves the job open or concludes it. -/
theorem scheduleRetryOrFinalize_jobEffectAt {a : RunAttempt} {code : String} {recovery : Bool}
    (hcoupled : CoupledView tenant (some run.id) (jobView s (some run.id)))
    (hopen : OpenJob (jobView s (some run.id)) run.workKind) :
    Ensures busy (scheduleRetryOrFinalize c run a code recovery) s
      fun _ s' => JobEffectAt run.id s s' := by
  simp only [scheduleRetryOrFinalize, bind_eq, ensures_bind, ensures_ofExcept]
  intro policy _
  split
  · simp only [ensures_bind, ensures_ofExcept, ensures_exec]
    intro delay _ t _ s1 h1 s2 h2 s3 h3
    have hbefore : jobView s1 = jobView s := jobView_quiet h1 trivial
    rw [← hbefore] at hopen
    exact jobEffectAt_of_eq (((jobView_quiet h3 rfl).trans
      (jobView_quiet h2 ((retrySets_continues code t).quiet hopen))).trans hbefore)
  · simp only [ensures_bind, ensures_exec]
    intro s1 h1
    have hbefore : jobView s1 = jobView s := jobView_quiet h1 trivial
    rw [← hbefore] at hopen hcoupled
    split
    · simp only [ensures_bind, ensures_exec]
      intro s2 h2 s3 h3 s4 h4
      refine (conclude_jobEffectAt (endSets_concludes (.inr rfl) c.now code) hcoupled hopen h2
        ((jobView_quiet h4 rfl).trans (jobView_quiet h3 trivial))).mono ?_
      intro _ s5 heffect
      exact heffect.congr hbefore
    · simp only [ensures_bind, ensures_exec]
      intro s2 h2 s3 h3
      refine (conclude_jobEffectAt (endSets_concludes (.inl rfl) c.now code) hcoupled hopen h2
        (jobView_quiet h3 rfl)).mono ?_
      intro _ s4 heffect
      exact heffect.congr hbefore

theorem completeFailure_jobEffects {code : String} (hs : Coupled s) :
    Ensures busy (completeFailure c runId attemptId workerId code) s
      fun _ s' => JobEffects s s' := by
  simp only [completeFailure, bind_eq, ensures_bind]
  refine ensures_activeAttempt ((ensures_done _).mpr (jobEffects_of_eq rfl)) ?_
  intro run a hactive
  obtain ⟨rfl, hopen⟩ := openJob_of_active hactive
  simp only [ensures_bind, pure_eq, ensures_done]
  exact (scheduleRetryOrFinalize_jobEffectAt (hs (some run.id)) hopen).mono fun _ _ h => h.effects

/-! #### Batches -/

theorem jobEffect_absorbs (tenant : Uuid → Option String) :
    Absorbs (fun v v' : JobView => v' = v) (JobEffect tenant) where
  refl := fun _ => rfl
  trans := fun h h' => h'.trans h
  before := fun h h' => h ▸ h'
  after := fun h h' => h' ▸ h

/-- A loop over a batch takes every job through at most one step, if its body does so for the run
it is given. -/
theorem batch_jobEffects {clause : Run → Bool} {runs : List Run} {f : Run → DbTx Unit}
    (hbatch : Batch s clause runs)
    (hbody : ∀ r ∈ runs, ∀ s1, jobView s1 (some r.id) = jobView s (some r.id) →
      Ensures busy (f r) s1 fun _ s2 => JobEffectAt r.id s1 s2) :
    Ensures busy (forEach runs f) s fun _ s' => JobEffects s s' := by
  intro a s' hrun
  have hnodup : (runs.map fun r => some r.id).Nodup := by
    have hmap := hbatch.nodup.map (Option.some_injective _)
    rwa [List.map_map] at hmap
  have hloop := Ensures.forEach_views (V := jobView) (jobEffect_absorbs (tenantOf s')) hnodup
    (fun r hr s1 hsame => (hbody r hr s1 hsame).mono fun _ _ h => ⟨h.1 _, h.2⟩) a s' hrun
  intro k
  by_cases hk : k ∈ runs.map fun r => some r.id
  · exact hloop.handled k hk
  · exact .inl (hloop.untouched k hk)

theorem recoverExpiredLeases_jobEffects {batchSize : ℕ} (hs : Coupled s) :
    Ensures busy (recoverExpiredLeases c batchSize) s fun _ s' => JobEffects s s' := by
  simp only [recoverExpiredLeases, bind_eq, ensures_bind, pure_eq, ensures_done]
  refine lockBatch_batch.mono ?_
  rintro runs _ ⟨rfl, hbatch⟩
  refine batch_jobEffects hbatch ?_
  intro r hr s1 hsame
  have hrunning := leaseExpired_running (hbatch.selected r hr)
  have hopen := openJob_of_row (hbatch.stored r hr) (running_not_terminal hrunning)
  have hcoupled := hs (some r.id)
  rw [← hsame] at hopen hcoupled
  simp only [recoverRun, bind_eq, ensures_bind, ensures_latestOpenAttempt]
  split
  · exact (ensures_done _).mpr (jobEffectAt_of_eq rfl)
  · exact scheduleRetryOrFinalize_jobEffectAt hcoupled hopen

theorem scheduleDueRetries_jobEffects {batchSize : ℕ} :
    Ensures busy (scheduleDueRetries c batchSize) s fun _ s' => JobEffects s s' := by
  simp only [scheduleDueRetries, bind_eq, ensures_bind, pure_eq, ensures_done]
  refine lockBatch_batch.mono ?_
  rintro runs _ ⟨rfl, hbatch⟩
  refine batch_jobEffects hbatch ?_
  intro r hr s1 hsame
  have hdue := retryDue_scheduled (hbatch.selected r hr)
  have hopen := openJob_of_row (hbatch.stored r hr) (by rw [hdue]; rfl)
  rw [← hsame] at hopen
  simp only [requeueRun, bind_eq, ensures_bind, ensures_exec]
  intro s2 h2 s3 h3 s4 h4
  exact jobEffectAt_of_eq (((jobView_quiet h4 rfl).trans (jobView_quiet h3 trivial)).trans
    (jobView_quiet h2 (requeueSets_continues.quiet hopen)))

/-! #### Charges and dispatches -/

theorem chargeAttempt_jobEffects (limits : QuotaLimits) :
    Ensures busy (chargeAttempt limits c runId attemptId workerId) s
      fun _ s' => JobEffects s s' := by
  have hkeep : Ensures busy (chargeAttempt limits c runId attemptId workerId) s
      fun _ s' => jobView s' = jobView s := by
    refine (chargeAttempt_charges limits c runId attemptId workerId).preserves
      (P := fun s' => jobView s' = jobView s) ?_ s rfl
    intro w s1 s2 hw happly hsame
    refine (jobView_quiet happly ?_).trans hsame
    cases w with
    | insertQuota q => trivial
    | updateQuota scope windowStart used => trivial
    | _ => exact hw.elim
  exact hkeep.mono fun _ _ h => jobEffects_of_eq h

theorem dispatchOne_jobEffects (publish : OutboxEvent → Except String Unit) :
    Ensures busy (dispatchOne c publish) s fun _ s' => JobEffects s s' := by
  simp only [dispatchOne, lockUnpublished, bind_eq, ensures_bind, ensures_acquireFree, ensures_read]
  split
  · exact (ensures_done _).mpr (jobEffects_of_eq rfl)
  · unfold recordOutcome recordPublished recordPublishFailed
    split
    all_goals
      simp only [bind_eq, ensures_bind, ensures_exec, pure_eq, ensures_done]
      intro s1 h1 s2 h2
      exact jobEffects_of_eq ((jobView_quiet h2 rfl).trans (jobView_quiet h1 trivial))

end Execution

/-! ### Reachable stores -/

section Reachable

variable [Externals] {i : Input} {answer : Answer}

/-- **An operation takes every job through at most one step.** -/
theorem run_jobEffects (hs : Coupled s) (h : i.run s = .ok (answer, s')) : JobEffects s s' := by
  have hmap {α : Type} {x : Except PyError (α × Store)} {f : α → Answer}
      (h : (x.map fun p => (f p.1, p.2)) = .ok (answer, s')) :=
    of_map_ok (R := fun _ => JobEffects s) h
  unfold Input.run at h
  split at h
  case h_1 =>
    exact hmap (f := fun a => .run a.1 a.2) h fun _ _ hrun => submit_jobEffects (by simp) _ _ hrun
  case h_2 =>
    exact hmap (f := fun a => .run a.1 a.2) h fun _ _ hrun => submit_jobEffects (by simp) _ _ hrun
  case h_3 => exact hmap h evaluate_jobEffects
  case h_4 => exact hmap (f := fun a => .run a.1 a.2) h fun _ _ hrun => replay_jobEffects _ _ hrun
  case h_5 => exact hmap h (claim_jobEffects hs)
  case h_6 => exact hmap h (completeSuccess_jobEffects hs)
  case h_7 => exact hmap h (completeFailure_jobEffects hs)
  case h_8 => exact hmap h (recoverExpiredLeases_jobEffects hs)
  case h_9 => exact hmap h scheduleDueRetries_jobEffects
  case h_10 =>
    exact hmap (f := fun _ => .unit) h fun _ _ hrun => chargeAttempt_jobEffects _ _ _ hrun
  case h_11 => exact hmap h (dispatchOne_jobEffects _)

theorem tenantOf_run (h : i.run s = .ok (answer, s')) (hid : tenantOf s id = some client) :
    tenantOf s' id = some client :=
  Input.run_preserves (P := fun s => tenantOf s id = some client)
    (fun _ _ _ _ happly hid => tenantOf_write happly hid) hid h

/-- **In every reachable store jobs and records are coupled.** -/
theorem reachable_coupled (h : service.Reachable s) : Coupled s := by
  refine service.reachable_induction ?_ ?_ h
  · intro k
    cases k <;> exact .inr ⟨by simp [service, jobView, Store.empty], rfl, rfl⟩
  · intro s i hs
    rcases service_step_cases s i with ⟨answer, s', hrun, hstep⟩ | ⟨e, -, hstep⟩
    · rw [hstep]
      intro k
      exact (hs k).effect (fun _ _ => tenantOf_run hrun) (run_jobEffects hs hrun k)
    · rw [hstep]
      exact hs

end Reachable

end AgentRuntime.Lifecycle
