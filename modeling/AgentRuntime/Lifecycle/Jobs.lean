import AgentRuntime.Database.Footprint
import AgentRuntime.Lifecycle.View

/-!
# Evaluation jobs have their records

`_finalize_evaluation_job` raises if a job has no evaluation. None of the operations can get
there: `evaluate` is the only one that inserts a job, with its evaluation in the same transaction,
and no operation deletes a row or changes what ties the two together.

* `JobsRecorded`: every evaluation job has an evaluation, and every evaluation has its source;
* `JobsRecorded.write`: writes keep it as long as they insert no job;
* `reachable_jobsRecorded`: it holds in every reachable store.
-/

namespace AgentRuntime.Lifecycle

open Lib Table Domain Database Application Messaging Execution

/-- Every evaluation job has an evaluation, apart from the one whose acceptance is still going on,
and every evaluation has its source run. -/
structure JobsRecorded (pending : Option Uuid) (s : Store) : Prop where
  source : ∀ e ∈ s.evaluations.rows, s.hasRun e.runId = true
  record : ∀ r ∈ s.runs.rows, r.workKind = .evaluation → pending ≠ some r.id →
    ∃ e ∈ s.evaluations.rows, e.jobRunId = some r.id

/-- The write inserts no evaluation job. -/
def NoJob (w : Write) : Prop := ∀ r, w = .insertRun r → r.workKind ≠ .evaluation

variable {w : Write}

theorem noJob_of_accepts {P : Run → Prop} (h : Accepts P w)
    (hP : ∀ r, P r → r.workKind ≠ .evaluation) : NoJob w := by
  rintro r rfl
  exact hP r h

theorem noJob_of_executes (h : Executes w) : NoJob w :=
  noJob_of_accepts h fun _ hr => hr.elim

theorem noJob_of_delivers (h : Delivers w) : NoJob w := by
  rintro r rfl
  exact h.elim

/-! ### What writes do to runs and evaluations -/

section Writes

variable {s s' : Store} {w : Write} {pending : Option Uuid}

variable {id : Uuid}

theorem hasRun_iff : s.hasRun id = true ↔ ∃ r ∈ s.runs.rows, r.id = id := by
  unfold Store.hasRun
  rw [Option.isSome_iff_exists]
  simp only [get?_eq_some_iff]
  exact Iff.rfl

theorem workKind_assign (c : RunSet) (r : Run) : (c.assign r).workKind = r.workKind := by
  cases c <;> rfl

theorem evaluationRunId_assign (c : EvaluationSet) (e : Evaluation) :
    (c.assign e).runId = e.runId := by
  cases c <;> rfl

/-- A stored run keeps its id and kind. -/
theorem run_kept (h : Writes.apply w s = .ok s') {r : Run} (hr : r ∈ s.runs.rows) :
    ∃ r' ∈ s'.runs.rows, r'.id = r.id ∧ r'.workKind = r.workKind := by
  obtain ⟨r', hget, haccepted⟩ := runs_stay h _ _ (get?_eq_some_iff.mpr ⟨hr, rfl⟩)
  exact ⟨r', (mem_of_get? hget).1, congrArg Accepted.id haccepted,
    congrArg Accepted.workKind haccepted⟩

theorem hasRun_write (h : Writes.apply w s = .ok s') (hid : s.hasRun id = true) :
    s'.hasRun id = true := by
  obtain ⟨r, hr⟩ := Option.isSome_iff_exists.mp hid
  obtain ⟨r', hr', -⟩ := runs_stay h _ _ hr
  exact Option.isSome_iff_exists.mpr ⟨r', hr'⟩

/-- A run after a write was inserted by it, or stored before under the same id and kind. -/
theorem run_before (h : Writes.apply w s = .ok s') {r' : Run} (hr' : r' ∈ s'.runs.rows) :
    w = .insertRun r' ∨ ∃ r ∈ s.runs.rows, r'.id = r.id ∧ r'.workKind = r.workKind := by
  rcases (apply_change h).runs with heq | ⟨r0, hw, hins⟩ | ⟨id, sets, -, heq⟩
  · exact .inr ⟨r', heq ▸ hr', rfl, rfl⟩
  · rw [(insert?_eq_some hins).1, List.mem_append, List.mem_singleton] at hr'
    rcases hr' with hold | rfl
    · exact .inr ⟨r', hold, rfl, rfl⟩
    · exact .inl hw
  · rw [heq] at hr'
    obtain ⟨r, hr, rfl⟩ := mem_update hr'
    refine .inr ⟨r, hr, ?_, ?_⟩
    · split
      · exact congrArg Prod.fst (assignAll_keeps RunSet.ident_assign sets r)
      · rfl
    · split
      · exact assignAll_keeps workKind_assign sets r
      · rfl

/-- A stored evaluation keeps its job. -/
theorem evaluation_kept (h : Writes.apply w s = .ok s') {e : Evaluation}
    (he : e ∈ s.evaluations.rows) : ∃ e' ∈ s'.evaluations.rows, e'.jobRunId = e.jobRunId := by
  rcases (apply_change h).evaluations with heq | ⟨e0, -, hins, -⟩ | ⟨id, sets, heq⟩
  · exact ⟨e, heq ▸ he, rfl⟩
  · refine ⟨e, ?_, rfl⟩
    rw [(insert?_eq_some hins).1]
    exact List.mem_append_left _ he
  · rw [heq]
    refine ⟨_, List.mem_map_of_mem he, ?_⟩
    split
    · exact congrArg Prod.snd (assignAll_keeps EvaluationSet.ident_assign sets e)
    · rfl

/-- The source of an evaluation after a write is stored. -/
theorem evaluation_source (h : Writes.apply w s = .ok s')
    (hsource : ∀ e ∈ s.evaluations.rows, s.hasRun e.runId = true) :
    ∀ e' ∈ s'.evaluations.rows, s'.hasRun e'.runId = true := by
  have hkept : ∀ e ∈ s.evaluations.rows, s'.hasRun e.runId = true := fun e he =>
    hasRun_write h (hsource e he)
  cases applied h with
  | insertEvaluation e hins hrun => exact forall_insert hins hkept hrun
  | updateEvaluation id sets =>
    refine forall_update (assignAll_keeps EvaluationSet.ident_assign sets) hkept fun e he => ?_
    rw [assignAll_keeps evaluationRunId_assign sets e]
    exact he
  | _ => exact hkept

/-- **Writes that insert no job keep the records.** -/
theorem JobsRecorded.write (hw : NoJob w) (h : Writes.apply w s = .ok s')
    (hs : JobsRecorded pending s) : JobsRecorded pending s' := by
  refine ⟨evaluation_source h hs.source, ?_⟩
  intro r' hr' hkind hpending
  rcases run_before h hr' with hinsert | ⟨r, hr, hid, hkind'⟩
  · exact absurd hkind (hw r' hinsert)
  · obtain ⟨e, he, hjob⟩ := hs.record r hr (hkind' ▸ hkind) (hid ▸ hpending)
    obtain ⟨e', he', hjob'⟩ := evaluation_kept h he
    exact ⟨e', he', hjob'.trans (hid ▸ hjob)⟩

/-- Inserting a job leaves its record pending. -/
theorem JobsRecorded.insertJob {job : Run} (h : Writes.apply (Write.insertRun job) s = .ok s')
    (hs : JobsRecorded none s) : JobsRecorded (some job.id) s' := by
  refine ⟨evaluation_source h hs.source, ?_⟩
  intro r' hr' hkind hpending
  rcases run_before h hr' with hinsert | ⟨r, hr, hid, hkind'⟩
  · cases hinsert
    exact absurd rfl hpending
  · obtain ⟨e, he, hjob⟩ := hs.record r hr (hkind' ▸ hkind) (by simp)
    obtain ⟨e', he', hjob'⟩ := evaluation_kept h he
    exact ⟨e', he', hjob'.trans (hid ▸ hjob)⟩

/-- Inserting its evaluation completes the job. -/
theorem JobsRecorded.insertRecord {e : Evaluation}
    (h : Writes.apply (Write.insertEvaluation e) s = .ok s') (hjob : e.jobRunId = some id)
    (hs : JobsRecorded (some id) s) : JobsRecorded none s' := by
  have hkept : JobsRecorded (some id) s' := hs.write (fun r hr => absurd hr (by simp)) h
  refine ⟨hkept.source, ?_⟩
  intro r hr hkind _
  by_cases hid : r.id = id
  · obtain ⟨t, hins, rfl⟩ := apply_insertEvaluation h
    refine ⟨e, ?_, hid ▸ hjob⟩
    rw [show _ from (insert?_eq_some hins).1]
    simp
  · exact hkept.record r hr hkind (fun heq => hid (Option.some.inj heq).symm)

end Writes

/-! ### Reachable stores -/

section Reachable

variable [Externals] {svc : RunService} {c : Call} {clientId : String}
  {principalId : Option String} {busy : Lock → Bool} {s : Store}

/-- An evaluation is accepted together with its record. -/
theorem evaluate_jobsRecorded {runId : Uuid} {rules : List JsonObject}
    (hs : JobsRecorded none s) :
    Tx.Ensures busy (evaluate svc c clientId runId rules principalId) s
      fun _ s' => JobsRecorded none s' := by
  have hkeep : ∀ {w : Write} {pending s s'}, Writes.apply w s = .ok s' → Executes w →
      JobsRecorded pending s → JobsRecorded pending s' := fun happly hw h =>
    h.write (noJob_of_executes hw) happly
  refine ensures_evaluate fun source s1 s2 s3 s4 s5 s6 _ _ h1 h2 h3 h4 h5 h6 => ?_
  have hrecord := (hkeep h2 trivial (hs.insertJob h1)).insertRecord h3 rfl
  exact hkeep h6 trivial (hkeep h5 trivial (hkeep h4 rfl hrecord))

/-- The other operations insert no job. -/
theorem footprint_noJob {i : Input}
    (hop : ∀ svc clientId runId rules principalId,
    i.op ≠ .evaluate svc clientId runId rules principalId) (hw : i.footprint w) : NoJob w := by
  unfold Input.footprint at hw
  cases hi : i.op with
  | submit _ _ _ _ _ _ =>
    rw [hi] at hw
    refine noJob_of_accepts hw ?_
    rintro _ rfl
    simp [submittedRun, newRun]
  | submitRegression _ _ _ _ _ =>
    rw [hi] at hw
    refine noJob_of_accepts hw ?_
    rintro _ rfl
    simp [submittedRun, newRun]
  | evaluate _ _ _ _ _ => exact absurd hi (hop _ _ _ _ _)
  | replay _ _ _ _ _ =>
    rw [hi] at hw
    refine noJob_of_accepts hw ?_
    rintro _ ⟨source, rfl⟩
    simp [replayedRun, newRun]
  | dispatchOne _ =>
    rw [hi] at hw
    exact noJob_of_delivers hw
  | _ =>
    rw [hi] at hw
    exact noJob_of_executes hw

/-- **Every evaluation job of every reachable store has its record.** -/
theorem reachable_jobsRecorded (h : service.Reachable s) : JobsRecorded none s := by
  refine service.reachable_induction ⟨by simp [service, Store.empty],
    by simp [service, Store.empty]⟩ ?_ h
  intro s i hs
  rcases service_step_cases s i with ⟨answer, s', hrun, hstep⟩ | ⟨e, -, hstep⟩
  · rw [hstep]
    by_cases hop : ∃ svc clientId runId rules principalId,
        i.op = .evaluate svc clientId runId rules principalId
    · obtain ⟨svc, clientId, runId, rules, principalId, hop⟩ := hop
      simp only [Input.run, hop] at hrun
      exact Tx.of_map_ok (R := fun _ s' => JobsRecorded none s') hrun (evaluate_jobsRecorded hs)
    · push Not at hop
      exact Input.run_preserves (fun _ _ _ hw happly hs => hs.write (footprint_noJob hop hw) happly)
        hs hrun
  · rw [hstep]
    exact hs

end Reachable

end AgentRuntime.Lifecycle
