import AgentRuntime.Lifecycle.Evaluations

/-!
# The evaluation status of a run

A run carries a summary of its evaluations, the status of the latest one. `evaluate` sets it to
PENDING in the order in which the transactions commit; `_finalize_evaluation_job` sets it only for
the latest evaluation by creation time and id, and the creation time is the start of the
transaction. The two orders can differ, so the summary is right along a run exactly when every
accepted evaluation comes later than the latest one there is, or finds that one unfinished.

* `Summarized`: the summary is that of the latest evaluation;
* `finalizeEvaluationJob_keeps`: the end of a job keeps it, in whatever order jobs end;
* `summarized_append_iff`: when accepting one more evaluation keeps it;
* `summaries_agree_iff`: the exact condition on whole runs.
-/

namespace AgentRuntime.Lifecycle

open Lib Table Domain Database Application Messaging Execution
open Tx hiding exec bind

/-! ### The latest evaluation -/

/-- `a` is not after `b` in the order by creation time and id. -/
def Precedes (a b : Evaluation) : Prop :=
  a.createdAt.micros < b.createdAt.micros
    ∨ a.createdAt.micros = b.createdAt.micros ∧ a.id.value.toNat ≤ b.id.value.toNat

instance (a b : Evaluation) : Decidable (Precedes a b) := inferInstanceAs (Decidable (_ ∨ _))

/-- `e` is the last of the evaluations. -/
structure Latest (es : List Evaluation) (e : Evaluation) : Prop where
  mem : e ∈ es
  last : ∀ x ∈ es, Precedes x e

theorem Precedes.total (a b : Evaluation) : Precedes a b ∨ Precedes b a := by
  unfold Precedes
  omega

theorem Precedes.trans {a b c : Evaluation} (h : Precedes a b) (h' : Precedes b c) :
    Precedes a c := by
  unfold Precedes at *
  omega

theorem Precedes.refl (a : Evaluation) : Precedes a a := .inr ⟨rfl, le_rfl⟩

theorem Precedes.id_eq {a b : Evaluation} (h : Precedes a b) (h' : Precedes b a) : a.id = b.id := by
  refine Uuid.value_toNat_injective (?_ : a.id.value.toNat = b.id.value.toNat)
  unfold Precedes at *
  omega

theorem Latest.id_eq {es : List Evaluation} {e e' : Evaluation} (h : Latest es e)
    (h' : Latest es e') : e.id = e'.id :=
  (h'.last e h.mem).id_eq (h.last e' h'.mem)

/-- The evaluations of a run, in insertion order. -/
def evaluationsOf (s : Store) (k : Uuid) : List Evaluation :=
  s.evaluations.select fun e => e.runId == k

variable {busy : Lock → Bool} {s s' : Store} {k : Uuid}

variable {e : Evaluation}

theorem mem_evaluationsOf : e ∈ evaluationsOf s k ↔ e ∈ s.evaluations.rows ∧ e.runId = k := by
  rw [evaluationsOf, mem_select, beq_iff_eq]

/-- The first of the sorted evaluations is the last of them. -/
theorem latest_of_sorted {es rest : List Evaluation}
    (h : es.insertionSort (fun a b => Precedes b a) = e :: rest) : Latest es e := by
  have hperm := List.perm_insertionSort (fun a b => Precedes b a) es
  have hsorted : (es.insertionSort fun a b => Precedes b a).Pairwise fun a b => Precedes b a := by
    have : Std.Total fun a b : Evaluation => Precedes b a := ⟨fun a b => Precedes.total b a⟩
    have : IsTrans Evaluation fun a b => Precedes b a := ⟨fun _ _ _ h h' => h'.trans h⟩
    exact List.pairwise_insertionSort _ es
  rw [h] at hperm hsorted
  refine ⟨hperm.mem_iff.mp List.mem_cons_self, ?_⟩
  intro x hx
  rcases List.mem_cons.mp (hperm.mem_iff.mpr hx) with rfl | hrest
  · exact .refl x
  · exact (List.pairwise_cons.mp hsorted).1 x hrest

variable {id : Uuid}

/-- **What the services compute as the latest evaluation is the latest evaluation.** -/
theorem latestEvaluation_eq_some :
    s.latestEvaluation k = some id ↔ ∃ e, Latest (evaluationsOf s k) e ∧ e.id = id := by
  have heq : s.latestEvaluation k
      = (((evaluationsOf s k).insertionSort fun a b => Precedes b a).head?).map Evaluation.id := rfl
  rw [heq]
  cases hsort : (evaluationsOf s k).insertionSort fun a b => Precedes b a with
  | nil =>
    have hperm := List.perm_insertionSort (fun a b => Precedes b a) (evaluationsOf s k)
    rw [hsort] at hperm
    have hempty : evaluationsOf s k = [] := hperm.nil_eq.symm
    constructor
    · exact fun h => absurd h (by simp)
    · rintro ⟨e, hlatest, -⟩
      have hmem := hlatest.mem
      rw [hempty] at hmem
      exact absurd hmem (by simp)
  | cons e rest =>
    have hlatest := latest_of_sorted hsort
    simp only [List.head?_cons, Option.map_some, Option.some.injEq]
    constructor
    · exact fun hid => ⟨e, hlatest, hid⟩
    · rintro ⟨e', hlatest', rfl⟩
      exact hlatest.id_eq hlatest'

/-! ### Summaries -/

/-- The summary of a run, if there is one, with its evaluations. -/
structure SummaryView where
  status : Option EvaluationStatus
  evaluations : List Evaluation

def summaryView (s : Store) (k : Uuid) : SummaryView where
  status := (s.runs.get? k).map Run.evaluationStatus
  evaluations := evaluationsOf s k

/-- The summary is NOT_RUN without evaluations and otherwise the status of the latest one. -/
structure Summarized (v : SummaryView) : Prop where
  absent : v.status = none → v.evaluations = []
  notRun : ∀ status, v.status = some status → (status = .notRun ↔ v.evaluations = [])
  latest : ∀ status e, v.status = some status → Latest v.evaluations e → status = e.status

/-- The summaries of all runs are right. -/
def AllSummarized (s : Store) : Prop := ∀ k, Summarized (summaryView s k)

/-- The write leaves every summary and every evaluation as it is. -/
def Neutral : Write → Prop
  | .updateRun _ sets => ∀ r, (assignAll RunSet.assign sets r).evaluationStatus = r.evaluationStatus
  | .insertRun _ => False
  | .insertEvaluation _ => False
  | .updateEvaluation _ _ => False
  | _ => True

theorem summaryView_updateRun {sets : List RunSet}
    (h : Writes.apply (Write.updateRun id sets) s = .ok s') (k : Uuid) :
    summaryView s' k = { summaryView s k with
      status := if k = id then (s.runs.get? id).map fun r =>
          (assignAll RunSet.assign sets r).evaluationStatus
        else (summaryView s k).status } := by
  cases h
  have hget := get?_update s.runs id k (assignAll RunSet.assign sets)
    (assignAll_keeps RunSet.ident_assign sets)
  simp only [summaryView, hget]
  split
  · rename_i hk
    subst hk
    simp only [Option.map_map]
    rfl
  · rfl

theorem summaryView_insertRun {r : Run} (h : Writes.apply (Write.insertRun r) s = .ok s')
    (k : Uuid) : summaryView s' k = { summaryView s k with
      status := if k = r.id then some r.evaluationStatus else (summaryView s k).status } := by
  obtain ⟨t, hins, rfl⟩ := apply_insertRun h
  have hget := get?_insert hins k
  rw [Run.row_id] at hget
  simp only [summaryView, hget, eq_comm (a := k)]
  split <;> rfl

theorem summaryView_insertEvaluation (h : Writes.apply (Write.insertEvaluation e) s = .ok s')
    (k : Uuid) :
    summaryView s' k = { summaryView s k with
      evaluations := (summaryView s k).evaluations ++ if e.runId = k then [e] else [] } := by
  obtain ⟨t, hins, rfl⟩ := apply_insertEvaluation h
  have hsel := select_insert hins fun e => e.runId == k
  simp only [summaryView, evaluationsOf, hsel, beq_iff_eq]

variable {sets : List EvaluationSet}

theorem summaryView_updateEvaluation
    (h : Writes.apply (Write.updateEvaluation id sets) s = .ok s') (k : Uuid) :
    summaryView s' k = { summaryView s k with
      evaluations := (summaryView s k).evaluations.map fun e =>
        if e.id = id then assignAll EvaluationSet.assign sets e else e } := by
  cases h
  have hsel := select_update s.evaluations id (assignAll EvaluationSet.assign sets)
    (assignAll_keeps EvaluationSet.ident_assign sets) (fun e => e.runId == k)
    (fun e => by rw [assignAll_keeps evaluationRunId_assign sets e])
  simp only [summaryView, evaluationsOf, hsel]
  rfl

variable {w : Write}

theorem summaryView_neutral (h : Writes.apply w s = .ok s') (hw : Neutral w) :
    summaryView s' = summaryView s := by
  funext k
  cases w with
  | insertRun r => exact hw.elim
  | insertEvaluation e => exact hw.elim
  | updateEvaluation id sets => exact hw.elim
  | updateRun id sets =>
    rw [summaryView_updateRun h]
    split
    · rename_i hk
      subst hk
      have hstatus : (s.runs.get? k).map
          (fun r => (assignAll RunSet.assign sets r).evaluationStatus)
          = (summaryView s k).status := Option.map_congr fun r _ => hw r
      rw [hstatus]
    · rfl
  | _ =>
    cases applied h
    rfl

theorem AllSummarized.congr (h : AllSummarized s) (heq : summaryView s' = summaryView s) :
    AllSummarized s' := by
  unfold AllSummarized
  rw [heq]
  exact h

theorem keeps_neutral (hw : Neutral w) : Keeps AllSummarized (exec w) :=
  keeps_exec fun _ _ happly h => h.congr (summaryView_neutral happly hw)

/-- A run is accepted without evaluations. -/
theorem AllSummarized.insertRun {r : Run} (h : AllSummarized s) (hstatus : r.evaluationStatus = .notRun)
    (happly : Writes.apply (Write.insertRun r) s = .ok s') : AllSummarized s' := by
  intro k
  rw [summaryView_insertRun happly]
  split
  · rename_i hk
    subst hk
    have hfresh : s.runs.get? r.id = none := by
      obtain ⟨t, hins, -⟩ := apply_insertRun happly
      exact get?_insert_fresh hins
    have hempty : (summaryView s r.id).evaluations = [] :=
      (h r.id).absent (by simp [summaryView, hfresh])
    refine ⟨fun hnone => absurd hnone (by simp), ?_, ?_⟩
    · rintro status hsome
      cases hsome
      exact ⟨fun _ => hempty, fun _ => hstatus⟩
    · intro status e _ hlatest
      have hmem : e ∈ (summaryView s r.id).evaluations := hlatest.mem
      rw [hempty] at hmem
      exact absurd hmem (by simp)
  · exact h k

/-! ### The end of a job -/

section Finalize

variable {es : List Evaluation} {e : Evaluation} {id : Uuid} {sets : List EvaluationSet}

/-- Assign columns of one evaluation of a list. -/
def assignIn (es : List Evaluation) (id : Uuid) (sets : List EvaluationSet) : List Evaluation :=
  es.map fun e => if e.id = id then assignAll EvaluationSet.assign sets e else e

theorem createdAt_assign (c : EvaluationSet) (e : Evaluation) :
    (c.assign e).createdAt = e.createdAt := by
  cases c <;> rfl

/-- Assignments do not move an evaluation in the order. -/
theorem precedes_assigned (a b : Evaluation) :
    Precedes (if a.id = id then assignAll EvaluationSet.assign sets a else a)
        (if b.id = id then assignAll EvaluationSet.assign sets b else b) ↔ Precedes a b := by
  have hid : ∀ e : Evaluation, (if e.id = id then assignAll EvaluationSet.assign sets e else e).id
      = e.id := by
    intro e
    split
    · exact congrArg Prod.fst (assignAll_keeps EvaluationSet.ident_assign sets e)
    · rfl
  have hcreated : ∀ e : Evaluation,
      (if e.id = id then assignAll EvaluationSet.assign sets e else e).createdAt = e.createdAt := by
    intro e
    split
    · exact assignAll_keeps createdAt_assign sets e
    · rfl
  unfold Precedes
  rw [hid, hid, hcreated, hcreated]

theorem latest_assignIn {e' : Evaluation} (h : Latest (assignIn es id sets) e') :
    ∃ e, Latest es e ∧ e' = if e.id = id then assignAll EvaluationSet.assign sets e else e := by
  obtain ⟨e, he, rfl⟩ := List.mem_map.mp h.mem
  refine ⟨e, ⟨he, ?_⟩, rfl⟩
  intro x hx
  exact (precedes_assigned x e).mp (h.last _ (List.mem_map_of_mem hx))

theorem assignIn_eq_nil : assignIn es id sets = [] ↔ es = [] := List.map_eq_nil_iff

/-- The verdict of the latest evaluation becomes the summary. -/
theorem Summarized.verdict {verdict : EvaluationStatus} (he : e ∈ es)
    (hlatest : ∃ x, Latest (assignIn es e.id sets) x ∧ x.id = e.id) (hverdict : verdict ≠ .notRun)
    (hsets : ∀ x, (assignAll EvaluationSet.assign sets x).status = verdict) :
    Summarized ⟨some verdict, assignIn es e.id sets⟩ := by
  refine ⟨fun hnone => absurd hnone (by simp), ?_, ?_⟩
  · rintro status hsome
    cases hsome
    refine ⟨fun h => absurd h hverdict, fun h => ?_⟩
    rw [assignIn_eq_nil.mp h] at he
    exact absurd he (by simp)
  · rintro status x hsome hx
    cases hsome
    obtain ⟨x', hx', hid'⟩ := hlatest
    have hid : x.id = e.id := (hx.id_eq hx').trans hid'
    obtain ⟨x0, -, rfl⟩ := latest_assignIn hx
    split
    · exact (hsets x0).symm
    · rename_i hne
      rw [if_neg hne] at hid
      exact absurd hid hne

/-- The verdict of any other evaluation leaves the summary as it was. -/
theorem Summarized.other {status : EvaluationStatus} (h : Summarized ⟨some status, es⟩)
    (hnot : ¬ ∃ x, Latest (assignIn es e.id sets) x ∧ x.id = e.id) :
    Summarized ⟨some status, assignIn es e.id sets⟩ := by
  refine ⟨fun hnone => absurd hnone (by simp), ?_, ?_⟩
  · rintro status' hsome
    rw [h.notRun status' hsome]
    exact assignIn_eq_nil.symm
  · rintro status' x hsome hx
    obtain ⟨x0, hx0, rfl⟩ := latest_assignIn hx
    have hne : x0.id ≠ e.id := by
      intro hid
      refine hnot ⟨_, hx, ?_⟩
      rw [if_pos hid]
      exact (congrArg Prod.fst (assignAll_keeps EvaluationSet.ident_assign sets x0)).trans hid
    rw [if_neg hne]
    exact h.latest status' x0 hsome hx0

end Finalize

theorem jobVerdict_ne_notRun (r : Run) : jobVerdict r ≠ .notRun := by
  unfold jobVerdict
  split
  · split <;> simp
  · simp

theorem evaluationSets_status (run : Run) (e x : Evaluation) :
    (assignAll EvaluationSet.assign (evaluationSets run e) x).status = jobVerdict run := by
  unfold evaluationSets
  split <;> rfl

/-- Assigning columns of an evaluation leaves the evaluations of other runs. -/
theorem summaryView_updateEvaluation_other
    (h : Writes.apply (Write.updateEvaluation e.id sets) s = .ok s') (he : e ∈ s.evaluations.rows)
    (hk : k ≠ e.runId) : summaryView s' k = summaryView s k := by
  have hmap : (summaryView s k).evaluations.map (fun x =>
      if x.id = e.id then assignAll EvaluationSet.assign sets x else x)
      = (summaryView s k).evaluations := by
    rw [List.map_congr_left, List.map_id]
    intro x hx
    obtain ⟨hmem, hrun⟩ := mem_evaluationsOf.mp hx
    have hne : x.id ≠ e.id := by
      intro hid
      rw [eq_of_id_eq hmem he hid] at hrun
      exact hk hrun.symm
    simp only [hne, if_false, id_eq]
  rw [summaryView_updateEvaluation h, hmap]

/-- **The end of a job keeps the summaries right**, whichever job ends first. -/
theorem finalizeEvaluationJob_keeps (c : Call) (run : Run) :
    Keeps AllSummarized (finalizeEvaluationJob c run) := by
  intro busy s hs
  unfold finalizeEvaluationJob
  split
  · exact (ensures_done ()).mpr hs
  · simp only [bind_eq, ensures_bind, ensures_read]
    split
    · simp
    · rename_i e hfound
      have he : e ∈ s.evaluations.rows := List.mem_of_find?_eq_some hfound
      simp only [ensures_bind, ensures_acquire, ensures_exec, ensures_read, ensures_lockedRun]
      intro s1 h1
      have hview : summaryView s1 e.runId = ⟨(summaryView s e.runId).status,
          assignIn (evaluationsOf s e.runId) e.id (evaluationSets run e)⟩ :=
        summaryView_updateEvaluation h1 e.runId
      have hmem : e ∈ evaluationsOf s e.runId := mem_evaluationsOf.mpr ⟨he, rfl⟩
      have hlatest : s1.latestEvaluation e.runId = some e.id ↔
          ∃ x, Latest (assignIn (evaluationsOf s e.runId) e.id (evaluationSets run e)) x
            ∧ x.id = e.id := by
        rw [latestEvaluation_eq_some, show evaluationsOf s1 e.runId = _ from
          congrArg SummaryView.evaluations hview]
      have hothers : ∀ k, k ≠ e.runId → summaryView s1 k = summaryView s k := fun k hk =>
        summaryView_updateEvaluation_other h1 he hk
      obtain ⟨source, hsource⟩ : ∃ r, s1.runs.get? e.runId = some r := by
        rw [← Option.ne_none_iff_exists']
        intro hnone
        have hempty := (hs e.runId).absent (by
          rw [← show (summaryView s1 e.runId).status = _ from congrArg SummaryView.status hview]
          simp [summaryView, hnone])
        have hcontra : e ∈ (summaryView s e.runId).evaluations := hmem
        rw [hempty] at hcontra
        exact absurd hcontra (by simp)
      have hstatus : (summaryView s e.runId).status = some source.evaluationStatus := by
        rw [← show (summaryView s1 e.runId).status = _ from congrArg SummaryView.status hview]
        simp [summaryView, hsource]
      split
      · rename_i hif
        simp only [ensures_bind, ensures_exec]
        intro s2 h2 s3 h3
        refine AllSummarized.congr ?_ (summaryView_neutral h3 trivial)
        intro k
        rw [summaryView_updateRun h2]
        by_cases hk : k = e.runId
        · subst hk
          rw [if_pos rfl, hview, hsource]
          exact .verdict hmem (hlatest.mp hif.2) (jobVerdict_ne_notRun run)
            (evaluationSets_status run e)
        · rw [if_neg hk, hothers k hk]
          exact hs k
      · rename_i hif
        simp only [ensures_exec]
        intro s2 h2
        refine AllSummarized.congr ?_ (summaryView_neutral h2 trivial)
        intro k
        by_cases hk : k = e.runId
        · subst hk
          rw [hview, hstatus]
          refine Summarized.other ?_ fun hex => hif ⟨by simp [hsource], hlatest.mpr hex⟩
          have hold := hs e.runId
          rw [show summaryView s e.runId = ⟨some source.evaluationStatus, evaluationsOf s e.runId⟩ by
            rw [← hstatus]; rfl] at hold
          exact hold
        · rw [hothers k hk]
          exact hs k

/-! ### The other operations -/

section Operations

variable {c : Call} {run : Run}

theorem scheduleRetryOrFinalize_keeps (a : RunAttempt) (code : String) (recovery : Bool) :
    Keeps AllSummarized (scheduleRetryOrFinalize c run a code recovery) := by
  refine .bind (keeps_of_reads (onlyWrites_ofExcept _)) fun policy => ?_
  dsimp only
  split
  · refine .bind (keeps_of_reads (onlyWrites_ofExcept _)) fun _ =>
      .bind (keeps_of_reads (onlyWrites_ofExcept _)) fun _ => ?_
    exact .bind (keeps_neutral trivial) fun _ => .bind (keeps_neutral fun r => by simp) fun _ =>
      keeps_neutral trivial
  · refine .bind (keeps_neutral trivial) fun _ => ?_
    split
    · exact .bind (keeps_neutral fun r => by simp) fun _ => .bind (keeps_neutral trivial) fun _ =>
        .bind (keeps_neutral trivial) fun _ => finalizeEvaluationJob_keeps _ _
    · exact .bind (keeps_neutral fun r => by simp) fun _ => .bind (keeps_neutral trivial) fun _ =>
        finalizeEvaluationJob_keeps _ _

theorem claimQueued_keeps (svc : ExecutionService) (workerId : String) :
    Keeps AllSummarized (claimQueued svc c run workerId) := by
  have hcapacity : ∀ p limit, Keeps AllSummarized (atCapacity p limit) := fun p limit =>
    keeps_of_reads (.bind (onlyWrites_read _) fun _ => trivial)
  have hdefer : Keeps AllSummarized (deferRun c run) :=
    .bind (keeps_of_reads (onlyWrites_ofExcept _)) fun _ =>
      .bind (keeps_neutral fun r => by simp) fun _ => keeps_done _
  refine .bind (hcapacity _ _) fun full => ?_
  split
  · exact hdefer
  · refine .bind (hcapacity _ _) fun full => ?_
    split
    · exact hdefer
    · refine .bind (keeps_of_reads (onlyWrites_read _)) fun n => ?_
      split
      · exact .bind (keeps_of_reads (onlyWrites_ofExcept _)) fun _ =>
          .bind (keeps_neutral fun r => by simp) fun _ => .bind (keeps_neutral trivial) fun _ =>
            .bind (keeps_neutral trivial) fun _ => keeps_done _
      · exact .bind (keeps_neutral fun r => by simp) fun _ =>
          .bind (finalizeEvaluationJob_keeps _ _) fun _ => keeps_done _
      · exact keeps_raise _

theorem claim_keeps (svc : ExecutionService) (runId : Uuid) (workerId : String) :
    Keeps AllSummarized (claim svc c runId workerId) := by
  refine .bind (keeps_of_reads (onlyWrites_read _)) fun found => ?_
  split
  · exact keeps_done _
  · refine .bind (keeps_of_reads (onlyWrites_lockIdentity _ _)) fun _ =>
      .bind (keeps_of_reads (onlyWrites_lockedRun _)) fun run => ?_
    split
    · exact keeps_done _
    · unfold claimLocked
      split_ifs <;> first | exact keeps_done _ | exact claimQueued_keeps _ _

theorem completeSuccess_keeps (runId attemptId : Uuid) (workerId : String)
    (result : ExecutionResult) :
    Keeps AllSummarized (completeSuccess c runId attemptId workerId result) := by
  refine .bind (keeps_of_reads (onlyWrites_activeAttempt _ _ _ _)) fun found => ?_
  split
  · exact keeps_done _
  · exact .bind (keeps_neutral trivial) fun _ => .bind (keeps_neutral fun r => by simp) fun _ =>
      .bind (keeps_neutral trivial) fun _ => .bind (finalizeEvaluationJob_keeps _ _) fun _ =>
        keeps_done _

theorem completeFailure_keeps (runId attemptId : Uuid) (workerId code : String) :
    Keeps AllSummarized (completeFailure c runId attemptId workerId code) := by
  refine .bind (keeps_of_reads (onlyWrites_activeAttempt _ _ _ _)) fun found => ?_
  split
  · exact keeps_done _
  · exact .bind (scheduleRetryOrFinalize_keeps _ _ _) fun _ => keeps_done _

theorem recoverExpiredLeases_keeps (batchSize : ℕ) :
    Keeps AllSummarized (recoverExpiredLeases c batchSize) := by
  refine .bind (keeps_of_reads (onlyWrites_lockBatch _ _ _)) fun runs =>
    .bind (.forEach ?_ runs) fun _ => keeps_done _
  intro run
  refine .bind (keeps_of_reads (.bind (onlyWrites_read _) fun found => ?_)) fun found => ?_
  · split
    · trivial
    · exact .bind (onlyWrites_acquire _) fun _ => trivial
  · split
    · exact keeps_done _
    · exact scheduleRetryOrFinalize_keeps _ _ _

theorem scheduleDueRetries_keeps (batchSize : ℕ) :
    Keeps AllSummarized (scheduleDueRetries c batchSize) := by
  refine .bind (keeps_of_reads (onlyWrites_lockBatch _ _ _)) fun runs =>
    .bind (.forEach ?_ runs) fun _ => keeps_done _
  intro run
  exact .bind (keeps_neutral fun r => by simp) fun _ => .bind (keeps_neutral trivial) fun _ =>
    keeps_neutral trivial

theorem chargeAttempt_keeps (limits : QuotaLimits) (runId attemptId : Uuid) (workerId : String) :
    Keeps AllSummarized (chargeAttempt limits c runId attemptId workerId) := by
  refine (chargeAttempt_charges limits c runId attemptId workerId).keeps ?_
  intro w s s' hw happly h
  refine h.congr (summaryView_neutral happly ?_)
  cases w with
  | insertQuota q => trivial
  | updateQuota scope windowStart used => trivial
  | _ => exact hw.elim

theorem dispatchOne_keeps (publish : OutboxEvent → Except String Unit) :
    Keeps AllSummarized (dispatchOne c publish) := by
  refine (dispatchOne_delivers c publish).keeps ?_
  intro w s s' hw happly h
  refine h.congr (summaryView_neutral happly ?_)
  cases w with
  | updateOutbox id sets => trivial
  | insertEvent e => trivial
  | _ => exact hw.elim

end Operations

variable {rules : List JsonObject}

section Acceptance

variable [Externals] {svc : RunService} {c : Call} {clientId key : String}
  {input policy : JsonObject} {principalId : Option String} {kind : WorkKind} {runId : Uuid}

omit [Externals] in
theorem AllSummarized.neutral (hs : AllSummarized s) (h : Writes.apply w s = .ok s')
    (hw : Neutral w) : AllSummarized s' := hs.congr (summaryView_neutral h hw)

variable {a : RunSnapshot × Bool}

theorem submit_summarized (hs : AllSummarized s)
    (h : (submit svc c clientId key input policy principalId kind).run busy s = .ok (a, s')) :
    AllSummarized s' := by
  cases submit_ok h with
  | found _ _ => exact hs
  | @created s1 s2 s3 _ h1 h2 h3 h4 =>
    have hs3 : AllSummarized s3 :=
      ((hs.insertRun rfl h1).neutral h2 trivial).neutral h3 trivial
    rcases h4 with rfl | ⟨_, h4⟩
    · exact hs3
    · exact hs3.neutral h4 trivial

theorem replay_summarized (hs : AllSummarized s)
    (h : (replay svc c clientId runId key principalId).run busy s = .ok (a, s')) :
    AllSummarized s' := by
  cases replay_ok h with
  | found _ _ => exact hs
  | created _ _ h1 h2 h3 h4 =>
    exact (((hs.insertRun rfl h1).neutral h2 trivial).neutral h3 trivial).neutral h4 trivial

/-- What an accepted evaluation does to the summaries: PENDING for its run, with one evaluation
more. -/
structure Evaluated (c : Call) (runId : Uuid) (rules : List JsonObject) (s s' : Store) : Prop where
  own : summaryView s' runId = ⟨some .pending,
    evaluationsOf s runId ++ [newEvaluation c runId c.runId rules]⟩
  others : ∀ k, k ≠ runId → Summarized (summaryView s' k)

theorem evaluate_evaluated (hs : AllSummarized s) :
    Ensures busy (evaluate svc c clientId runId rules principalId) s
      fun _ s' => Evaluated c runId rules s s' := by
  refine ensures_evaluate fun source s1 s2 s3 s4 s5 s6 hget _ h1 h2 h3 h4 h5 h6 => ?_
  have hquiet : summaryView s6 = summaryView s3 :=
    ((summaryView_neutral h6 trivial).trans (summaryView_neutral h5 trivial)).trans
      (summaryView_neutral h4 trivial)
  have hne := ne_of_inserted h1 hget
  have hrun1 : s1.runs.get? runId = some source := by
    obtain ⟨t, hins, rfl⟩ := apply_insertRun h1
    exact get?_insert_of_some hins hget
  have hs1 : AllSummarized s1 := hs.insertRun rfl h1
  constructor
  · rw [hquiet, summaryView_insertEvaluation h3, summaryView_updateRun h2,
      summaryView_insertRun h1, if_pos rfl, hrun1]
    simp [newEvaluation, summaryView]
  · intro k hk
    have hsame : summaryView s3 k = summaryView s1 k := by
      rw [summaryView_insertEvaluation h3, summaryView_updateRun h2, if_neg hk,
        if_neg (show (newEvaluation c runId _ rules).runId ≠ k from Ne.symm hk)]
      simp
    rw [hquiet, hsame]
    exact hs1 k

end Acceptance

/-! ### The order of the evaluations -/

/-- One more PENDING evaluation is summarized by PENDING exactly when it is the latest, or the
latest is PENDING as well. -/
theorem summarized_append_iff {es : List Evaluation} (he : e.status = .pending) :
    Summarized ⟨some .pending, es ++ [e]⟩ ↔
      ∀ x, Latest es x → x.status = .pending ∨ ¬ Precedes e x := by
  constructor
  · intro h x hx
    by_cases hprecedes : Precedes e x
    · left
      refine (h.latest .pending x rfl ⟨List.mem_append_left _ hx.mem, ?_⟩).symm
      intro y hy
      rcases List.mem_append.mp hy with hold | hnew
      · exact hx.last y hold
      · rw [List.mem_singleton.mp hnew]
        exact hprecedes
    · exact .inr hprecedes
  · intro h
    refine ⟨fun hnone => absurd hnone (by simp), ?_, ?_⟩
    · rintro status hsome
      cases hsome
      simp
    · rintro status x hsome hx
      cases hsome
      rcases List.mem_append.mp hx.mem with hold | hnew
      · have hlatest : Latest es x :=
          ⟨hold, fun y hy => hx.last y (List.mem_append_left _ hy)⟩
        rcases h x hlatest with hpending | hnot
        · exact hpending.symm
        · exact absurd (hx.last e (by simp)) hnot
      · rw [List.mem_singleton.mp hnew, he]

/-- The summary of run `r` is NOT_RUN exactly if it has no evaluations, and otherwise the status of
its latest evaluation. -/
structure SummaryAgrees (s : Store) (r : Run) : Prop where
  notRun : r.evaluationStatus = .notRun ↔ ∀ e ∈ s.evaluations.rows, e.runId ≠ r.id
  latest : ∀ e, Latest (evaluationsOf s r.id) e → r.evaluationStatus = e.status

section Runs

variable [Externals]

theorem allSummarized_iff (hreach : service.Reachable s) :
    AllSummarized s ↔ ∀ r ∈ s.runs.rows, SummaryAgrees s r := by
  have hnil : ∀ k, evaluationsOf s k = [] ↔ ∀ e ∈ s.evaluations.rows, e.runId ≠ k := by
    intro k
    rw [List.eq_nil_iff_forall_not_mem]
    simp only [mem_evaluationsOf, not_and, ne_eq]
  constructor
  · intro h r hr
    have hstatus : (summaryView s r.id).status = some r.evaluationStatus := by
      have hget : s.runs.get? r.id = some r := get?_eq_some_iff.mpr ⟨hr, rfl⟩
      simp [summaryView, hget]
    refine ⟨?_, fun e he => (h r.id).latest _ e hstatus he⟩
    rw [(h r.id).notRun _ hstatus]
    exact hnil r.id
  · intro h k
    have hrow : ∀ status, (summaryView s k).status = some status →
        ∃ r ∈ s.runs.rows, r.id = k ∧ r.evaluationStatus = status := by
      intro status hstatus
      obtain ⟨r, hget, hr⟩ := Option.map_eq_some_iff.mp hstatus
      obtain ⟨hmem, hid⟩ := mem_of_get? hget
      exact ⟨r, hmem, hid, hr⟩
    refine ⟨?_, ?_, ?_⟩
    · intro hnone
      refine (hnil k).mpr fun e he hk => ?_
      have hsource := (reachable_jobsRecorded hreach).source e he
      rw [hk, Store.hasRun] at hsource
      have hget : s.runs.get? k = none := Option.map_eq_none_iff.mp hnone
      rw [hget] at hsource
      exact absurd hsource (by simp)
    · intro status hstatus
      obtain ⟨r, hr, rfl, rfl⟩ := hrow status hstatus
      rw [(h r hr).notRun]
      exact (hnil r.id).symm
    · intro status e hstatus he
      obtain ⟨r, hr, rfl, rfl⟩ := hrow status hstatus
      exact (h r hr).latest e he

/-- An evaluation that is accepted comes after the latest one of its run, by the start of its
transaction and its id, or finds that one unfinished. -/
def EvaluatesInOrder (s : Store) (i : Input) : Prop :=
  ∀ svc clientId runId rules principalId,
    i.op = .evaluate svc clientId runId rules principalId → (service.step s i).1.isOk = true →
      ∀ x, Latest (evaluationsOf s runId) x → x.status = .pending
        ∨ x.createdAt.micros < i.call.txNow.micros
        ∨ x.createdAt.micros = i.call.txNow.micros
          ∧ x.id.value.toNat < i.call.evaluationId.value.toNat

omit [Externals] in
theorem not_precedes_new {c : Call} {runId jobRunId : Uuid} {x : Evaluation} :
    ¬ Precedes (newEvaluation c runId jobRunId rules) x ↔
      x.createdAt.micros < c.txNow.micros
        ∨ x.createdAt.micros = c.txNow.micros ∧ x.id.value.toNat < c.evaluationId.value.toNat := by
  simp only [Precedes, newEvaluation]
  omega

/-- Every operation but `evaluate` keeps the summaries right. -/
theorem run_summarized (hs : AllSummarized s) {i : Input} {answer : Answer}
    (hop : ∀ svc clientId runId rules principalId,
      i.op ≠ .evaluate svc clientId runId rules principalId)
    (h : i.run s = .ok (answer, s')) : AllSummarized s' := by
  have hmap {α : Type} {x : Except PyError (α × Store)} {f : α → Answer}
      (h : (x.map fun p => (f p.1, p.2)) = .ok (answer, s')) :=
    of_map_ok (R := fun _ => AllSummarized) h
  unfold Input.run at h
  split at h
  case h_1 => exact hmap (f := fun a => .run a.1 a.2) h fun _ _ hrun => submit_summarized hs hrun
  case h_2 => exact hmap (f := fun a => .run a.1 a.2) h fun _ _ hrun => submit_summarized hs hrun
  case h_3 hi => exact absurd hi (hop _ _ _ _ _)
  case h_4 => exact hmap (f := fun a => .run a.1 a.2) h fun _ _ hrun => replay_summarized hs hrun
  case h_5 => exact hmap h (claim_keeps _ _ _ _ s hs)
  case h_6 => exact hmap h (completeSuccess_keeps _ _ _ _ _ s hs)
  case h_7 => exact hmap h (completeFailure_keeps _ _ _ _ _ s hs)
  case h_8 => exact hmap h (recoverExpiredLeases_keeps _ _ s hs)
  case h_9 => exact hmap h (scheduleDueRetries_keeps _ _ s hs)
  case h_10 =>
    exact hmap (f := fun _ => .unit) h fun _ _ hrun => chargeAttempt_keeps _ _ _ _ _ s hs _ _ hrun
  case h_11 => exact hmap h (dispatchOne_keeps _ _ s hs)

/-- **One step.** The summaries stay right exactly if the step accepts evaluations in order. -/
theorem step_allSummarized_iff (hs : AllSummarized s) (i : Input) :
    AllSummarized (service.step s i).2 ↔ EvaluatesInOrder s i := by
  rcases service_step_cases s i with ⟨answer, s', hrun, hstep⟩ | ⟨e, -, hstep⟩
  · by_cases hop : ∃ svc clientId runId rules principalId,
        i.op = .evaluate svc clientId runId rules principalId
    · obtain ⟨svc, clientId, runId, rules, principalId, hop⟩ := hop
      have hevaluated : Evaluated i.call runId rules s s' := by
        simp only [Input.run, hop] at hrun
        exact of_map_ok (R := fun _ s' => Evaluated i.call runId rules s s') hrun
          (evaluate_evaluated hs)
      have hall : AllSummarized s' ↔ Summarized (summaryView s' runId) := by
        refine ⟨fun h => h runId, fun h k => ?_⟩
        by_cases hk : k = runId
        · exact hk ▸ h
        · exact hevaluated.others k hk
      rw [hstep, hall, hevaluated.own, summarized_append_iff rfl]
      constructor
      · intro h svc' clientId' runId' rules' principalId' hop' _ x hx
        rw [hop] at hop'
        cases hop'
        exact (h x hx).imp_right not_precedes_new.mp
      · intro h x hx
        have horder := h _ _ _ _ _ hop (by rw [hstep]; rfl) x hx
        exact horder.imp_right not_precedes_new.mpr
    · push Not at hop
      rw [hstep]
      refine iff_of_true (run_summarized hs hop hrun) ?_
      intro svc clientId runId rules principalId hi
      exact absurd hi (hop _ _ _ _ _)
  · rw [hstep]
    refine iff_of_true hs ?_
    intro svc clientId runId rules principalId _ hok
    rw [hstep] at hok
    exact absurd hok Bool.false_ne_true

/-- **Summaries and evaluations.** Along a run the evaluation status of every run agrees with its
evaluations exactly when every accepted evaluation comes after the latest one there is or finds it
unfinished. -/
theorem summaries_agree_iff (inputs : List Input) :
    (∀ is, is <+: inputs → ∀ r ∈ (service.after is).runs.rows,
        SummaryAgrees (service.after is) r)
      ↔ ∀ e ∈ service.history inputs, EvaluatesInOrder e.before e.input := by
  rw [← service.always_iff (P := AllSummarized) ?_ fun s i _ hs => step_allSummarized_iff hs i]
  · exact forall_congr' fun is => imp_congr_right fun _ => (allSummarized_iff ⟨is, rfl⟩).symm
  · intro k
    refine ⟨fun _ => rfl, fun status h => ?_, fun status e h => ?_⟩
    · exact absurd h (by simp [summaryView, service, Store.empty])
    · exact absurd h (by simp [summaryView, service, Store.empty])

end Runs

/-- The worker reports the result of an evaluation job. -/
def sampleVerdict (seconds n job attempt : ℕ) (passed : Bool) : Input :=
  sampleInput seconds n (.completeSuccess (sampleUuid job) (sampleUuid attempt) "worker"
    ⟨"deterministic", [("passed", .bool passed)], none⟩)

/-- A run is evaluated twice. The second evaluation began its transaction at second 9, before the
first one did, waited for its locks, and was accepted after the first one had passed. -/
def sampleLateEvaluation : List Input :=
  [sampleSubmit 0 1 [], sampleClaim 1 2 1, sampleSucceed 2 3 1 2,
    sampleEvaluate 10 4 1, sampleClaim 11 5 4, sampleVerdict 12 6 4 5 true,
    { sampleEvaluate 13 7 1 with call := { sampleCall 13 7 with txNow := sampleTime 9 } },
    sampleClaim 14 8 7, sampleVerdict 15 9 7 8 false]

/-- Both evaluations are finished and the run is PENDING for good. -/
theorem late_evaluation_stays_pending :
    let s := sampleService.after sampleLateEvaluation
    (s.runs.get? (sampleUuid 1)).map Run.evaluationStatus = some .pending
      ∧ s.evaluations.rows.map (fun e => (e.runId, e.createdAt.micros, e.status))
        = [(sampleUuid 1, 10000000, .passed), (sampleUuid 1, 9000000, .failed)] := by
  decide +kernel

end AgentRuntime.Lifecycle
