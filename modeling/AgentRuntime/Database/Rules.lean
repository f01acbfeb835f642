import AgentRuntime.Database.Service
import AgentRuntime.Lib.Ensures

/-!
# Rules for the statements the services share

One postcondition rule for every helper of the services: the locks and reads that change nothing,
the checks that can only raise, and the batch selection. Proofs about a service method use these
rules and never unfold a helper.
-/

namespace AgentRuntime.Database

open Lib Tx Table Domain Application

variable {busy : Lock → Bool} {s : Store}

/-! ### Locks and lookups -/

@[simp] theorem run_lockIdentity (principal tenant : String) :
    (lockIdentity principal tenant).run busy s = .ok ((), s) := by
  unfold lockIdentity
  split <;> rfl

@[simp] theorem run_lockedRun (runId : Uuid) :
    (lockedRun runId).run busy s = .ok (s.runs.get? runId, s) := rfl

@[simp] theorem run_lockedAttempt (attemptId : Uuid) :
    (lockedAttempt attemptId).run busy s = .ok (s.attempts.get? attemptId, s) := rfl

@[simp] theorem run_nextAttemptNumber (runId : Uuid) :
    (nextAttemptNumber runId).run busy s = .ok (nextNumber (s.attemptsOf runId), s) := rfl

@[simp] theorem run_atCapacity (p : Run → Bool) (limit : ℤ) :
    (atCapacity p limit).run busy s
      = .ok (decide (limit ≤ (countRuns s p [.running] : ℤ)), s) := rfl

@[simp] theorem run_latestOpenAttempt (runId : Uuid) :
    (latestOpenAttempt runId).run busy s = .ok (latestOpen (s.attemptsOf runId), s) := by
  simp only [latestOpenAttempt, bind_eq, run_bind, run_read, ok_bind]
  cases latestOpen (s.attemptsOf runId) <;> rfl

@[simp] theorem ensures_lockIdentity {Q : Unit → Store → Prop} (principal tenant : String) :
    Ensures busy (lockIdentity principal tenant) s Q ↔ Q () s :=
  ensures_of_run_ok (run_lockIdentity principal tenant)

@[simp] theorem ensures_lockedRun {Q : Option Run → Store → Prop} (runId : Uuid) :
    Ensures busy (lockedRun runId) s Q ↔ Q (s.runs.get? runId) s :=
  ensures_of_run_ok (run_lockedRun runId)

@[simp] theorem ensures_lockedAttempt {Q : Option RunAttempt → Store → Prop} (attemptId : Uuid) :
    Ensures busy (lockedAttempt attemptId) s Q ↔ Q (s.attempts.get? attemptId) s :=
  ensures_of_run_ok (run_lockedAttempt attemptId)

@[simp] theorem ensures_findByIdempotencyKey {Q : Option Run → Store → Prop}
    (clientId key : String) :
    Ensures busy (findByIdempotencyKey clientId key) s Q ↔ Q (s.keyHolder clientId key) s :=
  ensures_read _

@[simp] theorem ensures_getIdempotentRunAfterRace {Q : Run → Store → Prop}
    (clientId key : String) :
    Ensures busy (getIdempotentRunAfterRace clientId key) s Q ↔
      ∀ run, s.keyHolder clientId key = some run → Q run s := by
  simp only [getIdempotentRunAfterRace, bind_eq, ensures_bind, ensures_findByIdempotencyKey]
  cases s.keyHolder clientId key <;> simp

@[simp] theorem ensures_getRunForClient {Q : Run → Store → Prop} (clientId : String)
    (runId : Uuid) :
    Ensures busy (getRunForClient clientId runId) s Q ↔
      ∀ run, s.runForClient clientId runId = some run → Q run s := by
  simp only [getRunForClient, bind_eq, ensures_bind, ensures_read]
  cases s.runForClient clientId runId <;> simp

variable {run : Run}

theorem runForClient_eq_some {clientId : String} {runId : Uuid} :
    s.runForClient clientId runId = some run ↔
      s.runs.get? runId = some run ∧ run.clientId = clientId := by
  simp [Store.runForClient, Option.filter_eq_some_iff]

/-- At most one run of a client holds a key. -/
theorem keyHolder_eq_some {clientId key : String} :
    s.keyHolder clientId key = some run ↔
      run ∈ s.runs.rows ∧ run.clientId = clientId ∧ run.idempotencyKey = key := by
  unfold Store.keyHolder
  constructor
  · intro h
    have hmatch := List.find?_some h
    rw [Bool.and_eq_true, beq_iff_eq, beq_iff_eq] at hmatch
    exact ⟨List.mem_of_find?_eq_some h, hmatch⟩
  · rintro ⟨hmem, rfl, rfl⟩
    cases hfind : s.runs.rows.find? fun r =>
        r.clientId == run.clientId && r.idempotencyKey == run.idempotencyKey with
    | none => exact absurd (List.find?_eq_none.mp hfind run hmem) (by simp)
    | some r =>
      have hmatch := List.find?_some hfind
      rw [Bool.and_eq_true, beq_iff_eq, beq_iff_eq] at hmatch
      have hclash : (Row.ident r : Row.Ident Run).2 = (Row.ident run : Row.Ident Run).2 :=
        Prod.ext hmatch.1 hmatch.2
      rw [eq_of_clash (List.mem_of_find?_eq_some hfind) hmem
        (Bool.or_eq_true_iff.mpr (.inr (beq_iff_eq.mpr hclash)))
        (Bool.or_eq_true_iff.mpr (.inr (beq_iff_eq.mpr hclash.symm)))]

@[simp] theorem ensures_nextAttemptNumber {Q : ℕ → Store → Prop} (runId : Uuid) :
    Ensures busy (nextAttemptNumber runId) s Q ↔ Q (nextNumber (s.attemptsOf runId)) s :=
  ensures_of_run_ok (run_nextAttemptNumber runId)

@[simp] theorem ensures_latestOpenAttempt {Q : Option RunAttempt → Store → Prop} (runId : Uuid) :
    Ensures busy (latestOpenAttempt runId) s Q ↔ Q (latestOpen (s.attemptsOf runId)) s :=
  ensures_of_run_ok (run_latestOpenAttempt runId)

/-! ### Checks -/

theorem checkActive_unchanged (p : Run → Bool) (limit : ℤ) :
    Ensures busy (checkActive p limit) s fun _ s' => s' = s := by
  simp only [checkActive, bind_eq, ensures_bind, ensures_read]
  split <;> simp

theorem checkScopeBudget_unchanged (window : ℤ) (scope : String) (limit : ℤ) :
    Ensures busy (checkScopeBudget window scope limit) s fun _ s' => s' = s := by
  simp only [checkScopeBudget, bind_eq, ensures_bind, ensures_read]
  split
  · simp
  · split
    · simp
    · split <;> simp

/-- Admission only reads. -/
theorem checkAdmission_unchanged (epoch : ℤ) (principal tenant : String) (limits : QuotaLimits) :
    Ensures busy (checkAdmission epoch principal tenant limits) s fun _ s' => s' = s := by
  simp only [checkAdmission, checkProviderBudget, bind_eq, ensures_bind]
  refine (checkActive_unchanged _ _).mono ?_
  rintro _ _ rfl
  refine (checkActive_unchanged _ _).mono ?_
  rintro _ _ rfl
  refine (checkScopeBudget_unchanged _ _ _).mono ?_
  rintro _ _ rfl
  exact checkScopeBudget_unchanged _ _ _

/-! ### Claims -/

/-- The running quota of the run's principal or tenant is used up. -/
def runningQuotaFull (quotas : QuotaLimits) (s : Store) (run : Run) : Prop :=
  quotas.principalRunning ≤
      countRuns s (ofPrincipal (orElseText run.principalId run.clientId)) [.running]
    ∨ quotas.tenantRunning ≤ countRuns s (ofTenant run.clientId) [.running]

instance (quotas : QuotaLimits) (s : Store) (run : Run) :
    Decidable (runningQuotaFull quotas s run) :=
  inferInstanceAs (Decidable (_ ∨ _))

section Claims

variable {svc : ExecutionService} {c : Call} {run : Run} {workerId : String}

theorem run_claim_queued (hrun : s.runs.get? run.id = some run)
    (hqueued : run.executionStatus = .queued) :
    (claim svc c run.id workerId).run busy s = (claimQueued svc c run workerId).run busy s := by
  have hnot : ¬ isTerminalExecutionStatus run.executionStatus = true := by
    simp [isTerminal_iff, hqueued]
  have hrunning : ¬ run.executionStatus = .running := by simp [hqueued]
  simp only [claim, bind_eq, run_bind, run_read, ok_bind, hrun, run_lockIdentity,
    run_lockedRun, claimLocked, if_neg hnot, if_neg hrunning, if_neg (not_not.mpr hqueued)]

theorem run_if_atCapacity {α : Type} (p : Run → Bool) (limit : ℤ) (x y : DbTx α) :
    ((atCapacity p limit).bind fun full => if full then x else y).run busy s
      = if limit ≤ countRuns s p [.running] then x.run busy s else y.run busy s := by
  rw [run_bind, run_atCapacity, ok_bind]
  by_cases h : limit ≤ countRuns s p [.running]
  · rw [decide_eq_true h, if_pos rfl, if_pos h]
  · rw [decide_eq_false h, if_neg Bool.false_ne_true, if_neg h]

theorem run_claimQueued_full (hquota : runningQuotaFull svc.quotas s run) :
    (claimQueued svc c run workerId).run busy s = (deferRun c run).run busy s := by
  simp only [claimQueued, bind_eq, run_if_atCapacity]
  split
  · rfl
  · rename_i hprincipal
    rw [if_pos (hquota.resolve_left hprincipal)]

theorem run_claimQueued_free (hquota : ¬ runningQuotaFull svc.quotas s run) :
    (claimQueued svc c run workerId).run busy s
      = (claimUnderQuota svc c run workerId).run busy s := by
  obtain ⟨hprincipal, htenant⟩ := not_or.mp hquota
  simp only [claimQueued, bind_eq, run_if_atCapacity]
  rw [if_neg hprincipal, if_neg htenant]

/-- **Claims.** What a claim does to an existing run, by its status, its quotas and its policy. -/
theorem ensures_claim {Q : ClaimResult → Store → Prop} (hrun : s.runs.get? run.id = some run)
    (hother : run.executionStatus ≠ .queued → ∀ a, Q a s)
    (hdefer : run.executionStatus = .queued → runningQuotaFull svc.quotas s run →
      Ensures busy (deferRun c run) s Q)
    (hstart : run.executionStatus = .queued → ¬ runningQuotaFull svc.quotas s run →
      ∀ policy, claimPolicy svc run (nextNumber (s.attemptsOf run.id)) = .ok policy →
        Ensures busy
          (startAttempt svc c run workerId (nextNumber (s.attemptsOf run.id)) policy) s Q)
    (hreject : run.executionStatus = .queued → ¬ runningQuotaFull svc.quotas s run →
      ∀ message, claimPolicy svc run (nextNumber (s.attemptsOf run.id))
        = .error (.valueError message) → Ensures busy (rejectRun c run) s Q) :
    Ensures busy (claim svc c run.id workerId) s Q := by
  by_cases hqueued : run.executionStatus = .queued
  · unfold Ensures
    rw [run_claim_queued hrun hqueued]
    by_cases hquota : runningQuotaFull svc.quotas s run
    · rw [run_claimQueued_full hquota]
      exact hdefer hqueued hquota
    · rw [run_claimQueued_free hquota]
      have hcases : Ensures busy (claimUnderQuota svc c run workerId) s Q := by
        simp only [claimUnderQuota, bind_eq, ensures_bind, ensures_nextAttemptNumber]
        split
        · exact hstart hqueued hquota _ ‹_›
        · exact hreject hqueued hquota _ ‹_›
        · exact (ensures_raise _).mpr trivial
      exact hcases
  · simp only [claim, bind_eq, ensures_bind, ensures_read, hrun, ensures_lockIdentity,
      ensures_lockedRun, claimLocked, ne_eq, hqueued, not_false_eq_true, if_true]
    split
    · exact (ensures_done _).mpr (hother hqueued _)
    split
    · split <;> exact (ensures_done _).mpr (hother hqueued _)
    · exact (ensures_done _).mpr (hother hqueued _)

theorem ensures_claim_missing {Q : ClaimResult → Store → Prop} {runId : Uuid}
    (hnone : s.runs.get? runId = none) (hQ : Q ⟨.missing, runId, none⟩ s) :
    Ensures busy (claim svc c runId workerId) s Q := by
  simp only [claim, bind_eq, ensures_bind, ensures_read, hnone]
  exact (ensures_done _).mpr hQ

end Claims

/-! ### Completions -/

/-- The attempt a completion call may write to: open, of that run, under the caller's lease. -/
structure ActiveAttempt (s : Store) (c : Call) (runId attemptId : Uuid) (workerId : String)
    (run : Run) (attempt : RunAttempt) : Prop where
  run_eq : s.runs.get? runId = some run
  attempt_eq : s.attempts.get? attemptId = some attempt
  lease : ownsActiveLease run workerId c.now = true
  belongs : attempt.runId = run.id
  isOpen : attempt.finishedAt = none

variable {runId attemptId : Uuid} {c : Call} {workerId : String}

theorem ActiveAttempt.ids {run : Run} {a : RunAttempt}
    (h : ActiveAttempt s c runId attemptId workerId run a) :
    run.id = runId ∧ a.id = attemptId ∧ a ∈ s.attempts.rows :=
  ⟨(mem_of_get? h.run_eq).2, (mem_of_get? h.attempt_eq).2,
    (mem_of_get? h.attempt_eq).1⟩

theorem ensures_activeAttempt {Q : Option (Run × RunAttempt) → Store → Prop} (hnone : Q none s)
    (hsome : ∀ run attempt, ActiveAttempt s c runId attemptId workerId run attempt →
      Q (some (run, attempt)) s) :
    Ensures busy (activeAttempt c runId attemptId workerId) s Q := by
  simp only [activeAttempt, bind_eq, ensures_bind, ensures_lockedRun]
  split
  · exact (ensures_done _).mpr hnone
  · rename_i run hrun
    split
    · exact (ensures_done _).mpr hnone
    · rename_i hlease
      simp only [ensures_bind, ensures_lockedAttempt]
      split
      · exact (ensures_done _).mpr hnone
      · rename_i attempt hattempt
        split
        · exact (ensures_done _).mpr hnone
        · rename_i hopen
          rw [not_or, not_not, not_not] at hopen
          exact (ensures_done _).mpr
            (hsome run attempt ⟨hrun, hattempt, not_not.mp hlease, hopen.1, hopen.2⟩)

theorem run_activeAttempt_some {attempt : RunAttempt}
    (h : ActiveAttempt s c runId attemptId workerId run attempt) :
    (activeAttempt c runId attemptId workerId).run busy s = .ok (some (run, attempt), s) := by
  have hopen : ¬ (attempt.runId ≠ run.id ∨ attempt.finishedAt ≠ none) := by
    simp [h.belongs, h.isOpen]
  simp only [activeAttempt, bind_eq, run_bind, run_lockedRun, ok_bind, h.run_eq,
    if_neg (not_not.mpr h.lease), run_lockedAttempt, h.attempt_eq, if_neg hopen]
  rfl

/-- A completion call without an active attempt reads and does nothing else. -/
theorem run_activeAttempt_none
    (h : ∀ run attempt, ¬ ActiveAttempt s c runId attemptId workerId run attempt) :
    (activeAttempt c runId attemptId workerId).run busy s = .ok (none, s) := by
  simp only [activeAttempt, bind_eq, run_bind, run_lockedRun, ok_bind]
  split
  · rfl
  · rename_i run hrun
    split
    · rfl
    · rename_i hlease
      simp only [run_bind, run_lockedAttempt, ok_bind]
      split
      · rfl
      · rename_i attempt hattempt
        split
        · rfl
        · rename_i hopen
          rw [not_or, not_not, not_not] at hopen
          exact absurd ⟨hrun, hattempt, not_not.mp hlease, hopen.1, hopen.2⟩ (h run attempt)

/-! ### Batches -/

theorem latestOpen_eq_some {attempts : List RunAttempt} {a : RunAttempt}
    (h : latestOpen attempts = some a) : a ∈ attempts ∧ a.finishedAt = none := by
  have hmem := List.mem_of_mem_head? h
  rw [List.mem_insertionSort, List.mem_filter] at hmem
  exact ⟨hmem.1, Option.isNone_iff_eq_none.mp hmem.2⟩

theorem filterMap_map_sublist {α β : Type} {f : α → Option β} {g : β → α}
    (h : ∀ a b, f a = some b → g b = a) (xs : List α) :
    ((xs.filterMap f).map g).Sublist xs := by
  induction xs with
  | nil => exact List.Sublist.refl []
  | cons x xs ih =>
    cases hx : f x with
    | none =>
      rw [List.filterMap_cons_none hx]
      exact ih.cons x
    | some b =>
      rw [List.filterMap_cons_some hx, List.map_cons, h x b hx]
      exact ih.cons_cons x

/-- A batch holds stored rows that satisfy the clause, each once. -/
structure Batch (s : Store) (clause : Run → Bool) (runs : List Run) : Prop where
  stored : ∀ r ∈ runs, s.runs.get? r.id = some r
  selected : ∀ r ∈ runs, clause r = true
  nodup : (runs.map Run.id).Nodup

theorem lockedRow_eq_some {l : Lock} {r : Run} (h : s.lockedRow l = some r) :
    l = .run r.id ∧ s.runs.get? r.id = some r := by
  cases l with
  | run id =>
    have hget : s.runs.get? id = some r := h
    obtain ⟨-, hid⟩ := mem_of_get? hget
    have hid' : r.id = id := hid
    rw [hid']
    exact ⟨rfl, hget⟩
  | _ => exact absurd h (by simp [Store.lockedRow])

variable {clause : Run → Bool} {column : Run → Option Timestamp} {batchSize : ℕ}

theorem mem_batchLocks {l : Lock} (h : l ∈ batchLocks clause column batchSize s busy) :
    ∃ r ∈ s.runs.rows, clause r = true ∧ l = .run r.id := by
  have hsorted := List.mem_of_mem_filter (List.mem_of_mem_take h)
  rw [List.mem_map] at hsorted
  obtain ⟨r, hr, rfl⟩ := hsorted
  rw [List.mem_insertionSort] at hr
  obtain ⟨hmem, hclause⟩ := mem_select.mp hr
  exact ⟨r, hmem, hclause, rfl⟩

theorem runLocks_nodup {runs : List Run} :
    (runs.map fun r => Lock.run r.id).Nodup ↔ (runs.map Run.id).Nodup := by
  have hmap : (runs.map fun r => Lock.run r.id) = (runs.map Run.id).map Lock.run := by
    rw [List.map_map]
    rfl
  rw [hmap, List.nodup_map_iff fun _ _ h => Lock.run.inj h]

theorem batchLocks_nodup : (batchLocks clause column batchSize s busy).Nodup := by
  refine List.Nodup.sublist (List.take_sublist _ _) (List.Nodup.filter _ ?_)
  have hids : ((s.runs.select clause).map Run.id).Nodup :=
    s.runs.ids_nodup.sublist (List.filter_sublist.map _)
  exact (List.Perm.nodup_iff ((List.perm_insertionSort _ _).map _)).mpr (runLocks_nodup.mpr hids)

theorem run_lockBatch : (lockBatch clause column batchSize).run busy s
    = .ok ((batchLocks clause column batchSize s busy).filterMap s.lockedRow, s) := rfl

/-- **Batch selection.** -/
theorem lockBatch_batch :
    Ensures busy (lockBatch clause column batchSize) s
      fun runs s' => s' = s ∧ Batch s clause runs := by
  simp only [lockBatch, bind_eq, ensures_bind, ensures_acquireFree, ensures_read, true_and]
  refine ⟨?_, ?_, ?_⟩
  · intro r hr
    obtain ⟨l, -, hl⟩ := List.mem_filterMap.mp hr
    exact (lockedRow_eq_some hl).2
  · intro r hr
    obtain ⟨l, hmem, hl⟩ := List.mem_filterMap.mp hr
    obtain ⟨hlock, hget⟩ := lockedRow_eq_some hl
    obtain ⟨q, hq, hclause, hlq⟩ := mem_batchLocks hmem
    rw [hlock] at hlq
    rw [eq_of_id_eq (mem_of_get? hget).1 hq (Lock.run.inj hlq)]
    exact hclause
  · have hsub := filterMap_map_sublist (fun l r h => (lockedRow_eq_some (s := s) h).1.symm)
      (batchLocks clause column batchSize s busy)
    exact runLocks_nodup.mp (batchLocks_nodup.sublist hsub)

end AgentRuntime.Database
