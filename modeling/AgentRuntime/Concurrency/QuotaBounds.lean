import AgentRuntime.Concurrency.Charging

/-!
# The quotas hold in every interleaving

All operations obey the discipline, so what it guarantees holds along every interleaving of their
statements. In particular the counts that `check_admission` and `claim` bound are bounded in every
committed state, although completions, recovery and scheduling move runs between the statuses without
taking the identity locks.

* `Post`, `request_obeys`: how each operation ends, and that it obeys;
* `sound`: every reachable configuration of the system is sound;
* `active_within_quota`, `running_within_quota`: the bounds.
-/

namespace AgentRuntime.Concurrency

open Lib Domain Application Database Lifecycle Messaging Execution

/-- The limits an operation works under, if any, are the given ones. -/
def Uses (limits : QuotaLimits) (i : Input) : Prop :=
  match i.op with
  | .submit svc _ _ _ _ _ => svc.quotas = limits
  | .submitRegression svc _ _ _ _ => svc.quotas = limits
  | .evaluate svc _ _ _ _ => svc.quotas = limits
  | .replay svc _ _ _ _ => svc.quotas = limits
  | .claim svc _ _ => svc.quotas = limits
  | .charge quotas _ _ _ => quotas = limits
  | _ => True

/-- What an operation has done when it commits with an answer. -/
def Post (i : Input) (answer : Answer) (L : List (Hold Resource)) (ws : List Write) (v : Store) :
    Prop :=
  match i.op with
  | .submit _ clientId key _ _ _ =>
    ∃ p, answer = .run p.1 p.2 ∧ AcceptPost i.call clientId key p ws v
  | .submitRegression _ clientId _ _ key =>
    ∃ p, answer = .run p.1 p.2 ∧ AcceptPost i.call clientId key p ws v
  | .replay _ clientId _ key _ =>
    ∃ p, answer = .run p.1 p.2 ∧ AcceptPost i.call clientId key p ws v
  | .claim _ runId _ =>
    ∃ result, answer = .claim result ∧ ClaimPost i.call runId result ws v ∧ ∀ w ∈ ws, Works w
  | .charge quotas runId attemptId workerId =>
    ∃ run, Charged quotas i.call runId attemptId workerId run L ws v
  | _ => ∀ w ∈ ws, ¬ Charges w

section

variable [Externals] {limits : Option QuotaLimits}

omit [Externals] in
/-- Work that spends nothing. -/
theorem follows_spares {α : Type} {t : DbTx α} {v : Store}
    (ht : t.OnlyWrites fun w => Works w ∧ Closes w)
    (h : Follows limits (fun _ _ _ _ => True) t [] [] v) :
    Follows limits (fun _ _ ws _ => ∀ w ∈ ws, ¬ Charges w) t [] [] v :=
  (h.onlyWrites ht (by simp)).mono fun _ _ _ _ hall w hw => (hall.2 w hw).1.spares

omit [Externals] in
theorem request_of_tx {α : Type} {t : DbTx α} {f : α → Answer}
    {R : α → List (Hold Resource) → List Write → Store → Prop}
    {R' : Answer → List (Hold Resource) → List Write → Store → Prop}
    (h : ∀ v, Follows limits R t [] [] v) (hf : ∀ a L ws v, R a L ws v → R' (f a) L ws v) :
    (t.toRequest.map f).Obeys locking (storeDiscipline limits) R' :=
  (Tx.toRequest_obeys fun v _ => h v).map hf

/-- **Every operation obeys.** -/
theorem request_obeys (i : Input) (hi : ∀ l ∈ limits, Uses l i) :
    (request i).Obeys locking (storeDiscipline limits) (Post i) := by
  have hagrees {quotas : QuotaLimits} (h : ∀ l ∈ limits, quotas = l) : Agrees limits quotas :=
    fun l hl => (h l hl).symm
  obtain ⟨op, c, busy⟩ := i
  cases op with
  | submit svc clientId key input policy principalId =>
    refine Request.Obeys.map (Q := fun p _ => AcceptPost c clientId key p)
      ⟨fun v _ => submit_follows (hagrees hi), fun e t ht v _ => submit_handler_follows ht⟩
      fun p L ws v h => ⟨p, rfl, h⟩
  | submitRegression svc clientId principalId payload key =>
    refine Request.Obeys.map (Q := fun p _ => AcceptPost c clientId key p)
      ⟨fun v _ => submit_follows (hagrees hi), fun e t ht v _ => submit_handler_follows ht⟩
      fun p L ws v h => ⟨p, rfl, h⟩
  | evaluate svc clientId runId rules principalId =>
    exact request_of_tx (fun v => evaluate_follows (hagrees hi)) fun _ _ _ _ h => h
  | replay svc clientId runId key principalId =>
    refine Request.Obeys.map (Q := fun p _ => AcceptPost c clientId key p)
      ⟨fun v _ => replay_follows (hagrees hi), fun e t ht v _ => replay_handler_follows ht⟩
      fun p L ws v h => ⟨p, rfl, h⟩
  | claim svc runId workerId =>
    refine request_of_tx (fun v => (claim_follows (hagrees hi)).onlyWrites
      ((claim_works svc c runId workerId).mono fun _ h => h.1) (by simp))
      fun result L ws v h => ⟨result, rfl, h⟩
  | completeSuccess runId attemptId workerId result =>
    exact request_of_tx (fun v => follows_spares (completeSuccess_works c runId attemptId workerId
      result) completeSuccess_follows) fun _ _ _ _ h => h
  | completeFailure runId attemptId workerId errorCode =>
    exact request_of_tx (fun v => follows_spares (completeFailure_works c runId attemptId workerId
      errorCode) completeFailure_follows) fun _ _ _ _ h => h
  | recoverExpiredLeases batchSize =>
    exact request_of_tx (fun v => follows_spares (recoverExpiredLeases_works c batchSize)
      recoverExpiredLeases_follows) fun _ _ _ _ h => h
  | scheduleDueRetries batchSize =>
    exact request_of_tx (fun v => follows_spares (scheduleDueRetries_works c batchSize)
      scheduleDueRetries_follows) fun _ _ _ _ h => h
  | charge quotas runId attemptId workerId =>
    exact request_of_tx (fun v => chargeAttempt_follows (hagrees hi)) fun _ _ _ _ h => h
  | dispatchOne publish =>
    refine request_of_tx (fun v => dispatchOne_follows.onlyWrites (dispatchOne_delivers c publish)
      (by simp)) fun _ _ ws _ h w hw => (h.2 w hw).spares

/-- **Soundness of the system.** If the processes agree on limits, the discipline keeps these. -/
theorem sound (limits : Option QuotaLimits) (events : List (Event Input))
    (huses : ∀ i, .start i ∈ events → ∀ l ∈ limits, Uses l i) :
    Sound locking (storeDiscipline limits) Post (system.after events) :=
  sound_after (P := fun i => ∀ l ∈ limits, Uses l i) request_obeys (storeInv_empty limits) events huses

end

/-! ### Active and running work -/

section

variable [Externals]

/-- **Active work.** In every committed state at most as many runs of a principal and of a tenant are
queued, running or waiting for a retry as the quotas allow. Settings keep the limits positive. -/
theorem active_within_quota (limits : QuotaLimits) (events : List (Event Input))
    (huses : ∀ i, .start i ∈ events → Uses limits i) :
    (∀ principal, (countRuns (system.after events).store (ofPrincipal principal) activeStatuses : ℤ)
        ≤ max limits.principalActive 0)
      ∧ ∀ tenant, (countRuns (system.after events).store (ofTenant tenant) activeStatuses : ℤ)
        ≤ max limits.tenantActive 0 := by
  have hinv := (sound (some limits) events (by simpa using huses)).inv
  exact ⟨fun principal => hinv.bounded limits rfl .active (.principal principal),
    fun tenant => hinv.bounded limits rfl .active (.tenant tenant)⟩

/-- Two submissions and then two claims, each pair statement by statement in turn. -/
def sampleTurns : List (Event Input) :=
  [.start (sampleSubmit 0 1 []),
      .start (sampleInput 0 2 (.submit sampleRunService "tenant" "other" [] [] none))]
    ++ (List.replicate 21 [Event.step 0, .step 1]).flatten
    ++ [.start (sampleClaim 1 3 1), .start (sampleClaim 1 4 2)]
    ++ (List.replicate 18 [Event.step 2, .step 3]).flatten

omit [Externals] in
theorem active_within_quota_in_turns :
    (sampleSystem.after sampleTurns).store.runs.rows.map Run.executionStatus
        = [.running, .retryScheduled]
      ∧ countRuns (sampleSystem.after sampleTurns).store (ofPrincipal "tenant") activeStatuses = 2
      ∧ (countRuns (sampleSystem.after sampleTurns).store (ofPrincipal "tenant") activeStatuses : ℤ)
        ≤ max QuotaLimits.default.principalActive 0 := by
  refine ⟨by decide +kernel, by decide +kernel,
    (@active_within_quota sampleExternals QuotaLimits.default _ ?_).1 _⟩
  intro i hi
  simp only [sampleTurns, List.mem_append, List.mem_cons, List.mem_flatten, List.mem_replicate,
    Event.start.injEq, List.not_mem_nil, or_false] at hi
  rcases hi with (((rfl | rfl) | ⟨l, ⟨-, rfl⟩, hl⟩) | rfl | rfl) | ⟨l, ⟨-, rfl⟩, hl⟩
  · rfl
  · rfl
  · simp at hl
  · rfl
  · rfl
  · simp at hl

omit [Externals] in
/-- The store after a claim has put off a queued run. -/
theorem deferred_store {runId : Uuid} {t : Timestamp} {r : Run} {s s' : Store}
    (hr : s.runs.get? runId = some r)
    (h : applyAll [Write.updateRun runId (deferSets t)] s = .ok s') :
    s'.attempts = s.attempts ∧ s'.runs.get? runId
      = some { r with executionStatus := .retryScheduled, nextAttemptAt := some t } := by
  obtain ⟨s1, happly, hnil⟩ := applyAll_cons_ok.mp h
  cases hnil
  cases happly
  refine ⟨rfl, ?_⟩
  rw [Table.get?_update, if_pos rfl, hr]
  simp

/-- The next step of session `n` commits a claim that was refused for capacity: the run is queued, and
the answer is `NOT_READY` nevertheless. -/
def Refuses (c : Config Input Store Write Lock PyError Answer Resource) (n : ℕ) (runId : Uuid)
    (now : Timestamp) (run : Run) : Prop :=
  ∃ svc workerId call busy result handler held writes,
    c.sessions[n]? = some ⟨⟨.claim svc runId workerId, call, busy⟩,
      .running (.done (.claim result)) handler held writes⟩
    ∧ result.decision = .notReady ∧ call.now = now
    ∧ c.store.runs.get? runId = some run ∧ run.executionStatus = .queued

/-- Whether `Refuses` holds, and for which run. -/
def refusal (c : Config Input Store Write Lock PyError Answer Resource) (n : ℕ) (runId : Uuid)
    (now : Timestamp) : Option Run :=
  match c.sessions[n]? with
  | some ⟨⟨.claim _ id _, call, _⟩, .running (.done (.claim result)) _ _ _⟩ =>
    if id = runId ∧ result.decision = .notReady ∧ call.now = now then
      (c.store.runs.get? runId).filter fun r => decide (r.executionStatus = .queued)
    else none
  | _ => none

omit [Externals] in
theorem refuses_of_refusal {c : Config Input Store Write Lock PyError Answer Resource} {n : ℕ}
    {runId : Uuid} {now : Timestamp} {run : Run} (h : refusal c n runId now = some run) :
    Refuses c n runId now run := by
  unfold refusal at h
  split at h
  · rename_i svc id workerId call busy result handler held writes hx
    split at h
    · rename_i hif
      obtain ⟨rfl, hdecision, hnow⟩ := hif
      obtain ⟨hrun, hqueued⟩ := Option.filter_eq_some_iff.mp h
      exact ⟨svc, workerId, call, busy, result, handler, held, writes, hx, hdecision, hnow, hrun,
        of_decide_eq_true hqueued⟩
    · exact absurd h (by simp)
  · exact absurd h (by simp)

/-- **Running work.** In every committed state at most as many runs of a principal and of a tenant are
running as the quotas allow, and a claim that is refused for capacity leaves all attempts as they are
and puts off the run to a time after its own. -/
theorem running_within_quota (limits : QuotaLimits) (events : List (Event Input))
    (huses : ∀ i, .start i ∈ events → Uses limits i) :
    (∀ principal, (countRuns (system.after events).store (ofPrincipal principal) [.running] : ℤ)
        ≤ max limits.principalRunning 0)
      ∧ (∀ tenant, (countRuns (system.after events).store (ofTenant tenant) [.running] : ℤ)
        ≤ max limits.tenantRunning 0)
      ∧ ∀ n runId now run, Refuses (system.after events) n runId now run →
        (system.after (events ++ [.step n])).store.attempts = (system.after events).store.attempts
          ∧ ∃ t, now < t ∧ (system.after (events ++ [.step n])).store.runs.get? runId
            = some { run with executionStatus := .retryScheduled, nextAttemptAt := some t } := by
  have hsound := sound (some limits) events (by simpa using huses)
  refine ⟨fun principal => hsound.inv.bounded limits rfl .running (.principal principal),
    fun tenant => hsound.inv.bounded limits rfl .running (.tenant tenant), ?_⟩
  rintro n runId now run ⟨svc, workerId, call, busy, result, handler, held, writes, hx, hdecision,
    rfl, hrun, hqueued⟩
  obtain ⟨s', happly, ⟨result', heq, hpost, -⟩, hstep⟩ := hsound.commits request Store.empty hx
  cases heq
  rw [Machine.after_concat, hstep]
  rcases hpost.notReady hdecision with ⟨rfl, r, hr, hne⟩ | ⟨t, ht, rfl⟩
  · cases happly
    rw [hrun] at hr
    cases hr
    exact absurd hqueued hne
  · obtain ⟨hattempts, hrun'⟩ := deferred_store hrun happly
    exact ⟨hattempts, t, Timestamp.lt_of_addSeconds_one ht, hrun'⟩

end

/-- Two runs of one principal are submitted, the first is claimed, and the claim of the second is about
to commit. -/
def sampleRefusal : List (Event Input) :=
  statements (sampleSubmit 0 1 []) 0 11
    ++ statements (sampleInput 1 2 (.submit sampleRunService "tenant" "other" [] [] none)) 1 11
    ++ statements (sampleClaim 2 3 1) 2 12 ++ statements (sampleClaim 3 4 2) 3 7

theorem running_within_quota_refusal :
    ∃ run t, Refuses (sampleSystem.after sampleRefusal) 3 (sampleUuid 2) (sampleTime 3) run
      ∧ sampleTime 3 < t
      ∧ (sampleSystem.after (sampleRefusal ++ [.step 3])).store.runs.get? (sampleUuid 2)
        = some { run with executionStatus := .retryScheduled, nextAttemptAt := some t } := by
  have hsome : (refusal (sampleSystem.after sampleRefusal) 3 (sampleUuid 2) (sampleTime 3)).isSome := by
    decide +kernel
  obtain ⟨run, hrun⟩ := Option.isSome_iff_exists.mp hsome
  have huses : ∀ i, .start i ∈ sampleRefusal → Uses QuotaLimits.default i := by
    intro i hi
    simp only [sampleRefusal, List.mem_append, start_mem_statements] at hi
    rcases hi with ((rfl | rfl) | rfl) | rfl
    · exact (rfl : sampleRunService.quotas = QuotaLimits.default)
    · exact (rfl : sampleRunService.quotas = QuotaLimits.default)
    · exact (rfl : sampleWorker.quotas = QuotaLimits.default)
    · exact (rfl : sampleWorker.quotas = QuotaLimits.default)
  have hrefuses := refuses_of_refusal hrun
  obtain ⟨-, -, hdeferred⟩ :=
    @running_within_quota sampleExternals QuotaLimits.default sampleRefusal huses
  obtain ⟨t, hlt, hget⟩ := (hdeferred 3 _ _ run hrefuses).2
  refine ⟨run, t, hrefuses, hlt, ?_⟩
  unfold sampleSystem
  exact hget

end AgentRuntime.Concurrency
