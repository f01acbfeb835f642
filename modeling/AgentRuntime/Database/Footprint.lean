import AgentRuntime.Database.Rules
import AgentRuntime.Lib.Outcomes

/-!
# What each operation writes

Every operation has a footprint: the kinds of statements it may issue, whatever it reads. The
operations that accept work insert one run, whose row is fixed by the call; the worker and the
schedulers neither insert a run nor touch an outbox row that exists; only the dispatcher does, and
it changes nothing else but the history. What all statements of a footprint keep, the operation
keeps, so a frame property is proved statement by statement.

* `Accepts`, `Executes`, `Works`, `Delivers`, `Charges`, `SettlesRun`: the footprints;
* `Closes`: who says when a run ended says how it ended;
* `submit_ok`, `replay_ok`, `ensures_evaluate`: what an acceptance that commits has written;
* `Input.footprint`, `Input.run_preserves`: the footprint of every operation and the rule it gives.
-/

namespace AgentRuntime.Database

open Lib Tx Domain Application Messaging Execution

/-! ### Footprints -/

/-- The write inserts no run but those in `P`, leaves the outbox rows there are, and publishes no
new one. -/
def Accepts (P : Run → Prop) : Write → Prop
  | .insertRun r => P r
  | .insertOutbox e => e.publishedAt = none
  | .updateOutbox _ _ => False
  | _ => True

/-- The write inserts no run and leaves the outbox rows there are. -/
abbrev Executes : Write → Prop := Accepts fun _ => False

/-- The write changes the delivery columns of an outbox row, or the history. -/
def Delivers : Write → Prop
  | .updateOutbox _ _ => True
  | .insertEvent _ => True
  | _ => False

/-- The write changes the quota counters. -/
def Charges : Write → Prop
  | .insertQuota _ => True
  | .updateQuota _ _ _ => True
  | _ => False

variable {w : Write}

theorem Charges.executes (h : Charges w) : Executes w := by
  cases w with
  | insertRun _ => exact h.elim
  | insertOutbox _ => exact h.elim
  | updateOutbox _ _ => exact h.elim
  | _ => trivial

/-- The write inserts nothing but events and messages, under the ids drawn for run `k`. -/
def SettlesRun (c : Call) (k : Uuid) : Write → Prop
  | .updateRun _ _ => True
  | .updateAttempt _ _ => True
  | .updateEvaluation _ _ => True
  | .insertEvent e => ∃ index < 2, e.id = c.eventId k index
  | .insertOutbox e => e.id = c.outboxId k ∧ e.publishedAt = none
  | _ => False

/-- The write inserts no run, leaves the outbox rows there are, and spends nothing. -/
def Works : Write → Prop
  | .insertRun _ => False
  | .insertOutbox e => e.publishedAt = none
  | .updateOutbox _ _ => False
  | .insertQuota _ => False
  | .updateQuota _ _ _ => False
  | _ => True

theorem Works.executes (h : Works w) : Executes w := by
  cases w with
  | insertRun _ => exact h
  | insertOutbox _ => exact h
  | updateOutbox _ _ => exact h
  | _ => trivial

theorem Works.spares (h : Works w) : ¬ Charges w := by
  cases w with
  | insertQuota _ => exact h.elim
  | updateQuota _ _ _ => exact h.elim
  | _ => exact id

variable {k : Uuid}

variable {c : Call}

theorem SettlesRun.works (h : SettlesRun c k w) : Works w := by
  cases w with
  | insertRun _ => exact h
  | insertOutbox e => exact h.2
  | updateOutbox _ _ => exact h
  | insertQuota _ => exact h
  | updateQuota _ _ _ => exact h
  | _ => trivial

theorem SettlesRun.executes (h : SettlesRun c k w) :
    Executes w := h.works.executes

theorem Delivers.spares (h : Delivers w) : ¬ Charges w := by
  cases w with
  | updateOutbox _ _ => exact id
  | insertEvent _ => exact id
  | _ => exact h.elim

/-- A new run has not ended, and an update that sets the time a run ended gives it a terminal
status. -/
def Closes : Write → Prop
  | .insertRun r => r.executionStatus = .queued ∧ r.completedAt = none
  | .updateRun _ sets =>
    (∀ t, RunSet.completedAt t ∉ sets)
      ∨ ((∃ status, RunSet.executionStatus status ∈ sets)
        ∧ ∀ r, isTerminalExecutionStatus (assignAll RunSet.assign sets r).executionStatus = true)
  | _ => True

theorem Charges.closes (h : Charges w) : Closes w := by
  cases w with
  | insertRun _ => exact h.elim
  | updateRun _ _ => exact h.elim
  | _ => trivial

theorem Delivers.closes (h : Delivers w) : Closes w := by
  cases w with
  | insertRun _ => exact h.elim
  | updateRun _ _ => exact h.elim
  | _ => trivial

/-- Who does not set the time of completion leaves it as it is. -/
theorem completedAt_assignAll {sets : List RunSet} (h : ∀ t, RunSet.completedAt t ∉ sets)
    (r : Run) : (assignAll RunSet.assign sets r).completedAt = r.completedAt := by
  induction sets generalizing r with
  | nil => rfl
  | cons set rest ih =>
    have hrest : ∀ t, RunSet.completedAt t ∉ rest := fun t ht => h t (.tail _ ht)
    refine (ih hrest (set.assign r)).trans ?_
    cases set with
    | completedAt t => exact absurd (.head _) (h t)
    | _ => rfl

/-- The update ends the run. -/
theorem closes_end {id : Uuid} {sets : List RunSet} {status : ExecutionStatus}
    (hmem : RunSet.executionStatus status ∈ sets)
    (h : ∀ r, isTerminalExecutionStatus (assignAll RunSet.assign sets r).executionStatus = true) :
    Closes (.updateRun id sets) := .inr ⟨⟨status, hmem⟩, h⟩

/-! ### Execution -/

section Execution

variable {W : Write → Prop}

theorem onlyWrites_lockIdentity (principal tenant : String) :
    (lockIdentity principal tenant).OnlyWrites W := by
  unfold lockIdentity
  split <;> exact .bind (onlyWrites_acquire _) fun _ => onlyWrites_acquire _

theorem onlyWrites_lockedRun (id : Uuid) : (lockedRun id).OnlyWrites W :=
  .bind (onlyWrites_acquire _) fun _ => onlyWrites_read _

theorem works_exec (h : Works w) (hcloses : Closes w) :
    (exec w).OnlyWrites fun w => Works w ∧ Closes w := onlyWrites_exec.mpr ⟨h, hcloses⟩

theorem settlesRun_exec (h : SettlesRun c k w) (hcloses : Closes w) :
    (exec w).OnlyWrites fun w => SettlesRun c k w ∧ Closes w :=
  onlyWrites_exec.mpr ⟨h, hcloses⟩

theorem finalizeEvaluationJob_writes {run : Run} (hid : run.id = k) :
    (finalizeEvaluationJob c run).OnlyWrites fun w => SettlesRun c k w ∧ Closes w := by
  have hevent : ∀ evaluation : Evaluation, SettlesRun c k (.insertEvent (newEvent c run.id 1
      evaluation.runId none (.evaluation (jobVerdict run)) [("job_run_id", .uuid run.id)])) :=
    fun _ => ⟨1, by decide, hid ▸ rfl⟩
  unfold finalizeEvaluationJob
  split
  · trivial
  · refine .bind (onlyWrites_read _) fun found => ?_
    split
    · trivial
    · refine .bind (onlyWrites_acquire _) fun _ =>
        .bind (settlesRun_exec trivial trivial) fun _ => ?_
      refine .bind (onlyWrites_lockedRun _) fun _ => .bind (onlyWrites_read _) fun _ => ?_
      split
      · exact .bind (settlesRun_exec trivial (.inl (by simp))) fun _ =>
          settlesRun_exec (hevent _) trivial
      · exact settlesRun_exec (hevent _) trivial

theorem scheduleRetryOrFinalize_writes (c : Call) (run : Run) (attempt : RunAttempt)
    (errorCode : String) (recovery : Bool) :
    (scheduleRetryOrFinalize c run attempt errorCode recovery).OnlyWrites fun w =>
      SettlesRun c run.id w ∧ Closes w := by
  have hid : ∀ sets, (assignAll RunSet.assign sets run).id = run.id := fun sets =>
    congrArg Prod.fst (assignAll_keeps RunSet.ident_assign sets run)
  have hend : ∀ status, isTerminalExecutionStatus status = true →
      Closes (.updateRun run.id (endSets status c.now errorCode)) := fun status hstatus =>
    @closes_end _ _ status (List.mem_append_right _ (by simp)) fun _ => hstatus
  have hretry : ∀ nextAttemptAt, Closes (.updateRun run.id (retrySets errorCode nextAttemptAt)) :=
    fun _ => .inl (by simp [retrySets, clearLease])
  refine .bind (onlyWrites_ofExcept _) fun policy => ?_
  dsimp only
  split
  · refine .bind (onlyWrites_ofExcept _) fun _ => .bind (onlyWrites_ofExcept _) fun _ => ?_
    exact .bind (settlesRun_exec trivial trivial) fun _ =>
      .bind (settlesRun_exec trivial (hretry _)) fun _ =>
        settlesRun_exec ⟨0, by decide, rfl⟩ trivial
  · refine .bind (settlesRun_exec trivial trivial) fun _ => ?_
    split
    · exact .bind (settlesRun_exec trivial (hend _ rfl)) fun _ =>
        .bind (settlesRun_exec ⟨rfl, rfl⟩ trivial) fun _ =>
          .bind (settlesRun_exec ⟨0, by decide, rfl⟩ trivial) fun _ =>
            finalizeEvaluationJob_writes (hid _)
    · exact .bind (settlesRun_exec trivial (hend _ rfl)) fun _ =>
        .bind (settlesRun_exec ⟨0, by decide, rfl⟩ trivial) fun _ =>
          finalizeEvaluationJob_writes (hid _)

theorem recoverRun_writes (c : Call) (run : Run) :
    (recoverRun c run).OnlyWrites fun w => SettlesRun c run.id w ∧ Closes w := by
  refine .bind (.bind (onlyWrites_read _) fun found => ?_) fun found => ?_
  · split
    · trivial
    · exact .bind (onlyWrites_acquire _) fun _ => trivial
  · split
    · trivial
    · exact scheduleRetryOrFinalize_writes _ _ _ _ _

theorem recoverRun_settlesRun (c : Call) (run : Run) :
    (recoverRun c run).OnlyWrites (SettlesRun c run.id) :=
  (recoverRun_writes c run).mono fun _ h => h.1

theorem requeueRun_settlesRun (c : Call) (run : Run) :
    (requeueRun c run).OnlyWrites (SettlesRun c run.id) :=
  .bind (onlyWrites_exec.mpr trivial) fun _ =>
    .bind (onlyWrites_exec.mpr ⟨rfl, rfl⟩) fun _ =>
      onlyWrites_exec.mpr ⟨0, by decide, rfl⟩

theorem finalizeEvaluationJob_works (c : Call) (run : Run) :
    (finalizeEvaluationJob c run).OnlyWrites fun w => Works w ∧ Closes w :=
  (finalizeEvaluationJob_writes rfl).mono fun _ h => ⟨h.1.works, h.2⟩

theorem claimQueued_works (svc : ExecutionService) (c : Call) (run : Run) (workerId : String) :
    (claimQueued svc c run workerId).OnlyWrites fun w => Works w ∧ Closes w := by
  have hcapacity : ∀ p limit, (atCapacity p limit).OnlyWrites fun w => Works w ∧ Closes w :=
    fun p limit => .bind (onlyWrites_read _) fun _ => trivial
  have hreject : Closes (.updateRun run.id (rejectSets c.now)) :=
    @closes_end _ _ .failed (.head _) fun _ => rfl
  have hdefer : (deferRun c run).OnlyWrites fun w => Works w ∧ Closes w :=
    .bind (onlyWrites_ofExcept _) fun _ =>
      .bind (works_exec trivial (.inl (by simp [deferSets]))) fun _ => trivial
  have hstart : ∀ leaseExpiresAt,
      Closes (.updateRun run.id (startSets c run workerId leaseExpiresAt)) :=
    fun _ => .inl (by simp [startSets])
  refine .bind (hcapacity _ _) fun full => ?_
  split
  · exact hdefer
  · refine .bind (hcapacity _ _) fun full => ?_
    split
    · exact hdefer
    · refine .bind (onlyWrites_read _) fun n => ?_
      split
      · exact .bind (onlyWrites_ofExcept _) fun _ =>
          .bind (works_exec trivial (hstart _)) fun _ =>
            .bind (works_exec trivial trivial) fun _ =>
              .bind (works_exec trivial trivial) fun _ => trivial
      · exact .bind (works_exec trivial hreject) fun _ =>
          .bind (finalizeEvaluationJob_works _ _) fun _ => trivial
      · trivial

theorem claim_works (svc : ExecutionService) (c : Call) (runId : Uuid) (workerId : String) :
    (claim svc c runId workerId).OnlyWrites fun w => Works w ∧ Closes w := by
  refine .bind (onlyWrites_read _) fun found => ?_
  split
  · trivial
  · refine .bind (onlyWrites_lockIdentity _ _) fun _ => .bind (onlyWrites_lockedRun _) fun run => ?_
    split
    · trivial
    · unfold claimLocked
      split_ifs <;> first | trivial | exact claimQueued_works _ _ _ _

theorem onlyWrites_activeAttempt (c : Call) (runId attemptId : Uuid) (workerId : String) :
    (activeAttempt c runId attemptId workerId).OnlyWrites W := by
  refine .bind (onlyWrites_lockedRun _) fun run => ?_
  split
  · trivial
  · split
    · trivial
    · refine .bind (.bind (onlyWrites_acquire _) fun _ => onlyWrites_read _) fun a => ?_
      split
      · trivial
      · split <;> trivial

theorem completeSuccess_works (c : Call) (runId attemptId : Uuid) (workerId : String)
    (result : ExecutionResult) :
    (completeSuccess c runId attemptId workerId result).OnlyWrites fun w =>
      Works w ∧ Closes w := by
  refine .bind (onlyWrites_activeAttempt _ _ _ _) fun found => ?_
  split
  · trivial
  · rename_i run _
    have hend : Closes (.updateRun run.id (succeedSets c.now result)) :=
      @closes_end _ _ .succeeded (.head _) fun _ => rfl
    exact .bind (works_exec trivial trivial) fun _ =>
      .bind (works_exec trivial hend) fun _ =>
        .bind (works_exec trivial trivial) fun _ =>
          .bind (finalizeEvaluationJob_works _ _) fun _ => trivial

theorem completeFailure_works (c : Call) (runId attemptId : Uuid) (workerId code : String) :
    (completeFailure c runId attemptId workerId code).OnlyWrites fun w =>
      Works w ∧ Closes w := by
  refine .bind (onlyWrites_activeAttempt _ _ _ _) fun found => ?_
  split
  · trivial
  · exact .bind ((scheduleRetryOrFinalize_writes _ _ _ _ _).mono fun _ h => ⟨h.1.works, h.2⟩)
      fun _ => trivial

theorem onlyWrites_lockBatch (clause : Run → Bool) (column : Run → Option Timestamp)
    (batchSize : ℕ) : (lockBatch clause column batchSize).OnlyWrites W :=
  .bind (onlyWrites_acquireFree _) fun _ => onlyWrites_read _

theorem recoverExpiredLeases_works (c : Call) (batchSize : ℕ) :
    (recoverExpiredLeases c batchSize).OnlyWrites fun w => Works w ∧ Closes w := by
  refine .bind (onlyWrites_lockBatch _ _ _) fun runs => .bind (.forEach ?_ runs) fun _ => trivial
  exact fun run => (recoverRun_writes c run).mono fun _ h => ⟨h.1.works, h.2⟩

theorem scheduleDueRetries_works (c : Call) (batchSize : ℕ) :
    (scheduleDueRetries c batchSize).OnlyWrites fun w => Works w ∧ Closes w := by
  refine .bind (onlyWrites_lockBatch _ _ _) fun runs => .bind (.forEach ?_ runs) fun _ => trivial
  intro run
  exact .bind (works_exec trivial (.inl (by simp [requeueSets]))) fun _ =>
    .bind (works_exec rfl trivial) fun _ => works_exec trivial trivial

theorem charges_exec (h : Charges w) : (exec w).OnlyWrites Charges :=
  onlyWrites_exec.mpr h

theorem openScope_charges (window : ℤ) (scope : String) (limit : ℤ) :
    (openScope window scope limit).OnlyWrites Charges := by
  refine .bind (onlyWrites_read _) fun row => ?_
  split
  · refine .bind (charges_exec trivial) fun _ => ?_
    split <;> trivial
  · split
    · refine .bind (charges_exec trivial) fun _ => ?_
      split <;> trivial
    · split <;> trivial

theorem chargeAttempt_charges (limits : QuotaLimits) (c : Call) (runId attemptId : Uuid)
    (workerId : String) :
    (chargeAttempt limits c runId attemptId workerId).OnlyWrites Charges := by
  have hcharge : ∀ principal tenant,
      (chargeProviderCall c.epoch principal tenant limits).OnlyWrites Charges := fun _ _ =>
    .bind (onlyWrites_lockIdentity _ _) fun _ => .bind (openScope_charges _ _ _) fun _ =>
      .bind (openScope_charges _ _ _) fun _ => .bind (charges_exec trivial) fun _ =>
        charges_exec trivial
  refine .bind (onlyWrites_read _) fun found => ?_
  split
  · trivial
  · refine .bind (onlyWrites_lockIdentity _ _) fun _ => .bind (onlyWrites_lockedRun _) fun run =>
      .bind (onlyWrites_read _) fun attempt => ?_
    split
    · split
      · split
        · exact hcharge _ _
        · trivial
      · trivial
    · trivial

theorem chargeAttempt_executes (limits : QuotaLimits) (c : Call) (runId attemptId : Uuid)
    (workerId : String) :
    (chargeAttempt limits c runId attemptId workerId).OnlyWrites Executes :=
  (chargeAttempt_charges limits c runId attemptId workerId).mono fun _ h => h.executes

theorem dispatchOne_delivers (c : Call) (publish : OutboxEvent → Except String Unit) :
    (dispatchOne c publish).OnlyWrites Delivers := by
  have hexec : ∀ {w : Write}, Delivers w → (exec w).OnlyWrites Delivers := fun h =>
    onlyWrites_exec.mpr h
  refine .bind (.bind (onlyWrites_acquireFree _) fun _ => onlyWrites_read _) fun found => ?_
  split
  · trivial
  · unfold recordOutcome
    split
    · exact .bind (.bind (hexec trivial) fun _ => hexec trivial) fun _ => trivial
    · exact .bind (.bind (hexec trivial) fun _ => hexec trivial) fun _ => trivial

theorem onlyWrites_checkAdmission (epoch : ℤ) (principal tenant : String) (limits : QuotaLimits) :
    (checkAdmission epoch principal tenant limits).OnlyWrites W := by
  have hactive : ∀ p limit, (checkActive p limit).OnlyWrites W := fun p limit =>
    .bind (onlyWrites_read _) fun _ => by split <;> trivial
  have hbudget : ∀ window scope limit, (checkScopeBudget window scope limit).OnlyWrites W :=
    fun window scope limit => .bind (onlyWrites_read _) fun _ => by
      split
      · trivial
      · split_ifs <;> trivial
  exact .bind (hactive _ _) fun _ => .bind (hactive _ _) fun _ => .bind (hbudget _ _ _) fun _ =>
    hbudget _ _ _

end Execution

/-! ### Acceptance -/

section Acceptance

variable {svc : RunService} {c : Call} {clientId key : String} {principalId : Option String}
  {W : Write → Prop} {P : Run → Prop}

theorem accepts_exec (h : Accepts P w) (hcloses : Closes w) :
    (exec w).OnlyWrites fun w => Accepts P w ∧ Closes w := onlyWrites_exec.mpr ⟨h, hcloses⟩

theorem getIdempotentRunAfterRace_onlyWrites :
    (getIdempotentRunAfterRace clientId key).OnlyWrites W := by
  refine .bind (onlyWrites_read _) fun found => ?_
  split <;> trivial

variable {runId : Uuid}

theorem getRunForClient_onlyWrites : (getRunForClient clientId runId).OnlyWrites W := by
  refine .bind (onlyWrites_read _) fun found => ?_
  split <;> trivial

variable [Externals]

/-- The row a submission inserts. -/
def submittedRun (c : Call) (clientId key : String) (input policy : JsonObject)
    (principalId : Option String) (kind : WorkKind) : Run :=
  newRun c clientId (orElseText principalId clientId) kind key
    (canonicalRequestHash input (hashedPolicy policy kind)) input policy none

/-- The row a replay of `source` inserts. -/
def replayedRun (c : Call) (clientId key : String) (source : Run) (principalId : Option String) :
    Run :=
  newRun c clientId (orElseText principalId clientId) .execution key (replayHash source)
    source.inputPayload source.policySnapshot (some source.id)

theorem submit_accepts {input policy : JsonObject} {kind : WorkKind} :
    (submit svc c clientId key input policy principalId kind).OnlyWrites fun w =>
      Accepts (fun r => r = submittedRun c clientId key input policy principalId kind) w
        ∧ Closes w := by
  constructor
  · refine .bind (onlyWrites_lockIdentity _ _) fun _ => .bind (onlyWrites_read _)
      fun found => ?_
    split
    · exact .bind (onlyWrites_ofExcept _) fun _ => trivial
    · refine .bind (onlyWrites_checkAdmission _ _ _ _) fun _ =>
        .bind (accepts_exec rfl ⟨rfl, rfl⟩) fun _ => .bind (accepts_exec rfl trivial) fun _ =>
          .bind (accepts_exec trivial trivial) fun _ =>
            .bind ?_ fun _ => .bind (onlyWrites_ofExcept _) fun _ => trivial
      unfold recordRouting
      split
      · exact accepts_exec trivial trivial
      · trivial
  · intro e t ht
    simp only [submit] at ht
    split at ht
    · cases ht
      exact .bind getIdempotentRunAfterRace_onlyWrites fun _ =>
        .bind (onlyWrites_ofExcept _) fun _ => trivial
    · exact absurd ht (by simp)

/-- After a lost race a replay only reads. -/
theorem replay_handler_onlyWrites {e : PyError} {t : DbTx (RunSnapshot × Bool)}
    (ht : (replay svc c clientId runId key principalId).handler e = some t) : t.OnlyWrites W := by
  simp only [replay] at ht
  split at ht
  · cases ht
    exact .bind getIdempotentRunAfterRace_onlyWrites fun _ =>
      .bind getRunForClient_onlyWrites fun _ => .bind (onlyWrites_ofExcept _) fun _ => trivial
  · exact absurd ht (by simp)

theorem replay_accepts :
    (replay svc c clientId runId key principalId).OnlyWrites fun w =>
      Accepts (fun r => ∃ source, r = replayedRun c clientId key source principalId) w
        ∧ Closes w := by
  constructor
  · refine .bind (onlyWrites_lockIdentity _ _) fun _ => .bind getRunForClient_onlyWrites
      fun source => ?_
    split
    · trivial
    · refine .bind (onlyWrites_read _) fun found => ?_
      split
      · exact .bind (onlyWrites_ofExcept _) fun _ => trivial
      · exact .bind (onlyWrites_checkAdmission _ _ _ _) fun _ =>
          .bind (accepts_exec ⟨source, rfl⟩ ⟨rfl, rfl⟩) fun _ =>
            .bind (accepts_exec rfl trivial) fun _ => .bind (accepts_exec trivial trivial) fun _ =>
              .bind (accepts_exec trivial trivial) fun _ => trivial
  · exact fun _ _ ht => replay_handler_onlyWrites ht

theorem evaluate_accepts {rules : List JsonObject} :
    (evaluate svc c clientId runId rules principalId).OnlyWrites fun w =>
      Accepts (fun r => r = newJob svc c clientId (orElseText principalId clientId) runId rules) w
        ∧ Closes w := by
  refine .bind (onlyWrites_ofExcept _) fun _ => .bind (onlyWrites_lockIdentity _ _) fun _ =>
    .bind getRunForClient_onlyWrites fun _ => .bind (onlyWrites_acquire _) fun _ =>
      .bind (onlyWrites_read _) fun source => ?_
  split
  · trivial
  · split
    · trivial
    · exact .bind (onlyWrites_checkAdmission _ _ _ _) fun _ =>
        .bind (accepts_exec rfl ⟨rfl, rfl⟩) fun _ =>
          .bind (accepts_exec trivial (.inl (by simp))) fun _ =>
            .bind (accepts_exec trivial trivial) fun _ => .bind (accepts_exec rfl trivial) fun _ =>
              .bind (accepts_exec trivial trivial) fun _ =>
                .bind (accepts_exec trivial trivial) fun _ => trivial

/-! ### Committed acceptances -/

variable {busy : Lock → Bool} {s s' : Store} {input policy : JsonObject} {kind : WorkKind}
  {runId : Uuid} {rules : List JsonObject}

omit [Externals] in
theorem matchOrRaise_eq_ok {r : Run} {hash : String} {replayed : Bool} :
    matchOrRaise r hash = .ok replayed ↔ r.requestHash = hash ∧ replayed = true := by
  unfold matchOrRaise
  split_ifs with h
  · simp [h]
  · simp only [not_not] at h
    simp [h, eq_comm]

omit [Externals] in
theorem matchReplayOrRaise_eq_ok {r : Run} {hash : String} {source : Uuid} {replayed : Bool} :
    matchReplayOrRaise r hash source = .ok replayed ↔
      (r.requestHash = hash ∧ r.replayOfRunId = some source) ∧ replayed = true := by
  unfold matchReplayOrRaise
  split_ifs with h
  · simp only [false_iff]
    rintro ⟨⟨hhash, hsource⟩, -⟩
    exact h.elim (fun hne => hne hhash) (fun hne => hne hsource)
  · simp only [not_or, not_not] at h
    simp [h, eq_comm]

/-- What a submission that commits has done: its key was bound to a run with its hash, or it has
inserted its run with a message, an event and the record of the routing. -/
inductive Submitted (c : Call) (clientId key : String) (input policy : JsonObject)
    (principalId : Option String) (kind : WorkKind) (s : Store) : RunSnapshot × Bool → Store → Prop
  | found {r : Run} (hholder : s.keyHolder clientId key = some r)
      (hhash : r.requestHash = canonicalRequestHash input (hashedPolicy policy kind)) :
      Submitted c clientId key input policy principalId kind s (toRunSnapshot r, true) s
  | created {s1 s2 s3 s' : Store}
      (h1 : Writes.apply (Write.insertRun
        (submittedRun c clientId key input policy principalId kind)) s = .ok s1)
      (h2 : Writes.apply (Write.insertOutbox
        (queuedOutbox c c.runId [("trace_context", .obj c.traceContext)])) s1 = .ok s2)
      (h3 : Writes.apply (Write.insertEvent
        (newEvent c c.runId 0 c.runId none .runQueued [("source", .text "api")])) s2 = .ok s3)
      (h4 : s' = s3 ∨ ∃ decision, Writes.apply (Write.insertEvent (newEvent c c.runId 1 c.runId none
        .routingDecisionRecorded (routingMetadata decision))) s3 = .ok s') :
      Submitted c clientId key input policy principalId kind s
        (toRunSnapshot (submittedRun c clientId key input policy principalId kind), false) s'

variable {p : RunSnapshot × Bool}

/-- **Committed submissions.** -/
theorem submit_ok
    (h : (submit svc c clientId key input policy principalId kind).run busy s = .ok (p, s')) :
    Submitted c clientId key input policy principalId kind s p s' := by
  refine Request.run_ok (Q := Submitted c clientId key input policy principalId kind s) ?_ ?_ h
  · simp only [submit, bind_eq, ensures_bind, ensures_lockIdentity, ensures_findByIdempotencyKey]
    split
    · simp only [ensures_bind, ensures_ofExcept, pure_eq, ensures_done, matchOrRaise_eq_ok]
      rintro _ ⟨hhash, rfl⟩
      exact .found ‹_› hhash
    · refine (ensures_bind _ _).mpr ((checkAdmission_unchanged _ _ _ _).mono ?_)
      rintro _ _ rfl
      simp only [ensures_bind, ensures_exec, recordRouting]
      intro s1 h1 s2 h2 s3 h3
      split
      · simp only [ensures_exec, ensures_ofExcept, pure_eq, ensures_done]
        intro s4 h4 _ _
        exact .created h1 h2 h3 (.inr ⟨_, h4⟩)
      · simp only [ensures_ofExcept, pure_eq, ensures_done]
        intro _ _
        exact .created h1 h2 h3 (.inl rfl)
  · intro e t ht
    simp only [submit] at ht
    split at ht
    · cases ht
      simp only [bind_eq, ensures_bind, ensures_getIdempotentRunAfterRace,
        ensures_ofExcept, pure_eq, ensures_done, matchOrRaise_eq_ok]
      rintro _ hholder _ ⟨hhash, rfl⟩
      exact .found hholder hhash
    · exact absurd ht (by simp)

/-- What a replay that commits has done: its key was bound to a replay of its source, or it has
inserted one. -/
inductive Replayed (c : Call) (clientId : String) (runId : Uuid) (key : String)
    (principalId : Option String) (s : Store) : RunSnapshot × Bool → Store → Prop
  | found {r : Run} (hholder : s.keyHolder clientId key = some r)
      (hsource : r.replayOfRunId = some runId) :
      Replayed c clientId runId key principalId s (toRunSnapshot r, true) s
  | created {source : Run} {s1 s2 s3 s' : Store} (hsource : s.runs.get? source.id = some source)
      (hid : source.id = runId)
      (h1 : Writes.apply (Write.insertRun
        (replayedRun c clientId key source principalId)) s = .ok s1)
      (h2 : Writes.apply (Write.insertOutbox (queuedOutbox c c.runId
        [("trace_context", .obj c.traceContext), ("reason", .str "replay")])) s1 = .ok s2)
      (h3 : Writes.apply (Write.insertEvent (newEvent c c.runId 0 source.id none .replayCreated
        [("replay_run_id", .uuid c.runId)])) s2 = .ok s3)
      (h4 : Writes.apply (Write.insertEvent (newEvent c c.runId 1 c.runId none .runReplayQueued
        [("replay_of_run_id", .uuid source.id)])) s3 = .ok s') :
      Replayed c clientId runId key principalId s
        (toRunSnapshot (replayedRun c clientId key source principalId), false) s'

/-- **Committed replays.** -/
theorem replay_ok (h : (replay svc c clientId runId key principalId).run busy s = .ok (p, s')) :
    Replayed c clientId runId key principalId s p s' := by
  have hstored {source : Run} (h : s.runForClient clientId runId = some source) :
      s.runs.get? source.id = some source ∧ source.id = runId := by
    obtain ⟨hget, -⟩ := runForClient_eq_some.mp h
    obtain rfl : source.id = runId := (Table.mem_of_get? hget).2
    exact ⟨hget, rfl⟩
  refine Request.run_ok (Q := Replayed c clientId runId key principalId s) ?_ ?_ h
  · simp only [replay, bind_eq, ensures_bind, ensures_lockIdentity, ensures_getRunForClient]
    intro source hsource
    obtain ⟨hget, hid⟩ := hstored hsource
    split
    · simp
    · simp only [ensures_bind, ensures_findByIdempotencyKey]
      split
      · simp only [ensures_bind, ensures_ofExcept, pure_eq, ensures_done, matchReplayOrRaise_eq_ok]
        rintro _ ⟨⟨-, hof⟩, rfl⟩
        exact .found ‹_› (hid ▸ hof)
      · refine (ensures_bind _ _).mpr ((checkAdmission_unchanged _ _ _ _).mono ?_)
        rintro _ _ rfl
        simp only [ensures_bind, ensures_exec, pure_eq, ensures_done]
        intro s1 h1 s2 h2 s3 h3 s4 h4
        exact .created hget hid h1 h2 h3 h4
  · intro e t ht
    simp only [replay] at ht
    split at ht
    · cases ht
      simp only [bind_eq, ensures_bind, ensures_getIdempotentRunAfterRace,
        ensures_getRunForClient, ensures_ofExcept, pure_eq, ensures_done,
        matchReplayOrRaise_eq_ok]
      rintro _ hholder source hsource _ ⟨⟨-, hof⟩, rfl⟩
      exact .found hholder ((hstored hsource).2 ▸ hof)
    · exact absurd ht (by simp)

/-- **Committed evaluations.** What an evaluation that commits has written. -/
theorem ensures_evaluate {Q : EvaluationSnapshot → Store → Prop}
    (hQ : ∀ source s1 s2 s3 s4 s5 s6, s.runs.get? runId = some source → source.clientId = clientId →
      Writes.apply (Write.insertRun
        (newJob svc c clientId (orElseText principalId clientId) runId rules)) s = .ok s1 →
      Writes.apply (Write.updateRun runId [.evaluationStatus .pending]) s1 = .ok s2 →
      Writes.apply (Write.insertEvaluation (newEvaluation c runId c.runId rules)) s2 = .ok s3 →
      Writes.apply (Write.insertOutbox
        (queuedOutbox c c.runId [("trace_context", .obj c.traceContext)])) s3 = .ok s4 →
      Writes.apply (Write.insertEvent (newEvent c c.runId 0 c.runId none .runQueued
        [("work_kind", .text "evaluation")])) s4 = .ok s5 →
      Writes.apply (Write.insertEvent (newEvent c c.runId 1 runId none (.evaluation .pending)
        [("job_run_id", .uuid c.runId)])) s5 = .ok s6 →
      Q (toEvaluationSnapshot (newEvaluation c runId c.runId rules)) s6) :
    Ensures busy (evaluate svc c clientId runId rules principalId) s Q := by
  simp only [evaluate, bind_eq, ensures_bind, ensures_ofExcept, ensures_lockIdentity,
    ensures_getRunForClient, ensures_acquire, ensures_read]
  intro _ _ source hsource
  obtain ⟨hget, hclient⟩ := runForClient_eq_some.mp hsource
  obtain rfl : source.id = runId := (Table.mem_of_get? hget).2
  simp only [hget]
  split
  · simp
  · refine (ensures_bind _ _).mpr ((checkAdmission_unchanged _ _ _ _).mono ?_)
    rintro _ _ rfl
    simp only [ensures_bind, ensures_exec, pure_eq, ensures_done]
    intro s1 h1 s2 h2 s3 h3 s4 h4 s5 h5 s6 h6
    exact hQ source s1 s2 s3 s4 s5 s6 hget hclient h1 h2 h3 h4 h5 h6

end Acceptance

/-! ### All operations -/

section Operations

variable [Externals]

/-- What an operation may write. -/
def Input.footprint (i : Input) : Write → Prop :=
  match i.op with
  | .submit _ clientId key input policy principalId =>
    Accepts fun r => r = submittedRun i.call clientId key input policy principalId .execution
  | .submitRegression svc clientId principalId payload key =>
    Accepts fun r => r = submittedRun i.call clientId key payload svc.jobPolicy
      (some principalId) .regression
  | .evaluate svc clientId runId rules principalId =>
    Accepts fun r => r = newJob svc i.call clientId (orElseText principalId clientId) runId rules
  | .replay _ clientId _ key principalId =>
    Accepts fun r => ∃ source, r = replayedRun i.call clientId key source principalId
  | .dispatchOne _ => Delivers
  | _ => Executes

/-- **Frame rule.** What every write of its footprint keeps, the operation keeps. -/
theorem Input.run_preserves {i : Input} {P : Store → Prop} {s s' : Store} {answer : Answer}
    (hkeep : ∀ w s s', i.footprint w → Writes.apply w s = .ok s' → P s → P s') (hs : P s)
    (h : i.run s = .ok (answer, s')) : P s' := by
  have htx {α : Type} {t : DbTx α} {f : α → Answer}
      (h : ((t.run i.busy s).map fun p => (f p.1, p.2)) = .ok (answer, s'))
      (ht : t.OnlyWrites i.footprint) : P s' :=
    of_map_ok (R := fun _ s' => P s') h (ht.preserves hkeep s hs)
  have hrequest {r : DbRequest (RunSnapshot × Bool)}
      (h : ((r.run i.busy s).map fun p => (Answer.run p.1.1 p.1.2, p.2)) = .ok (answer, s'))
      (hr : r.OnlyWrites i.footprint) : P s' :=
    of_map_ok (f := fun a => Answer.run a.1 a.2) (R := fun _ s' => P s') h fun _ _ hrun =>
      hr.preserves hkeep hs hrun
  obtain ⟨op, c, busy⟩ := i
  cases op with
  | submit => exact hrequest h (submit_accepts.mono fun _ h => h.1)
  | submitRegression => exact hrequest h (submit_accepts.mono fun _ h => h.1)
  | evaluate => exact htx h (evaluate_accepts.mono fun _ h => h.1)
  | replay => exact hrequest h (replay_accepts.mono fun _ h => h.1)
  | claim => exact htx h ((claim_works _ _ _ _).mono fun _ h => h.1.executes)
  | completeSuccess => exact htx h ((completeSuccess_works _ _ _ _ _).mono fun _ h => h.1.executes)
  | completeFailure => exact htx h ((completeFailure_works _ _ _ _ _).mono fun _ h => h.1.executes)
  | recoverExpiredLeases =>
    exact htx h ((recoverExpiredLeases_works _ _).mono fun _ h => h.1.executes)
  | scheduleDueRetries => exact htx h ((scheduleDueRetries_works _ _).mono fun _ h => h.1.executes)
  | charge => exact htx (f := fun _ => .unit) h (chargeAttempt_executes _ _ _ _ _)
  | dispatchOne => exact htx h (dispatchOne_delivers _ _)

end Operations

end AgentRuntime.Database
