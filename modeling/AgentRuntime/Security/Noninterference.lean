import AgentRuntime.Security.TenantIsolation

/-!
# What a tenant cannot learn

The calls that a principal may make, in two stores that hold the same rows of the principal's tenant
and differ in the rest at will: the caller gets the same answer or the same exception, its tenant's
rows change in the same way, and no row of another tenant changes.

* `TenantOp`, `TenantOp.call`: the calls, made under a record of the registry;
* `Fresh`: the ids that a call draws are new;
* `call_foreign_run`, `call_foreign_cursor`: an id that is not the tenant's is answered as one that
  does not exist;
* `tenant_noninterference`: the theorem about every two reachable stores.
-/

namespace AgentRuntime.Security

open Lib Tx Domain Application Database Lifecycle

/-! ### Calls -/

/-- The calls of a tenant, with the arguments that the caller chooses. -/
inductive TenantOp where
  | submit (svc : RunService) (idempotencyKey : String) (inputPayload policySnapshot : JsonObject)
  | submitRegression (svc : RunService) (payload : JsonObject) (idempotencyKey : String)
  | evaluate (svc : RunService) (runId : Uuid) (rules : List JsonObject)
  | replay (svc : RunService) (runId : Uuid) (idempotencyKey : String)
  | getRun (runId : Uuid)
  | getAttempts (runId : Uuid) (limit : ℤ) (cursor : Option Uuid)
  | getEvents (runId : Uuid) (limit : ℤ) (cursor : Option Uuid)
  | getEvaluations (runId : Uuid) (limit : ℤ) (cursor : Option Uuid)

/-- What a call returns. -/
inductive TenantAnswer where
  | accepted (snapshot : RunSnapshot) (replayed : Bool)
  | evaluation (snapshot : EvaluationSnapshot)
  | run (snapshot : RunSnapshot)
  | attempts (page : List AttemptSnapshot)
  | events (page : List EventSnapshot)
  | evaluations (page : List EvaluationSnapshot)

namespace TenantOp

/-- The run that a call names. -/
def runId? : TenantOp → Option Uuid
  | submit .. | submitRegression .. => none
  | evaluate _ runId _ | replay _ runId _ | getRun runId => some runId
  | getAttempts runId _ _ | getEvents runId _ _ | getEvaluations runId _ _ => some runId

/-- The cursor that a call names. -/
def cursor? : TenantOp → Option Uuid
  | getAttempts _ _ cursor | getEvents _ _ cursor | getEvaluations _ _ cursor => cursor
  | _ => none

section

variable [Externals]

/-- The call under the tenant and the principal of a record. -/
def request (c : Call) (record : CredentialRecord) : TenantOp → DbRequest TenantAnswer
  | submit svc idempotencyKey inputPayload policySnapshot =>
    (Database.submit svc c record.tenantId idempotencyKey inputPayload policySnapshot
      (some record.principalId) .execution).map fun p => .accepted p.1 p.2
  | submitRegression svc payload idempotencyKey =>
    (Database.submitRegression svc c record.tenantId record.principalId payload
      idempotencyKey).map fun p => .accepted p.1 p.2
  | evaluate svc runId rules =>
    (Database.evaluate svc c record.tenantId runId rules
      (some record.principalId)).toRequest.map .evaluation
  | replay svc runId idempotencyKey =>
    (Database.replay svc c record.tenantId runId idempotencyKey
      (some record.principalId)).map fun p => .accepted p.1 p.2
  | getRun runId => (Database.getRun record.tenantId runId).toRequest.map .run
  | getAttempts runId limit cursor =>
    (Database.getAttempts record.tenantId runId limit cursor).toRequest.map .attempts
  | getEvents runId limit cursor =>
    (Database.getEvents record.tenantId runId limit cursor).toRequest.map .events
  | getEvaluations runId limit cursor =>
    (Database.getEvaluations record.tenantId runId limit cursor).toRequest.map .evaluations

/-- What the caller gets, and the store after the call: an exception leaves it as it was. -/
def call (busy : Lock → Bool) (c : Call) (record : CredentialRecord) (op : TenantOp) (s : Store) :
    Except PyError TenantAnswer × Store :=
  match (op.request c record).run busy s with
  | .ok (answer, s') => (.ok answer, s')
  | .error e => (.error e, s)

/-- What a call raises about a run that is not the tenant's. Rules are checked first. -/
def refusal (runId : Uuid) : TenantOp → PyError
  | evaluate _ _ rules =>
    match Externals.validateRules rules with
    | .ok _ => .runNotFoundError ("Run " ++ runId.str ++ " was not found")
    | .error e => e
  | _ => .runNotFoundError ("Run " ++ runId.str ++ " was not found")

end

end TenantOp

/-- The ids that the call draws are new. -/
structure Fresh (c : Call) (s : Store) : Prop where
  run : s.runs.get? c.runId = none
  events : ∀ index, s.events.get? (c.eventId c.runId index) = none
  outbox : s.outbox.get? (c.outboxId c.runId) = none
  evaluation : s.evaluations.get? c.evaluationId = none

/-- No row of the tenant has the id: none has it, or one of another tenant. -/
def ForeignId {ρ β : Type} (H : History ρ β) (tenant : String) (s : Store) (id : Uuid) : Prop :=
  ∀ a ∈ H.rows s, H.id (H.snapshot a) = id → ¬ Owns s tenant (H.runId a)

/-- The cursor names no row of the tenant in the table that the call pages through. -/
def TenantOp.ForeignCursor (tenant : String) (s : Store) (cursor : Uuid) : TenantOp → Prop
  | getAttempts .. => ForeignId attemptHistory tenant s cursor
  | getEvents .. => ForeignId eventHistory tenant s cursor
  | getEvaluations .. => ForeignId evaluationHistory tenant s cursor
  | _ => False

/-- Every principal of the registry has one tenant. -/
def OneTenant (records : List CredentialRecord) : Prop :=
  ∀ principal tenant tenant', Binds records principal tenant → Binds records principal tenant' →
    tenant = tenant'

variable {records : List CredentialRecord} {record : CredentialRecord} {tenant : String} {c : Call}
  {o1 o2 s1 s2 s : Store} {runId cursor : Uuid} {busy : Lock → Bool} {op : TenantOp}

/-! ### Ids of other tenants -/

theorem run_getRunForClient_foreign (h : ¬ Owns s tenant runId) :
    (getRunForClient tenant runId).run busy s
      = .error (.runNotFoundError ("Run " ++ runId.str ++ " was not found")) := by
  have hnone : s.runForClient tenant runId = none := by
    refine Option.eq_none_iff_forall_ne_some.mpr fun run hrun => h (owns_iff_get?.mpr ⟨run, ?_⟩)
    exact runForClient_eq_some.mp hrun
  simp only [getRunForClient, bind_eq, run_bind, run_read, hnone, ok_bind, run_raise]

/-- The body of a call stops at the first statement that looks for the run. -/
theorem run_getHistory_foreign {ρ β : Type} {H : History ρ β} {limit : ℤ} {cursor : Option Uuid}
    (h : ¬ Owns s tenant runId) : (getHistory H tenant runId limit cursor).run busy s
      = .error (.runNotFoundError ("Run " ++ runId.str ++ " was not found")) := by
  simp only [getHistory, bind_eq, run_bind, run_getRunForClient_foreign h, error_bind]

theorem run_getHistory_foreignCursor {ρ β : Type} {H : History ρ β} {limit : ℤ}
    (hown : Owns s tenant runId) (h : ForeignId H tenant s cursor) :
    (getHistory H tenant runId limit (some cursor)).run busy s
      = .error (.invalidCursorError "Cursor does not belong to this history") := by
  obtain ⟨run, hrun⟩ := owns_iff_get?.mp hown
  have hfind : ((H.ofRun runId s).find? fun r => H.id (H.snapshot r) == cursor) = none := by
    refine List.find?_eq_none.mpr fun a ha hid => ?_
    obtain ⟨hmem, hof⟩ := List.mem_filter.mp ha
    refine h a hmem (beq_iff_eq.mp hid) ?_
    rw [beq_iff_eq.mp hof]
    exact hown
  simp only [getHistory, bind_eq, run_bind,
    run_getRunForClient_some (runForClient_eq_some.mpr hrun), ok_bind, run_read, hfind,
    run_raise]

theorem run_map_error {α β : Type} {r : DbRequest α} {f : α → β} {e : PyError}
    (h : r.run busy s = .error e) : (r.map f).run busy s = .error e := by
  rw [Request.run_map, h]
  rfl

theorem run_toRequest_error {α β : Type} {t : DbTx α} {f : α → β} {e : PyError}
    (h : t.run busy s = .error e) : (t.toRequest.map f).run busy s = .error e :=
  run_map_error ((run_toRequest busy s t).trans h)

/-! ### Two runs of a call -/

theorem Fresh.freeFor_evaluation (h : Fresh c s) (href : Referenced s) :
    s.evaluations.FreeFor (c.evaluationId, some c.runId) := by
  intro e he
  have hid : e.id ≠ c.evaluationId := Table.get?_eq_none_iff.mp h.evaluation e he
  have hjob : e.jobRunId ≠ some c.runId := by
    intro hjob
    have hrun := href.jobs e he c.runId hjob
    rw [Store.hasRun, h.run] at hrun
    exact absurd hrun (by simp)
  show (e.id == c.evaluationId || (e.jobRunId.isSome && e.jobRunId == some c.runId)) = false
  simp [hid, hjob]

theorem Fresh.drawnAlike (h1 : Fresh c s1) (h2 : Fresh c s2) (href1 : Referenced s1)
    (href2 : Referenced s2) : DrawnAlike c s1 s2 where
  runs := by rw [Store.hasRun, Store.hasRun, h1.run, h2.run]
  events index := by
    have hfree {s : Store} (h : Fresh c s) : s.events.FreeFor (c.eventId c.runId index) :=
      fun e he => beq_eq_false_iff_ne.mpr (Table.get?_eq_none_iff.mp (h.events index) e he)
    exact iff_of_true (hfree h1) (hfree h2)
  outbox := by
    have hfree {s : Store} (h : Fresh c s) : s.outbox.FreeFor (c.outboxId c.runId) :=
      fun e he => beq_eq_false_iff_ne.mpr (Table.get?_eq_none_iff.mp h.outbox e he)
    exact iff_of_true (hfree h1) (hfree h2)
  evaluations := iff_of_true (h1.freeFor_evaluation href1) (h2.freeFor_evaluation href2)

/-- Where the two runs begin. -/
theorem aligned_start (hfresh1 : Fresh c s1) (hfresh2 : Fresh c s2)
    (h1 : Referenced s1 ∧ Attested records s1) (h2 : Referenced s2 ∧ Attested records s2)
    (hrows : tenantRows records tenant s1 = tenantRows records tenant s2) :
    Aligned records tenant c s1 s2 [] s1 s2 where
  rows := hrows
  left := ⟨h1.1, h1.2, fun _ _ => rfl⟩
  right := ⟨h2.1, h2.2, fun _ _ => rfl⟩
  drawn := hfresh1.drawnAlike hfresh2 h1.1 h2.1
  messages := ⟨[], by simp, by simp, by simp⟩
  owned := by simp

/-- Two calls that their caller cannot tell apart and that have done the same: what they returned
and the stores they began in and left. -/
structure SameCall (records : List CredentialRecord) (tenant : String) (s1 s2 : Store)
    (r1 r2 : Except PyError TenantAnswer × Store) : Prop where
  answer : r1.1 = r2.1
  rows : tenantRows records tenant r1.2 = tenantRows records tenant r2.2
  messages : SameMessages tenant s1 s2 r1.2 r2.2
  left : ∀ other, other ≠ tenant → tenantRows records other r1.2 = tenantRows records other s1
  right : ∀ other, other ≠ tenant → tenantRows records other r2.2 = tenantRows records other s2

section Calls

variable [Externals]

/-- Every call does the same in two stores with the same rows of its tenant. -/
theorem alike_request (hrecord : record ∈ records) (hone : OneTenant records) (op : TenantOp)
    (h : Aligned records record.tenantId c o1 o2 [] s1 s2) :
    (op.request c record).Alike busy s1 s2
      fun _ => Aligned records record.tenantId c o1 o2 [] := by
  have hprincipal := record.orElseText_principalId record.tenantId
  have hbinds : Binds records (orElseText (some record.principalId) record.tenantId)
      record.tenantId := ⟨record, hrecord, hprincipal.symm, rfl⟩
  have hunique : ∀ other, Binds records (orElseText (some record.principalId) record.tenantId)
      other → other = record.tenantId := fun other hother => hone _ _ _ hother hbinds
  cases op with
  | submit svc key input policy =>
    exact (alike_submit h hbinds hunique).map fun _ _ _ h => h
  | submitRegression svc payload key =>
    exact (alike_submit h hbinds hunique).map fun _ _ _ h => h
  | evaluate svc runId rules =>
    exact (alike_evaluate h hbinds hunique).toRequest.map fun _ _ _ h => h
  | replay svc runId key => exact (alike_replay h hbinds hunique).map fun _ _ _ h => h
  | getRun runId => exact (alike_getRun h).toRequest.map fun _ _ _ h => h
  | getAttempts runId limit cursor =>
    exact (alike_getHistory h (fun _ _ => congrArg TenantRows.attempts) cursor).toRequest.map
      fun _ _ _ h => h
  | getEvents runId limit cursor =>
    exact (alike_getHistory h (fun _ _ => congrArg TenantRows.events) cursor).toRequest.map
      fun _ _ _ h => h
  | getEvaluations runId limit cursor =>
    exact (alike_getHistory h (fun _ _ => congrArg TenantRows.evaluations) cursor).toRequest.map
      fun _ _ _ h => h

theorem sameCall_of_aligned (hrecord : record ∈ records) (hone : OneTenant records)
    (h : Aligned records record.tenantId c s1 s2 [] s1 s2) :
    SameCall records record.tenantId s1 s2 (op.call busy c record s1)
      (op.call busy c record s2) := by
  have hrun : (op.request c record).Alike busy s1 s2 _ := alike_request hrecord hone op h
  unfold Request.Alike at hrun
  unfold TenantOp.call
  generalize (op.request c record).run busy s1 = x1 at hrun
  generalize (op.request c record).run busy s2 = x2 at hrun
  cases hrun with
  | ok hend => exact ⟨rfl, hend.rows, hend.messages, hend.left.others, hend.right.others⟩
  | error e => exact ⟨rfl, h.rows, h.messages, h.left.others, h.right.others⟩

theorem call_error {e : PyError} (h : (op.request c record).run busy s = .error e) :
    op.call busy c record s = (.error e, s) := by
  simp only [TenantOp.call, h]

theorem run_evaluate_foreign {svc : RunService} {rules : List JsonObject}
    {principalId : Option String} (h : ¬ Owns s tenant runId) :
    (evaluate svc c tenant runId rules principalId).run busy s
      = .error ((TenantOp.evaluate svc runId rules).refusal runId) := by
  unfold TenantOp.refusal
  cases hrules : Externals.validateRules rules with
  | ok _ =>
    simp only [evaluate, hrules, bind_eq, run_bind, run_ofExcept, ok_map, ok_bind,
      run_lockIdentity, run_getRunForClient_foreign h, error_bind]
  | error e =>
    simp only [evaluate, hrules, bind_eq, run_bind, run_ofExcept, error_map, error_bind]

theorem run_replay_foreign {svc : RunService} {key : String} {principalId : Option String}
    (h : ¬ Owns s tenant runId) : (replay svc c tenant runId key principalId).run busy s
      = .error (.runNotFoundError ("Run " ++ runId.str ++ " was not found")) := by
  simp only [replay, Request.run, bind_eq, run_bind, run_lockIdentity, ok_bind,
    run_getRunForClient_foreign h, error_bind]
  rfl

/-- **A run of another tenant** is answered as one that does not exist. -/
theorem call_foreign_run (hrun : op.runId? = some runId) (h : ¬ Owns s record.tenantId runId) :
    op.call busy c record s = (.error (op.refusal runId), s) := by
  refine call_error ?_
  cases op with
  | submit svc key input policy => exact absurd hrun (by simp [TenantOp.runId?])
  | submitRegression svc payload key => exact absurd hrun (by simp [TenantOp.runId?])
  | evaluate svc id rules =>
    cases hrun
    exact run_toRequest_error (run_evaluate_foreign h)
  | replay svc id key =>
    cases hrun
    exact run_map_error (run_replay_foreign h)
  | getRun id =>
    cases hrun
    refine run_toRequest_error ?_
    simp only [getRun, bind_eq, run_bind, run_getRunForClient_foreign h, error_bind]
    rfl
  | getAttempts id limit cursor | getEvents id limit cursor | getEvaluations id limit cursor =>
    cases hrun
    exact run_toRequest_error (run_getHistory_foreign h)

/-- **A cursor of another tenant** is answered as one that does not exist. -/
theorem call_foreign_cursor (hrun : op.runId? = some runId) (hcursor : op.cursor? = some cursor)
    (hown : Owns s record.tenantId runId) (h : op.ForeignCursor record.tenantId s cursor) :
    op.call busy c record s
      = (.error (.invalidCursorError "Cursor does not belong to this history"), s) := by
  refine call_error ?_
  cases op with
  | getAttempts id limit cursor | getEvents id limit cursor | getEvaluations id limit cursor =>
    cases hrun
    cases hcursor
    exact run_toRequest_error (run_getHistory_foreignCursor hown h)
  | _ => exact h.elim

end Calls

/-! ### The theorem -/

section Theorem

variable [Externals] [FloatRepr] [DateTimeText]

/-- **Tenants do not interfere.** The settings accept no registry but one that gives every
principal one tenant. Under such a registry every run of a principal is of the principal's tenant,
and a call does the same in any two reachable stores that hold the same rows of the caller's tenant;
a run or a cursor that is not the tenant's is refused in the same words, whether another tenant has
it or nobody. -/
theorem tenant_noninterference :
    (∀ fields started settings, modelPostInit fields started = .ok settings →
      OneTenant settings.credentials)
    ∧ ∀ records, OneTenant records → ∀ events1 events2 : List (Event Input),
      (∀ i, .start i ∈ events1 → Registered records i) →
      (∀ i, .start i ∈ events2 → Registered records i) →
      ∀ record ∈ records, ∀ (busy : Lock → Bool) (c : Call) (op : TenantOp),
      let s1 := (Concurrency.system.after events1).store
      let s2 := (Concurrency.system.after events2).store
      (∀ run ∈ s1.runs.rows, run.principalId = some record.principalId →
        run.clientId = record.tenantId)
      ∧ (Fresh c s1 → Fresh c s2 →
        tenantRows records record.tenantId s1 = tenantRows records record.tenantId s2 →
        SameCall records record.tenantId s1 s2 (op.call busy c record s1)
          (op.call busy c record s2))
      ∧ (∀ runId, op.runId? = some runId → ¬ Owns s1 record.tenantId runId →
        op.call busy c record s1 = (.error (op.refusal runId), s1))
      ∧ ∀ runId cursor, op.runId? = some runId → op.cursor? = some cursor →
        Owns s1 record.tenantId runId → op.ForeignCursor record.tenantId s1 cursor →
        op.call busy c record s1
          = (.error (.invalidCursorError "Cursor does not belong to this history"), s1) := by
  refine ⟨fun fields started settings haccepted principal tenant tenant' => ?_, ?_⟩
  · exact binds_unique haccepted
  intro records hone events1 events2 hregistered1 hregistered2 record hrecord busy c op s1 s2
  have h1 := wellFormed_reachable events1 hregistered1
  have h2 := wellFormed_reachable events2 hregistered2
  refine ⟨fun run hrun hprincipal => ?_, fun hfresh1 hfresh2 hrows => ?_,
    fun runId => call_foreign_run, fun runId cursor => call_foreign_cursor⟩
  · obtain ⟨principal, hstored, hbound⟩ := h1.2 run hrun
    rw [hprincipal] at hstored
    cases hstored
    exact hone _ _ _ hbound ⟨record, hrecord, rfl, rfl⟩
  · exact sameCall_of_aligned hrecord hone (aligned_start hfresh1 hfresh2 h1 h2 hrows)

end Theorem

/-! ### A sample -/

/-- A record of the sample registry; its key is known by one digit. -/
def sampleRecord (digit : Char) (principalId tenantId : String)
    (valid : validFields (String.ofList (List.replicate 32 digit)) principalId tenantId
      (String.ofList (List.replicate 32 '0')) = true) : CredentialRecord where
  keyId := String.ofList (List.replicate 32 digit)
  principalId := principalId
  tenantId := tenantId
  scheme := .hmacSha256V1
  salt := String.ofList (List.replicate 32 '0')
  verifier := String.ofList (List.replicate 64 '0')
  enabled := true
  expiresAt := none
  valid := valid

def alice : CredentialRecord := sampleRecord 'a' "alice" "tenant-a" (by decide +kernel)

def bob : CredentialRecord := sampleRecord 'b' "bob" "tenant-b" (by decide +kernel)

/-- The second tenant has submitted a run. -/
def bobSubmits : List (Event Input) :=
  Concurrency.statements (sampleInput 0 1 (.submit sampleRunService bob.tenantId "key" [] []
    (some bob.principalId))) 0 12

/-- A later call of the first tenant. -/
def aliceCalls : Call :=
  { sampleCall 5 2 with eventId := fun _ index => sampleUuid (if index = 0 then 20 else 21) }

/-- A tenant without runs and counters has no rows. -/
theorem tenantRows_eq_empty (hruns : ∀ r ∈ s.runs.rows, r.clientId ≠ tenant)
    (hquotas : s.quotas.rows = []) : tenantRows records tenant s = ⟨∅, ∅, ∅, ∅, ∅⟩ := by
  have hnone : ∀ id, ¬ Owns s tenant id := fun id ⟨r, hr, _, hclient⟩ => hruns r hr hclient
  ext a
  · exact iff_of_false (fun ha => hruns a ha.1 ha.2) (Set.notMem_empty a)
  · exact iff_of_false (fun ha => hnone _ ha.2) (Set.notMem_empty a)
  · exact iff_of_false (fun ha => hnone _ ha.2) (Set.notMem_empty a)
  · exact iff_of_false (fun ha => hnone _ ha.2) (Set.notMem_empty a)
  · refine iff_of_false (fun ha => ?_) (Set.notMem_empty a)
    have hmem := ha.1
    rw [hquotas] at hmem
    exact absurd hmem (by simp)

/-- The first tenant submits a run and asks for one of the second tenant; it cannot see whether
there is one. -/
theorem tenant_noninterference_sample :
    let _ : Externals := sampleExternals
    let s := (Concurrency.system.after bobSubmits).store
    let submission := TenantOp.submit sampleRunService "key" [] []
    s.runs.rows.length = 1
      ∧ SameCall [alice, bob] alice.tenantId Store.empty s
        (submission.call (fun _ => false) aliceCalls alice Store.empty)
        (submission.call (fun _ => false) aliceCalls alice s)
      ∧ (TenantOp.getRun (sampleUuid 1)).call (fun _ => false) aliceCalls alice s
        = (.error (.runNotFoundError "Run 00000000-0000-0000-0000-000000000001 was not found"),
          s) := by
  intro _ s submission
  let _ : FloatRepr := exactRepr
  let _ : DateTimeText := strokeTimes
  have haccepted : modelPostInit (sampleFields (registryText defaultStyle [alice, bob])
      "a pepper of more than 32 characters") ⟨0, Nat.zero_le _⟩ = _ :=
    modelPostInit_sampleRegistry (by decide) rfl (by decide +kernel)
  have hone : OneTenant [alice, bob] := tenant_noninterference.1 _ _ _ haccepted
  have hregistered : ∀ i, .start i ∈ bobSubmits → Registered [alice, bob] i := by
    intro i hi clientId principalId hcaller
    rw [bobSubmits, Concurrency.start_mem_statements] at hi
    subst hi
    cases hcaller
    exact ⟨bob, by simp, rfl, rfl⟩
  have hother : ∀ r ∈ s.runs.rows, r.clientId ≠ alice.tenantId := by decide +kernel
  have hfresh : Fresh aliceCalls s := by
    refine ⟨by decide +kernel, fun index => ?_, by decide +kernel, by decide +kernel⟩
    show s.events.get? (sampleUuid (if index = 0 then 20 else 21)) = none
    split
    · decide +kernel
    · decide +kernel
  have hempty : Fresh aliceCalls Store.empty := ⟨rfl, fun _ => rfl, rfl, rfl⟩
  have hrows : tenantRows [alice, bob] alice.tenantId Store.empty
      = tenantRows [alice, bob] alice.tenantId s :=
    (tenantRows_eq_empty (by simp [Store.empty]) rfl).trans
      (tenantRows_eq_empty hother (by decide +kernel)).symm
  have hforeign : ¬ Owns s alice.tenantId (sampleUuid 1) :=
    fun ⟨r, hr, _, hclient⟩ => hother r hr hclient
  obtain ⟨-, hsame, -⟩ := tenant_noninterference.2 [alice, bob] hone [] bobSubmits (by simp)
    hregistered alice (by simp) (fun _ => false) aliceCalls submission
  obtain ⟨-, -, hrefused, -⟩ := tenant_noninterference.2 [alice, bob] hone bobSubmits [] hregistered
    (by simp) alice (by simp) (fun _ => false) aliceCalls (.getRun (sampleUuid 1))
  refine ⟨by decide +kernel, hsame hempty hfresh hrows, (hrefused _ rfl hforeign).trans ?_⟩
  have htext : "Run " ++ (sampleUuid 1).str ++ " was not found"
      = "Run 00000000-0000-0000-0000-000000000001 was not found" := by decide +kernel
  show (Except.error (PyError.runNotFoundError _), s) = _
  rw [htext]

end AgentRuntime.Security
