import AgentRuntime.Concurrency.Waiting
import AgentRuntime.Lib.Commits
import AgentRuntime.Security.Authentication

/-!
# The rows of a tenant

The registry binds every principal to one tenant, and every run carries the tenant that it was
accepted for. Through its run every attempt, event and evaluation belongs to a tenant, and through
its scope every counter of the quotas.

* `Binds`, `Registered`: the principals of a tenant, and operations that name them correctly;
* `tenantRows`: all rows of a tenant;
* `Referenced`, `Attested`: every row belongs to a stored run, and every run to the tenant of its
  principal;
* `wellFormed_reachable`: that this holds of every committed store;
* `OwnWrite`, `effect`, `tenantRows_apply`: a write to the rows of one tenant, and what it makes of
  the rows of all tenants.
-/

namespace AgentRuntime.Security

open Lib Table Domain Application Database Lifecycle
open Concurrency (apply_grows Grows)

/-! ### Principals -/

/-- The registry has the principal under the tenant. -/
def Binds (records : List CredentialRecord) (principal tenant : String) : Prop :=
  ∃ record ∈ records, record.principalId = principal ∧ record.tenantId = tenant

section

variable [FloatRepr] [DateTimeText]

/-- **A principal has one tenant**, in every registry that the settings accept. -/
theorem binds_unique {fields : SettingsFields} {started : Timestamp} {settings : Settings}
    (haccepted : modelPostInit fields started = .ok settings) {principal tenant tenant' : String}
    (h : Binds settings.credentials principal tenant)
    (h' : Binds settings.credentials principal tenant') : tenant = tenant' := by
  obtain ⟨record, hrecord, rfl, rfl⟩ := h
  obtain ⟨record', hrecord', hsame, rfl⟩ := h'
  cases hmode : fields.authMode with
  | disabled =>
    -- without authentication there is no registry
    unfold modelPostInit at haccepted
    rw [hmode, if_pos rfl] at haccepted
    split_ifs at haccepted
    cases haccepted
    exact absurd hrecord (by simp)
  | apiKey =>
    obtain ⟨-, -, -, -, -, -, hcheck⟩ := modelPostInit_ok haccepted hmode
    obtain ⟨-, -, -, htenants⟩ := checkRegistry_ok hcheck
    exact htenants record hrecord record' hrecord' hsame.symm

end

theorem CredentialRecord.principalId_ne (record : CredentialRecord) : record.principalId ≠ "" := by
  intro hempty
  have hvalid := record.valid
  unfold validFields at hvalid
  rw [hempty] at hvalid
  simp [show Api.validClientId "" = false by decide] at hvalid

/-- An authenticated principal is not replaced by its tenant. -/
theorem CredentialRecord.orElseText_principalId (record : CredentialRecord) (tenant : String) :
    orElseText (some record.principalId) tenant = record.principalId :=
  if_neg record.principalId_ne

/-- The tenant and the principal that an operation is called with. -/
def caller? : Op → Option (String × Option String)
  | .submit _ clientId _ _ _ principalId => some (clientId, principalId)
  | .submitRegression _ clientId principalId _ _ => some (clientId, some principalId)
  | .evaluate _ clientId _ _ principalId => some (clientId, principalId)
  | .replay _ clientId _ _ principalId => some (clientId, principalId)
  | _ => none

/-- The operation is one of the workers, or it is called with a record of the registry. -/
def Registered (records : List CredentialRecord) (i : Input) : Prop :=
  ∀ clientId principalId, caller? i.op = some (clientId, principalId) →
    ∃ record ∈ records, clientId = record.tenantId ∧ principalId = some record.principalId

/-! ### Rows -/

/-- The run is stored and belongs to the tenant. -/
def Owns (s : Store) (tenant : String) (runId : Uuid) : Prop :=
  ∃ run ∈ s.runs.rows, run.id = runId ∧ run.clientId = tenant

/-- The rows that belong to runs of the tenant. -/
def ownRows {α : Type} (runId : α → Uuid) (rows : List α) (s : Store) (tenant : String) : Set α :=
  {a | a ∈ rows ∧ Owns s tenant (runId a)}

/-- The scope text of the tenant or of one of its principals. -/
def OwnScope (records : List CredentialRecord) (tenant scope : String) : Prop :=
  scope = tenantScope tenant ∨ ∃ principal, Binds records principal tenant
    ∧ scope = principalScope principal

/-- Rows of all kinds. -/
@[ext] structure TenantRows where
  runs : Set Run
  attempts : Set RunAttempt
  events : Set RunEvent
  evaluations : Set Evaluation
  quotas : Set ProviderQuota

/-- All rows of a tenant: its runs with their attempts, events and evaluations, and the counters of
the tenant and its principals. -/
def tenantRows (records : List CredentialRecord) (tenant : String) (s : Store) : TenantRows where
  runs := {r | r ∈ s.runs.rows ∧ r.clientId = tenant}
  attempts := ownRows RunAttempt.runId s.attempts.rows s tenant
  events := ownRows RunEvent.runId s.events.rows s tenant
  evaluations := ownRows Evaluation.runId s.evaluations.rows s tenant
  quotas := {q | q ∈ s.quotas.rows ∧ OwnScope records tenant q.scope}

variable {records : List CredentialRecord} {tenant tenant' : String} {s s' : Store} {w : Write}
  {runId : Uuid}

theorem owns_iff_get? : Owns s tenant runId ↔
    ∃ run, s.runs.get? runId = some run ∧ run.clientId = tenant := by
  constructor
  · rintro ⟨run, hmem, hid, hclient⟩
    exact ⟨run, get?_eq_some_iff.mpr ⟨hmem, hid⟩, hclient⟩
  · rintro ⟨run, hget, hclient⟩
    obtain ⟨hmem, hid⟩ := get?_eq_some_iff.mp hget
    exact ⟨run, hmem, hid, hclient⟩

theorem Owns.hasRun (h : Owns s tenant runId) : s.hasRun runId = true := by
  obtain ⟨run, hget, -⟩ := owns_iff_get?.mp h
  exact Option.isSome_iff_exists.mpr ⟨run, hget⟩

/-- A run belongs to one tenant. -/
theorem Owns.eq (h : Owns s tenant runId) (h' : Owns s tenant' runId) : tenant = tenant' := by
  obtain ⟨run, hget, rfl⟩ := owns_iff_get?.mp h
  obtain ⟨run', hget', rfl⟩ := owns_iff_get?.mp h'
  rw [hget] at hget'
  rw [Option.some.inj hget']

/-! ### Every row belongs to a stored run -/

/-- The foreign keys of attempts, events and evaluations. -/
structure Referenced (s : Store) : Prop where
  attempts : ∀ a ∈ s.attempts.rows, s.hasRun a.runId = true
  events : ∀ e ∈ s.events.rows, s.hasRun e.runId = true
  evaluations : ∀ e ∈ s.evaluations.rows, s.hasRun e.runId = true
  jobs : ∀ e ∈ s.evaluations.rows, ∀ job ∈ e.jobRunId, s.hasRun job = true

theorem referenced_apply (h : Referenced s) (happly : Writes.apply w s = .ok s') :
    Referenced s' := by
  have hgrows := apply_grows happly
  have hold : ∀ {id}, s.hasRun id = true → s'.hasRun id = true := fun hid => hgrows.hasRun hid
  have hattempts := fun a ha => hold (h.attempts a ha)
  have hevents := fun e he => hold (h.events e he)
  have hevaluations := fun e he => hold (h.evaluations e he)
  have hjobs := fun e he job hjob => hold (h.jobs e he job hjob)
  cases applied happly with
  | insertAttempt a hins hrun =>
    exact ⟨forall_insert hins hattempts hrun, hevents, hevaluations, hjobs⟩
  | updateAttempt id sets =>
    have hkeeps := assignAll_keeps AttemptSet.ident_assign sets
    refine ⟨forall_update hkeeps hattempts fun a ha => ?_, hevents, hevaluations, hjobs⟩
    rw [Concurrency.runId_assignAll]
    exact ha
  | insertEvent e hins hrun =>
    exact ⟨hattempts, forall_insert hins hevents hrun, hevaluations, hjobs⟩
  | insertEvaluation e hins hrun hjob =>
    refine ⟨hattempts, hevents, forall_insert hins hevaluations hrun,
      forall_insert hins hjobs fun job hmem => ?_⟩
    rw [Option.mem_def.mp hmem] at hjob
    exact hjob
  | updateEvaluation id sets =>
    have hkeeps := assignAll_keeps EvaluationSet.ident_assign sets
    refine ⟨hattempts, hevents, forall_update hkeeps hevaluations fun e he => ?_,
      forall_update hkeeps hjobs fun e he => ?_⟩
    · rw [(Concurrency.evaluationKept_assignAll sets id e).1]
      exact he
    · rw [(Concurrency.evaluationKept_assignAll sets id e).2]
      exact he
  | _ => exact ⟨hattempts, hevents, hevaluations, hjobs⟩

/-! ### Every run belongs to the tenant of its principal -/

/-- The registry has the run's principal under the run's tenant. -/
def AttestedRun (records : List CredentialRecord) (r : Run) : Prop :=
  ∃ principal, r.principalId = some principal ∧ Binds records principal r.clientId

/-- All runs of a principal carry the tenant that the registry binds it to. -/
def Attested (records : List CredentialRecord) (s : Store) : Prop :=
  ∀ r ∈ s.runs.rows, AttestedRun records r

/-- The write inserts no run but one of a registered principal. -/
def AttestedWrite (records : List CredentialRecord) : Write → Prop
  | .insertRun r => AttestedRun records r
  | _ => True

theorem AttestedRun.assignAll {r : Run} (h : AttestedRun records r) (sets : List RunSet) :
    AttestedRun records (assignAll RunSet.assign sets r) := by
  have haccepted := accepted_assignAll sets r
  have hprincipal : (Database.assignAll RunSet.assign sets r).principalId = r.principalId :=
    congrArg Accepted.principalId haccepted
  have hclient : (Database.assignAll RunSet.assign sets r).clientId = r.clientId :=
    congrArg Accepted.clientId haccepted
  unfold AttestedRun
  rw [hprincipal, hclient]
  exact h

theorem attested_apply (hw : AttestedWrite records w) (happly : Writes.apply w s = .ok s')
    (h : Attested records s) : Attested records s' := by
  unfold Attested
  rcases (apply_change happly).runs with hsame | ⟨r, rfl, hins⟩ | ⟨id, sets, rfl, hruns⟩
  · rw [hsame]
    exact h
  · exact forall_insert hins h hw
  · rw [hruns]
    exact forall_update _ h fun r hr => hr.assignAll sets

theorem attestedRun_newRun {c : Call} {record : CredentialRecord} (hrecord : record ∈ records)
    {kind : WorkKind} {key hash : String} {input policy : JsonObject} {source : Option Uuid} :
    AttestedRun records (newRun c record.tenantId
      (orElseText (some record.principalId) record.tenantId) kind key hash input policy source) := by
  rw [record.orElseText_principalId]
  exact ⟨record.principalId, rfl, record, hrecord, rfl, rfl⟩

section Reachable

variable [Externals]

/-- What a registered operation writes. -/
theorem request_attested {i : Input} (hi : Registered records i) :
    (Concurrency.request i).OnlyWrites (AttestedWrite records) := by
  refine (Concurrency.request_footprint i).mono fun w hw => ?_
  replace hw := hw.1
  cases w with
  | insertRun r =>
    obtain ⟨op, c, busy⟩ := i
    cases op with
    | submit svc clientId key input policy principalId =>
      obtain ⟨record, hrecord, rfl, rfl⟩ := hi _ _ rfl
      cases (hw : r = _)
      exact attestedRun_newRun hrecord
    | submitRegression svc clientId principalId payload key =>
      obtain ⟨record, hrecord, rfl, hprincipal⟩ := hi _ _ rfl
      cases hprincipal
      cases (hw : r = _)
      exact attestedRun_newRun hrecord
    | evaluate svc clientId runId rules principalId =>
      obtain ⟨record, hrecord, rfl, rfl⟩ := hi _ _ rfl
      cases (hw : r = _)
      exact attestedRun_newRun hrecord
    | replay svc clientId runId key principalId =>
      obtain ⟨record, hrecord, rfl, rfl⟩ := hi _ _ rfl
      obtain ⟨source, rfl⟩ : ∃ source, r = _ := hw
      exact attestedRun_newRun hrecord
    | _ => exact hw.elim
  | _ => trivial

/-- **Every committed store** has its foreign keys in order, and every run of a principal carries
the tenant of the principal. -/
theorem wellFormed_reachable (events : List (Event Input))
    (hregistered : ∀ i, .start i ∈ events → Registered records i) :
    Referenced (Concurrency.system.after events).store
      ∧ Attested records (Concurrency.system.after events).store := by
  refine kept_after (W := AttestedWrite records) (P := fun s => Referenced s ∧ Attested records s)
    (K := Concurrency.locking) (fun i hi => request_attested hi) (fun w s s' hw happly h => ?_) ?_
    events hregistered
  · exact ⟨referenced_apply h.1 happly, attested_apply hw happly h.2⟩
  · exact ⟨⟨by simp [Store.empty], by simp [Store.empty], by simp [Store.empty],
      by simp [Store.empty]⟩, by simp [Attested, Store.empty]⟩

end Reachable

/-! ### Writes to the rows of one tenant -/

section OwnRows

variable {α : Type} {runIdOf : α → Uuid} {rows : List α} {a : α}

variable {p : α → Prop}

theorem setOf_concat_own (h : p a) :
    {b | b ∈ rows ++ [a] ∧ p b} = insert a {b | b ∈ rows ∧ p b} := by
  ext b
  simp only [List.mem_append, List.mem_singleton, Set.mem_ofPred_eq, Set.mem_insert_iff]
  constructor
  · rintro ⟨hb | rfl, hown⟩
    · exact .inr ⟨hb, hown⟩
    · exact .inl rfl
  · rintro (rfl | ⟨hb, hown⟩)
    · exact ⟨.inr rfl, h⟩
    · exact ⟨.inl hb, hown⟩

theorem setOf_concat_other (h : ¬ p a) : {b | b ∈ rows ++ [a] ∧ p b} = {b | b ∈ rows ∧ p b} := by
  ext b
  simp only [List.mem_append, List.mem_singleton, Set.mem_ofPred_eq]
  constructor
  · rintro ⟨hb | rfl, hown⟩
    · exact ⟨hb, hown⟩
    · exact absurd hown h
  · exact fun ⟨hb, hown⟩ => ⟨.inl hb, hown⟩

end OwnRows

/-- A new run changes nothing about the runs there are. -/
theorem owns_insertRun {r : Run} {t : Table Run} (hins : s.runs.insert? r = some t) {id : Uuid}
    (hid : s.hasRun id = true) : Owns { s with runs := t } tenant id ↔ Owns s tenant id := by
  have hne : r.id ≠ id := by
    rintro rfl
    have hfresh : s.runs.get? r.id = none := get?_insert_fresh hins
    rw [Store.hasRun, hfresh] at hid
    exact absurd hid (by simp)
  rw [owns_iff_get?, owns_iff_get?, get?_insert hins, Run.row_id, if_neg hne]

/-- The run with the columns of `sets` assigned if it is the run `id`. -/
def assignedRun (id : Uuid) (sets : List RunSet) (r : Run) : Run :=
  if r.id = id then assignAll RunSet.assign sets r else r

theorem clientId_assignedRun (id : Uuid) (sets : List RunSet) (r : Run) :
    (assignedRun id sets r).clientId = r.clientId := by
  unfold assignedRun
  split
  · exact congrArg Accepted.clientId (accepted_assignAll sets r)
  · rfl

theorem id_assignedRun (id : Uuid) (sets : List RunSet) (r : Run) :
    (assignedRun id sets r).id = r.id := by
  unfold assignedRun
  split
  · exact congrArg Accepted.id (accepted_assignAll sets r)
  · rfl

theorem ident_assignAll (sets : List RunSet) : Row.Keeps (assignAll RunSet.assign sets) :=
  assignAll_keeps RunSet.ident_assign sets

/-- The runs after an update. -/
abbrev updatedRuns (s : Store) (id : Uuid) (sets : List RunSet) : Table Run :=
  s.runs.update id (assignAll RunSet.assign sets) (ident_assignAll sets)

theorem mem_updatedRuns {id : Uuid} {sets : List RunSet} {r : Run} :
    r ∈ (updatedRuns s id sets).rows ↔ ∃ q ∈ s.runs.rows, assignedRun id sets q = r := by
  rw [update_rows, List.mem_map]
  exact Iff.rfl

theorem owns_updatedRuns {id : Uuid} {sets : List RunSet} :
    Owns { s with runs := updatedRuns s id sets } tenant runId ↔ Owns s tenant runId := by
  constructor
  · rintro ⟨r, hr, hid, hclient⟩
    obtain ⟨q, hq, rfl⟩ := mem_updatedRuns.mp hr
    rw [id_assignedRun] at hid
    rw [clientId_assignedRun] at hclient
    exact ⟨q, hq, hid, hclient⟩
  · rintro ⟨q, hq, hid, hclient⟩
    refine ⟨assignedRun id sets q, mem_updatedRuns.mpr ⟨q, hq, rfl⟩, ?_, ?_⟩
    · rw [id_assignedRun]
      exact hid
    · rw [clientId_assignedRun]
      exact hclient

/-- A write of the call `c` to rows of the tenant, under the ids that the call has drawn. -/
def OwnWrite (records : List CredentialRecord) (tenant : String) (c : Call) (s : Store) :
    Write → Prop
  | .insertRun r => r.id = c.runId ∧ r.clientId = tenant ∧ AttestedRun records r
      ∧ ∀ source ∈ r.replayOfRunId, Owns s tenant source
  | .updateRun id _ => Owns s tenant id
  | .insertEvent e => (∃ index, e.id = c.eventId c.runId index) ∧ Owns s tenant e.runId
      ∧ e.attemptId = none
  | .insertOutbox e => e.id = c.outboxId c.runId ∧ Owns s tenant e.aggregateId
  | .insertEvaluation e => e.id = c.evaluationId ∧ Owns s tenant e.runId
      ∧ e.jobRunId = some c.runId ∧ Owns s tenant c.runId
  | _ => False

/-- What such a write makes of the tenant's rows. -/
def effect : Write → TenantRows → TenantRows
  | .insertRun r, T => { T with runs := insert r T.runs }
  | .updateRun id sets, T => { T with runs := Set.image (assignedRun id sets) T.runs }
  | .insertEvent e, T => { T with events := insert e T.events }
  | .insertEvaluation e, T => { T with evaluations := insert e T.evaluations }
  | _, T => T

/-- The runs of the tenants after an update. -/
theorem setOf_updatedRuns (id : Uuid) (sets : List RunSet) :
    {r | r ∈ (updatedRuns s id sets).rows ∧ r.clientId = tenant}
      = Set.image (assignedRun id sets) {r | r ∈ s.runs.rows ∧ r.clientId = tenant} := by
  ext r
  constructor
  · rintro ⟨hr, hclient⟩
    obtain ⟨q, hq, rfl⟩ := mem_updatedRuns.mp hr
    rw [clientId_assignedRun] at hclient
    exact ⟨q, ⟨hq, hclient⟩, rfl⟩
  · rintro ⟨q, ⟨hq, hclient⟩, rfl⟩
    exact ⟨mem_updatedRuns.mpr ⟨q, hq, rfl⟩, (clientId_assignedRun id sets q).trans hclient⟩

/-- **A write to a tenant's rows** changes them as it says, and nobody else's. -/
theorem tenantRows_apply {c : Call} (hrefs : Referenced s) (hown : OwnWrite records tenant c s w)
    (happly : Writes.apply w s = .ok s') :
    tenantRows records tenant s' = effect w (tenantRows records tenant s)
      ∧ ∀ other, other ≠ tenant → tenantRows records other s' = tenantRows records other s := by
  cases applied happly with
  | @insertRun r t hins _ =>
    obtain ⟨-, rfl, -, -⟩ := hown
    have hrows := (insert?_eq_some hins).1
    have hothers (any : String) {α : Type} {runIdOf : α → Uuid} {rows : List α}
        (hall : ∀ a ∈ rows, s.hasRun (runIdOf a) = true) :
        ownRows runIdOf rows { s with runs := t } any = ownRows runIdOf rows s any :=
      Set.ext fun a => and_congr_right fun ha => owns_insertRun hins (hall a ha)
    constructor
    · refine TenantRows.ext ?_ (hothers _ hrefs.attempts) (hothers _ hrefs.events)
        (hothers _ hrefs.evaluations) rfl
      simp only [tenantRows, hrows]
      exact setOf_concat_own rfl
    · intro other hne
      refine TenantRows.ext ?_ (hothers _ hrefs.attempts) (hothers _ hrefs.events)
        (hothers _ hrefs.evaluations) rfl
      simp only [tenantRows, hrows]
      exact setOf_concat_other hne.symm
  | updateRun id sets =>
    have hothers (any : String) {α : Type} (runIdOf : α → Uuid) (rows : List α) :
        ownRows runIdOf rows { s with runs := updatedRuns s id sets } any
          = ownRows runIdOf rows s any :=
      Set.ext fun a => and_congr_right fun _ => owns_updatedRuns
    constructor
    · exact TenantRows.ext (setOf_updatedRuns id sets) (hothers _ _ _) (hothers _ _ _)
        (hothers _ _ _) rfl
    · intro other hne
      refine TenantRows.ext ((setOf_updatedRuns id sets).trans ?_) (hothers _ _ _) (hothers _ _ _)
        (hothers _ _ _) rfl
      have hsame : ∀ r ∈ {r | r ∈ s.runs.rows ∧ r.clientId = other}, assignedRun id sets r = r := by
        rintro r ⟨hr, hclient⟩
        refine if_neg ?_
        rintro rfl
        exact hne (Owns.eq ⟨r, hr, rfl, hclient⟩ hown)
      rw [Set.image_congr hsame, Set.image_id']
      rfl
  | @insertEvent e t hins _ _ =>
    obtain ⟨-, howned, -⟩ := hown
    have hrows := (insert?_eq_some hins).1
    constructor
    · refine TenantRows.ext rfl rfl ?_ rfl rfl
      simp only [tenantRows, hrows]
      exact setOf_concat_own howned
    · intro other hne
      refine TenantRows.ext rfl rfl ?_ rfl rfl
      simp only [tenantRows, hrows]
      exact setOf_concat_other fun hother => hne (hother.eq howned)
  | @insertEvaluation e t hins _ _ =>
    obtain ⟨-, howned, -⟩ := hown
    have hrows := (insert?_eq_some hins).1
    constructor
    · refine TenantRows.ext rfl rfl rfl ?_ rfl
      simp only [tenantRows, hrows]
      exact setOf_concat_own howned
    · intro other hne
      refine TenantRows.ext rfl rfl rfl ?_ rfl
      simp only [tenantRows, hrows]
      exact setOf_concat_other fun hother => hne (hother.eq howned)
  | insertOutbox e hins => exact ⟨rfl, fun _ _ => rfl⟩
  | _ => exact hown.elim

end AgentRuntime.Security
