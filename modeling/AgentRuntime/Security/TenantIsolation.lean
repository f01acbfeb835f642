import AgentRuntime.Lib.TwoRuns
import AgentRuntime.Lifecycle.Paging
import AgentRuntime.Security.Tenants

/-!
# Tenants do not interfere

What a tenant gets from the services and what becomes of its rows is decided by its own rows. A
call runs in two stores that hold the same rows of the tenant and may differ in everything else;
statement by statement both runs read the same and write the same, and neither touches a row of
another tenant.

* `runForClient_congr`, `keyHolder_congr`, `countRuns_congr`, `quota_congr`, `ofRun_perm`: what the
  services look at is the same in two stores with the same rows of the tenant;
* `Aligned`: two stores in the middle of two such runs;
* `Aligned.applies`, `Aligned.apply`: a write to the tenant's rows is accepted by both or refused
  by both, and keeps them aligned;
* `alike_submit`, `alike_replay`, `alike_evaluate`, `alike_getRun`, `alike_getHistory`: the calls.
-/

namespace AgentRuntime.Security

open Lib Table Domain Application Database Lifecycle
open Tx hiding exec bind
open Concurrency (apply_grows Grows)

variable {records : List CredentialRecord} {tenant : String} {c : Call} {o1 o2 s1 s2 s s' o : Store}
  {ids : List Uuid} {runId : Uuid} {w : Write} {busy : Lock → Bool}

/-! ### Stores with the same rows of a tenant -/

section SameRows

variable (h : tenantRows records tenant s1 = tenantRows records tenant s2)
include h

theorem mem_runs_iff {r : Run} (hr : r.clientId = tenant) :
    r ∈ s1.runs.rows ↔ r ∈ s2.runs.rows :=
  and_congr_left_iff.mp (Set.ext_iff.mp (congrArg TenantRows.runs h) r) hr

theorem owns_congr : Owns s1 tenant runId ↔ Owns s2 tenant runId :=
  exists_congr fun _ => and_congr_left fun hr => mem_runs_iff h hr.2

theorem runForClient_congr (runId : Uuid) :
    s1.runForClient tenant runId = s2.runForClient tenant runId := by
  ext r
  rw [runForClient_eq_some, runForClient_eq_some, get?_eq_some_iff, get?_eq_some_iff]
  exact and_congr_left fun hclient => and_congr_left fun _ => mem_runs_iff h hclient

theorem keyHolder_congr (key : String) :
    s1.keyHolder tenant key = s2.keyHolder tenant key := by
  ext r
  rw [keyHolder_eq_some, keyHolder_eq_some]
  exact and_congr_left fun hr => mem_runs_iff h hr.1

/-- A count of runs that all belong to the tenant. -/
theorem countRuns_congr {p : Run → Bool}
    (hp1 : ∀ r ∈ s1.runs.rows, p r = true → r.clientId = tenant)
    (hp2 : ∀ r ∈ s2.runs.rows, p r = true → r.clientId = tenant) (statuses : List ExecutionStatus) :
    countRuns s1 p statuses = countRuns s2 p statuses := by
  have hnodup (s : Store) (q : Run → Bool) : (s.runs.select q).Nodup :=
    (List.Nodup.of_map _ s.runs.ids_nodup).filter _
  refine ((List.perm_ext_iff_of_nodup (hnodup _ _) (hnodup _ _)).mpr fun r => ?_).length_eq
  rw [mem_select, mem_select]
  constructor
  · rintro ⟨hr, hcond⟩
    exact ⟨(mem_runs_iff h (hp1 r hr (Bool.and_eq_true_iff.mp hcond).1)).mp hr, hcond⟩
  · rintro ⟨hr, hcond⟩
    exact ⟨(mem_runs_iff h (hp2 r hr (Bool.and_eq_true_iff.mp hcond).1)).mpr hr, hcond⟩

theorem quota_congr {scope : String} (hscope : OwnScope records tenant scope) :
    s1.quotas.get? scope = s2.quotas.get? scope := by
  ext q
  rw [get?_eq_some_iff, get?_eq_some_iff]
  refine and_congr_left ?_
  rintro rfl
  exact and_congr_left_iff.mp (Set.ext_iff.mp (congrArg TenantRows.quotas h) q) hscope

end SameRows

/-- A history whose rows in the two stores belong to the tenant alike. -/
theorem ofRun_perm {ρ β : Type} {H : History ρ β} (hown : Owns s1 tenant runId)
    (hown' : Owns s2 tenant runId)
    (h : ownRows H.runId (H.rows s1) s1 tenant = ownRows H.runId (H.rows s2) s2 tenant) :
    (H.ofRun runId s1).Perm (H.ofRun runId s2) := by
  have hnodup (s : Store) : (H.ofRun runId s).Nodup :=
    (List.Nodup.of_map _ (H.distinct s)).filter _
  refine (List.perm_ext_iff_of_nodup (hnodup _) (hnodup _)).mpr fun a => ?_
  have hmem := Set.ext_iff.mp h a
  simp only [History.ofRun, List.mem_filter, beq_iff_eq]
  constructor
  · rintro ⟨ha, rfl⟩
    exact ⟨(hmem.mp ⟨ha, hown⟩).1, rfl⟩
  · rintro ⟨ha, rfl⟩
    exact ⟨(hmem.mpr ⟨ha, hown'⟩).1, rfl⟩

/-! ### Two runs -/

/-- One of the stores, with the one the run began in: it is in order, and the rows of other tenants
are as they were. -/
structure Side (records : List CredentialRecord) (tenant : String) (o s : Store) : Prop where
  referenced : Referenced s
  attested : Attested records s
  others : ∀ other, other ≠ tenant → tenantRows records other s = tenantRows records other o

/-- The ids that a call has drawn are free in both stores or in neither. -/
structure DrawnAlike (c : Call) (s1 s2 : Store) : Prop where
  runs : s1.hasRun c.runId = s2.hasRun c.runId
  events : ∀ index, s1.events.FreeFor (c.eventId c.runId index)
    ↔ s2.events.FreeFor (c.eventId c.runId index)
  outbox : s1.outbox.FreeFor (c.outboxId c.runId) ↔ s2.outbox.FreeFor (c.outboxId c.runId)
  evaluations : s1.evaluations.FreeFor (c.evaluationId, some c.runId)
    ↔ s2.evaluations.FreeFor (c.evaluationId, some c.runId)

/-- The same messages of the tenant have been added to both outboxes. -/
def SameMessages (tenant : String) (o1 o2 s1 s2 : Store) : Prop :=
  ∃ new, s1.outbox.rows = o1.outbox.rows ++ new ∧ s2.outbox.rows = o2.outbox.rows ++ new
    ∧ ∀ e ∈ new, Owns s1 tenant e.aggregateId

/-- Two runs of the call `c` of the tenant began in `o1` and `o2` and have come to `s1` and `s2`;
the runs `ids` are known to be the tenant's. -/
structure Aligned (records : List CredentialRecord) (tenant : String) (c : Call) (o1 o2 : Store)
    (ids : List Uuid) (s1 s2 : Store) : Prop where
  rows : tenantRows records tenant s1 = tenantRows records tenant s2
  left : Side records tenant o1 s1
  right : Side records tenant o2 s2
  drawn : DrawnAlike c s1 s2
  messages : SameMessages tenant o1 o2 s1 s2
  owned : ∀ id ∈ ids, Owns s1 tenant id

/-- A run stays with its tenant. -/
theorem Owns.apply (h : Owns s tenant runId) (happly : Writes.apply w s = .ok s') :
    Owns s' tenant runId := by
  obtain ⟨run, hget, hclient⟩ := owns_iff_get?.mp h
  obtain ⟨run', hget', haccepted⟩ := (apply_grows happly).runs _ _ hget
  exact owns_iff_get?.mpr ⟨run', hget', (congrArg Accepted.clientId haccepted).trans hclient⟩

theorem OwnWrite.attested (h : OwnWrite records tenant c s w) : AttestedWrite records w := by
  cases w with
  | insertRun r => exact h.2.2.1
  | _ => trivial

/-- Whose run it is, the two stores agree on. -/
theorem OwnWrite.congr (h : OwnWrite records tenant c s1 w)
    (howns : ∀ {id}, Owns s1 tenant id → Owns s2 tenant id) : OwnWrite records tenant c s2 w := by
  cases w with
  | insertRun r => exact ⟨h.1, h.2.1, h.2.2.1, fun source hsource => howns (h.2.2.2 source hsource)⟩
  | updateRun id sets => exact howns h
  | insertEvent e => exact ⟨h.1, howns h.2.1, h.2.2⟩
  | insertOutbox e => exact ⟨h.1, howns h.2⟩
  | insertEvaluation e => exact ⟨h.1, howns h.2.1, h.2.2.1, howns h.2.2.2⟩
  | _ => exact h

theorem Side.apply (h : Side records tenant o s) (hown : OwnWrite records tenant c s w)
    (happly : Writes.apply w s = .ok s') : Side records tenant o s' where
  referenced := referenced_apply h.referenced happly
  attested := attested_apply hown.attested happly h.attested
  others other hne :=
    ((tenantRows_apply h.referenced hown happly).2 other hne).trans (h.others other hne)

/-- The identity of a run is free if neither its id nor its key is in use. -/
theorem freeFor_run_iff {id : Uuid} {clientId key : String} :
    s.runs.FreeFor (id, clientId, key)
      ↔ s.hasRun id = false ∧ s.keyHolder clientId key = none := by
  have hclash (r : Run) : Row.clash (Row.ident r : Row.Ident Run) (id, clientId, key) = false
      ↔ r.id ≠ id ∧ ¬ (r.clientId = clientId ∧ r.idempotencyKey = key) := by
    show (r.id == id || (r.clientId, r.idempotencyKey) == (clientId, key)) = false ↔ _
    rw [Bool.or_eq_false_iff, beq_eq_false_iff_ne, beq_eq_false_iff_ne, ne_eq, ne_eq, Prod.mk.injEq]
  have hrun : s.hasRun id = false ↔ ∀ r ∈ s.runs.rows, r.id ≠ id := by
    rw [Store.hasRun, Option.isSome_eq_false_iff, Option.isNone_iff_eq_none, get?_eq_none_iff]
    exact Iff.rfl
  have hkey : s.keyHolder clientId key = none
      ↔ ∀ r ∈ s.runs.rows, ¬ (r.clientId = clientId ∧ r.idempotencyKey = key) := by
    unfold Store.keyHolder
    rw [List.find?_eq_none]
    simp only [Bool.and_eq_true, beq_iff_eq]
  unfold Table.FreeFor
  rw [hrun, hkey]
  constructor
  · exact fun hall => ⟨fun r hr => ((hclash r).mp (hall r hr)).1,
      fun r hr => ((hclash r).mp (hall r hr)).2⟩
  · exact fun hfree r hr => (hclash r).mpr ⟨hfree.1 r hr, hfree.2 r hr⟩

section Writing

variable {u1 u2 : Store} (hown : OwnWrite records tenant c s1 w)
  (h1 : Writes.apply w s1 = .ok u1) (h2 : Writes.apply w s2 = .ok u2)
include hown h1 h2

theorem DrawnAlike.apply (h : DrawnAlike c s1 s2) : DrawnAlike c u1 u2 := by
  cases applied h1 with
  | insertRun r hins1 =>
    cases applied h2 with
    | insertRun _ hins2 =>
      refine { h with runs := ?_ }
      rw [Store.hasRun, Store.hasRun, get?_insert hins1, get?_insert hins2, Run.row_id,
        if_pos hown.1, if_pos hown.1]
  | updateRun id sets =>
    cases h2
    refine { h with runs := ?_ }
    have hruns := h.runs
    simp only [Store.hasRun] at hruns ⊢
    rw [get?_update, get?_update]
    split
    · rw [Option.isSome_map, Option.isSome_map]
      exact hruns
    · exact hruns
  | insertEvent e hins1 =>
    cases applied h2 with
    | insertEvent _ hins2 =>
      refine { h with events := fun index => ?_ }
      rw [freeFor_insert hins1, freeFor_insert hins2, h.events index]
  | insertOutbox e hins1 =>
    cases applied h2 with
    | insertOutbox _ hins2 =>
      refine { h with outbox := ?_ }
      rw [freeFor_insert hins1, freeFor_insert hins2, h.outbox]
  | insertEvaluation e hins1 =>
    cases applied h2 with
    | insertEvaluation _ hins2 =>
      refine { h with evaluations := ?_ }
      rw [freeFor_insert hins1, freeFor_insert hins2, h.evaluations]
  | _ => exact hown.elim

theorem SameMessages.apply (h : SameMessages tenant o1 o2 s1 s2) :
    SameMessages tenant o1 o2 u1 u2 := by
  obtain ⟨new, hrows1, hrows2, hnew⟩ := h
  have hkept : ∀ e ∈ new, Owns u1 tenant e.aggregateId := fun e he => (hnew e he).apply h1
  cases w with
  | insertOutbox e =>
    cases applied h1 with
    | insertOutbox _ hins1 =>
      cases applied h2 with
      | insertOutbox _ hins2 =>
        refine ⟨new ++ [e], ?_, ?_, ?_⟩
        · rw [← List.append_assoc, ← hrows1]
          exact (insert?_eq_some hins1).1
        · rw [← List.append_assoc, ← hrows2]
          exact (insert?_eq_some hins2).1
        · rw [List.forall_mem_append]
          exact ⟨hkept, List.forall_mem_singleton.mpr hown.2⟩
  | updateOutbox _ _ => exact hown.elim
  | _ =>
    cases applied h1
    cases applied h2
    exact ⟨new, hrows1, hrows2, hkept⟩

theorem Aligned.apply (h : Aligned records tenant c o1 o2 ids s1 s2) :
    Aligned records tenant c o1 o2 ids u1 u2 := by
  have hown2 : OwnWrite records tenant c s2 w := hown.congr (owns_congr h.rows).mp
  refine ⟨?_, h.left.apply hown h1, h.right.apply hown2 h2, h.drawn.apply hown h1 h2,
    h.messages.apply hown h1 h2, fun id hid => (h.owned id hid).apply h1⟩
  rw [(tenantRows_apply h.left.referenced hown h1).1,
    (tenantRows_apply h.right.referenced hown2 h2).1, h.rows]

end Writing

/-- **A write to the tenant's rows** is accepted by both stores or violates a constraint in both. -/
theorem Aligned.applies (h : Aligned records tenant c o1 o2 ids s1 s2)
    (hown : OwnWrite records tenant c s1 w) :
    (∃ u1 u2, Writes.apply w s1 = .ok u1 ∧ Writes.apply w s2 = .ok u2)
      ∨ ∃ e, Writes.apply w s1 = .error e ∧ Writes.apply w s2 = .error e := by
  have hown2 : OwnWrite records tenant c s2 w := hown.congr (owns_congr h.rows).mp
  have hinsert {α κ : Type} [Row α κ] {t1 t2 : Table α} {a : α} {set1 set2 : Table α → Store}
      (hfree : t1.FreeFor (Row.ident a) ↔ t2.FreeFor (Row.ident a)) :
      (∃ u1 u2, insertOr t1 a set1 = .ok u1 ∧ insertOr t2 a set2 = .ok u2)
        ∨ ∃ e, insertOr t1 a set1 = .error e ∧ insertOr t2 a set2 = .error e := by
    unfold insertOr
    rcases insert?_alike hfree with ⟨t1', t2', ht1, ht2⟩ | ⟨ht1, ht2⟩
    · rw [ht1, ht2]
      exact .inl ⟨_, _, rfl, rfl⟩
    · rw [ht1, ht2]
      exact .inr ⟨_, rfl, rfl⟩
  cases w with
  | insertRun r =>
    obtain ⟨hid, hclient, -, hsource⟩ := hown
    have hstored (s : Store) (hall : ∀ source ∈ r.replayOfRunId, Owns s tenant source) :
        r.replayOfRunId.all s.hasRun = true := by
      cases hreplay : r.replayOfRunId with
      | none => rfl
      | some source => exact (hall source hreplay).hasRun
    simp only [writes_apply, Write.apply, hstored s1 hsource, hstored s2 hown2.2.2.2, if_true]
    refine hinsert ?_
    show s1.runs.FreeFor (r.id, r.clientId, r.idempotencyKey)
      ↔ s2.runs.FreeFor (r.id, r.clientId, r.idempotencyKey)
    rw [freeFor_run_iff, freeFor_run_iff, hid, hclient, h.drawn.runs, keyHolder_congr h.rows]
  | updateRun id sets => exact .inl ⟨_, _, rfl, rfl⟩
  | insertEvent e =>
    obtain ⟨⟨index, hid⟩, howned, hattempt⟩ := hown
    simp only [writes_apply, Write.apply, howned.hasRun, hown2.2.1.hasRun, hattempt,
      Option.all_none, Bool.and_self, if_true]
    refine hinsert ?_
    show s1.events.FreeFor e.id ↔ s2.events.FreeFor e.id
    rw [hid]
    exact h.drawn.events index
  | insertOutbox e =>
    refine hinsert ?_
    show s1.outbox.FreeFor e.id ↔ s2.outbox.FreeFor e.id
    rw [hown.1]
    exact h.drawn.outbox
  | insertEvaluation e =>
    obtain ⟨hid, howned, hjob, hjobOwned⟩ := hown
    simp only [writes_apply, Write.apply, howned.hasRun, hown2.2.1.hasRun, hjob, Option.all_some,
      hjobOwned.hasRun, hown2.2.2.2.hasRun, Bool.and_self, if_true]
    refine hinsert ?_
    show s1.evaluations.FreeFor (e.id, e.jobRunId) ↔ s2.evaluations.FreeFor (e.id, e.jobRunId)
    rw [hid, hjob]
    exact h.drawn.evaluations
  | _ => exact hown.elim

/-! ### Statements -/

section Statements

variable (h : Aligned records tenant c o1 o2 ids s1 s2)
include h

theorem Aligned.weaken {ids' : List Uuid} (hsub : ∀ id ∈ ids', id ∈ ids) :
    Aligned records tenant c o1 o2 ids' s1 s2 :=
  { h with owned := fun id hid => h.owned id (hsub id hid) }

theorem alike_exec_own (hown : OwnWrite records tenant c s1 w) :
    (exec w).Alike busy s1 s2 fun _ => Aligned records tenant c o1 o2 ids := by
  refine alike_exec ((h.applies hown).imp_left ?_)
  rintro ⟨u1, u2, h1, h2⟩
  exact ⟨u1, u2, h1, h2, h.apply hown h1 h2⟩

/-- A run that the tenant inserts is the tenant's. -/
theorem alike_exec_insertRun {r : Run} (hown : OwnWrite records tenant c s1 (.insertRun r)) :
    (exec (.insertRun r)).Alike busy s1 s2
      fun _ => Aligned records tenant c o1 o2 (c.runId :: ids) := by
  refine alike_exec ((h.applies hown).imp_left ?_)
  rintro ⟨u1, u2, h1, h2⟩
  have hnext := h.apply hown h1 h2
  refine ⟨u1, u2, h1, h2, { hnext with owned := fun id hid => ?_ }⟩
  rcases List.mem_cons.mp hid with rfl | hid
  · obtain ⟨t, hins, rfl⟩ := apply_insertRun h1
    refine ⟨r, ?_, hown.1, hown.2.1⟩
    show r ∈ t.rows
    rw [(insert?_eq_some hins).1]
    exact List.mem_append_right _ (List.mem_singleton_self r)
  · exact hnext.owned id hid

theorem alike_lockIdentity (principal : String) :
    (lockIdentity principal tenant).Alike busy s1 s2
      fun _ => Aligned records tenant c o1 o2 ids := by
  unfold lockIdentity
  split <;> exact .ok h

theorem alike_checked (x : Except PyError α) :
    (ofExcept x : DbTx α).Alike busy s1 s2 fun _ => Aligned records tenant c o1 o2 ids :=
  alike_ofExcept fun _ _ => h

theorem alike_findByIdempotencyKey (key : String) :
    (findByIdempotencyKey tenant key).Alike busy s1 s2
      fun _ => Aligned records tenant c o1 o2 ids :=
  alike_read (keyHolder_congr h.rows key) h

theorem alike_getIdempotentRunAfterRace (key : String) :
    (getIdempotentRunAfterRace tenant key).Alike busy s1 s2
      fun _ => Aligned records tenant c o1 o2 ids := by
  refine (alike_findByIdempotencyKey h key).bind fun found u1 u2 hu => ?_
  cases found with
  | some run => exact alike_done hu
  | none => exact alike_raise _

/-- The run that both stores have under an id of the tenant. -/
theorem alike_getRunForClient (runId : Uuid) :
    (getRunForClient tenant runId).Alike busy s1 s2 fun run u1 u2 =>
      Aligned records tenant c o1 o2 (run.id :: ids) u1 u2 ∧ run.id = runId
        ∧ u1.runs.get? runId = some run ∧ u2.runs.get? runId = some run := by
  have hsame := runForClient_congr h.rows runId
  refine Alike.bind (Q := fun found u1 u2 => Aligned records tenant c o1 o2 ids u1 u2
    ∧ found = u1.runForClient tenant runId ∧ found = u2.runForClient tenant runId)
    (alike_read hsame ⟨h, rfl, hsame⟩) ?_
  rintro found u1 u2 ⟨hu, h1, h2⟩
  cases found with
  | none => exact alike_raise _
  | some run =>
    obtain ⟨hget1, hclient⟩ := runForClient_eq_some.mp h1.symm
    obtain ⟨hget2, -⟩ := runForClient_eq_some.mp h2.symm
    obtain ⟨hmem, hid⟩ := get?_eq_some_iff.mp hget1
    refine alike_done ⟨{ hu with owned := fun id hin => ?_ }, hid, hget1, hget2⟩
    rcases List.mem_cons.mp hin with rfl | hin
    · exact ⟨run, hmem, rfl, hclient⟩
    · exact hu.owned id hin

/-! ### Quotas -/

theorem alike_checkActive {p : Run → Bool}
    (hp : ∀ s, Attested records s → ∀ r ∈ s.runs.rows, p r = true → r.clientId = tenant)
    (limit : ℤ) :
    (checkActive p limit).Alike busy s1 s2 fun _ => Aligned records tenant c o1 o2 ids := by
  have hcount := countRuns_congr h.rows (hp s1 h.left.attested) (hp s2 h.right.attested)
    activeStatuses
  refine (alike_read (Q := fun _ => Aligned records tenant c o1 o2 ids) hcount h).bind
    fun count u1 u2 hu => ?_
  split
  · exact alike_raise _
  · exact alike_done hu

theorem alike_checkScopeBudget {scope : String} (hscope : OwnScope records tenant scope)
    (window limit : ℤ) :
    (checkScopeBudget window scope limit).Alike busy s1 s2
      fun _ => Aligned records tenant c o1 o2 ids := by
  refine (alike_read (Q := fun _ => Aligned records tenant c o1 o2 ids)
    (quota_congr h.rows hscope) h).bind fun row u1 u2 hu => ?_
  cases row with
  | none => exact alike_done hu
  | some row =>
    dsimp only
    split
    · exact alike_done hu
    · split
      · exact alike_raise _
      · exact alike_done hu

/-- **Admission** looks at the tenant's own rows: the runs of a principal are its tenant's. -/
theorem alike_checkAdmission {principal : String} (hbinds : Binds records principal tenant)
    (hunique : ∀ other, Binds records principal other → other = tenant) (epoch : ℤ)
    (limits : QuotaLimits) :
    (checkAdmission epoch principal tenant limits).Alike busy s1 s2
      fun _ => Aligned records tenant c o1 o2 ids := by
  have hprincipal : ∀ s, Attested records s → ∀ r ∈ s.runs.rows, ofPrincipal principal r = true →
      r.clientId = tenant := by
    intro s hattested r hr hof
    obtain ⟨principal', hstored, hbound⟩ := hattested r hr
    rw [ofPrincipal, hstored, beq_iff_eq] at hof
    rw [Option.some.inj hof] at hbound
    exact hunique _ hbound
  have htenant : ∀ s, Attested records s → ∀ r ∈ s.runs.rows, ofTenant tenant r = true →
      r.clientId = tenant := fun _ _ _ _ hof => beq_iff_eq.mp hof
  refine (alike_checkActive h hprincipal _).bind fun _ u1 u2 hu => ?_
  refine (alike_checkActive hu htenant _).bind fun _ v1 v2 hv => ?_
  refine (alike_checkScopeBudget hv (.inr ⟨principal, hbinds, rfl⟩) _ _).bind fun _ x1 x2 hx => ?_
  exact alike_checkScopeBudget hx (.inl rfl) _ _

end Statements

/-! ### Calls that accept work -/

section Accepting

variable {svc : RunService} {principalId : Option String} {key : String}
  (h : Aligned records tenant c o1 o2 ids s1 s2)
  (hbinds : Binds records (orElseText principalId tenant) tenant)
  (hunique : ∀ other, Binds records (orElseText principalId tenant) other → other = tenant)
include h

theorem alike_recordRouting {run : Run} (hid : run.id = c.runId) (hrun : run.id ∈ ids) :
    (recordRouting c run).Alike busy s1 s2 fun _ => Aligned records tenant c o1 o2 ids := by
  unfold recordRouting
  split
  · exact alike_exec_own h ⟨⟨1, hid ▸ rfl⟩, h.owned _ hrun, rfl⟩
  · exact alike_done h

variable [Externals]
include hbinds hunique

/-- **Submissions**, of executions and of regression jobs. -/
theorem alike_submit {input policy : JsonObject} {kind : WorkKind} :
    (submit svc c tenant key input policy principalId kind).Alike busy s1 s2
      fun _ => Aligned records tenant c o1 o2 ids := by
  refine Request.alike ?_ fun e t ht => ?_
  · refine (alike_lockIdentity h _).bind fun _ _ _ h => ?_
    refine (alike_findByIdempotencyKey h key).bind fun found _ _ h => ?_
    cases found with
    | some existing =>
      refine (alike_checked h _).bind fun replayed _ _ h => ?_
      exact alike_done h
    | none =>
      refine (alike_checkAdmission h hbinds hunique _ _).bind fun _ _ _ h => ?_
      refine Alike.bind (alike_exec_insertRun h ?_) fun _ _ _ h => ?_
      · exact ⟨rfl, rfl, ⟨_, rfl, hbinds⟩, by simp [newRun]⟩
      refine Alike.bind (alike_exec_own h ?_) fun _ _ _ h => ?_
      · exact ⟨rfl, h.owned _ List.mem_cons_self⟩
      refine Alike.bind (alike_exec_own h ?_) fun _ _ _ h => ?_
      · exact ⟨⟨0, rfl⟩, h.owned _ List.mem_cons_self, rfl⟩
      refine (alike_recordRouting h rfl List.mem_cons_self).bind fun _ _ _ h => ?_
      refine (alike_checked h _).bind fun _ _ _ h => ?_
      exact alike_done (h.weaken fun _ => List.mem_cons_of_mem _)
  · simp only [submit] at ht
    split at ht
    · cases ht
      refine (alike_getIdempotentRunAfterRace h key).bind fun existing _ _ h => ?_
      refine (alike_checked h _).bind fun replayed _ _ h => ?_
      exact alike_done h
    · exact absurd ht (by simp)

theorem alike_replay :
    (replay svc c tenant runId key principalId).Alike busy s1 s2
      fun _ => Aligned records tenant c o1 o2 [] := by
  refine Request.alike ?_ fun e t ht => ?_
  · refine (alike_lockIdentity h _).bind fun _ _ _ h => ?_
    refine (alike_getRunForClient h runId).bind fun source _ _ ⟨h, _⟩ => ?_
    split
    · exact alike_raise _
    · refine (alike_findByIdempotencyKey h key).bind fun found _ _ h => ?_
      cases found with
      | some existing =>
        refine (alike_checked h _).bind fun replayed _ _ h => ?_
        exact alike_done (h.weaken (by simp))
      | none =>
        refine (alike_checkAdmission h hbinds hunique _ _).bind fun _ _ _ h => ?_
        refine Alike.bind (alike_exec_insertRun h ?_) fun _ _ _ h => ?_
        · refine ⟨rfl, rfl, ⟨_, rfl, hbinds⟩, fun id hid => ?_⟩
          cases hid
          exact h.owned _ List.mem_cons_self
        refine Alike.bind (alike_exec_own h ?_) fun _ _ _ h => ?_
        · exact ⟨rfl, h.owned _ List.mem_cons_self⟩
        refine Alike.bind (alike_exec_own h ?_) fun _ _ _ h => ?_
        · exact ⟨⟨0, rfl⟩, h.owned source.id (by simp), rfl⟩
        refine Alike.bind (alike_exec_own h ?_) fun _ _ _ h => ?_
        · exact ⟨⟨1, rfl⟩, h.owned _ List.mem_cons_self, rfl⟩
        exact alike_done (h.weaken (by simp))
  · simp only [replay] at ht
    split at ht
    · cases ht
      refine (alike_getIdempotentRunAfterRace h key).bind fun existing _ _ h => ?_
      refine (alike_getRunForClient h runId).bind fun source _ _ ⟨h, _⟩ => ?_
      refine (alike_checked h _).bind fun replayed _ _ h => ?_
      exact alike_done (h.weaken (by simp))
    · exact absurd ht (by simp)

theorem alike_evaluate {rules : List JsonObject} :
    (evaluate svc c tenant runId rules principalId).Alike busy s1 s2
      fun _ => Aligned records tenant c o1 o2 [] := by
  refine (alike_checked h _).bind fun _ _ _ h => ?_
  refine (alike_lockIdentity h _).bind fun _ _ _ h => ?_
  refine (alike_getRunForClient h runId).bind fun source u1 u2 ⟨h, _, hget1, hget2⟩ => ?_
  refine Alike.bind (Q := fun _ u1 u2 =>
    Aligned records tenant c o1 o2 (source.id :: ids) u1 u2
      ∧ u1.runs.get? runId = some source ∧ u2.runs.get? runId = some source)
    (alike_acquire _ ⟨h, hget1, hget2⟩) ?_
  rintro - u1 u2 ⟨h, hget1, hget2⟩
  -- the second reading of the row is not restricted to the tenant, but the first one was
  refine Alike.bind (Q := fun found u1 u2 => found = some source
    ∧ Aligned records tenant c o1 o2 (source.id :: ids) u1 u2)
    (alike_read (hget1.trans hget2.symm) ⟨hget1, h⟩) ?_
  rintro found u1 u2 ⟨rfl, h⟩
  dsimp only
  split
  · exact alike_raise _
  · refine (alike_checkAdmission h hbinds hunique _ _).bind fun _ _ _ h => ?_
    refine Alike.bind (alike_exec_insertRun h ?_) fun _ _ _ h => ?_
    · exact ⟨rfl, rfl, ⟨_, rfl, hbinds⟩, by simp [newJob, newRun]⟩
    refine Alike.bind (alike_exec_own h ?_) fun _ _ _ h => ?_
    · exact h.owned source.id (by simp)
    refine Alike.bind (alike_exec_own h ?_) fun _ _ _ h => ?_
    · exact ⟨rfl, h.owned source.id (by simp), rfl, h.owned _ List.mem_cons_self⟩
    refine Alike.bind (alike_exec_own h ?_) fun _ _ _ h => ?_
    · exact ⟨rfl, h.owned _ List.mem_cons_self⟩
    refine Alike.bind (alike_exec_own h ?_) fun _ _ _ h => ?_
    · exact ⟨⟨0, rfl⟩, h.owned _ List.mem_cons_self, rfl⟩
    refine Alike.bind (alike_exec_own h ?_) fun _ _ _ h => ?_
    · exact ⟨⟨1, rfl⟩, h.owned source.id (by simp), rfl⟩
    exact alike_done (h.weaken (by simp))

end Accepting

/-! ### Calls that read -/

section Reading

/-- The row a cursor names, where the two histories have the same rows. -/
theorem find?_cursor_perm {ρ β : Type} {H : History ρ β}
    (hperm : (H.ofRun runId s1).Perm (H.ofRun runId s2)) (cursor : Uuid) :
    ((H.ofRun runId s1).find? fun r => H.id (H.snapshot r) == cursor)
      = (H.ofRun runId s2).find? fun r => H.id (H.snapshot r) == cursor := by
  cases hfind : (H.ofRun runId s1).find? fun r => H.id (H.snapshot r) == cursor with
  | none =>
    refine (List.find?_eq_none.mpr fun a ha => ?_).symm
    exact List.find?_eq_none.mp hfind a (hperm.mem_iff.mpr ha)
  | some a =>
    obtain rfl : H.id (H.snapshot a) = cursor := by simpa using List.find?_some hfind
    exact (find?_anchor (hperm.mem_iff.mp (List.mem_of_find?_eq_some hfind))).symm

variable (h : Aligned records tenant c o1 o2 ids s1 s2)
include h

theorem alike_getRun : (getRun tenant runId).Alike busy s1 s2
    fun _ => Aligned records tenant c o1 o2 ids := by
  refine (alike_getRunForClient h runId).bind fun run u1 u2 ⟨h, _⟩ => ?_
  exact alike_done (h.weaken fun _ => List.mem_cons_of_mem _)

variable {ρ β : Type} {H : History ρ β} {limit : ℤ}

theorem alike_readPage (hperm : (H.ofRun runId s1).Perm (H.ofRun runId s2))
    (bound : Option (Timestamp ×ₗ Uuid)) :
    (H.readPage runId limit bound).Alike busy s1 s2
      fun _ => Aligned records tenant c o1 o2 ids := by
  have hkeys : ((H.ofRun runId s1).map fun r => H.key (H.snapshot r)).Nodup := by
    have hsnapshots := History.keys_nodup (h := H) runId s1
    rwa [History.snapshots, List.map_map] at hsnapshots
  have hpage := Keyset.page_perm hperm hkeys bound (clampLimit limit)
  exact alike_read (congrArg (List.map H.snapshot) hpage) h

/-- **Histories** of a table whose rows belong to the tenants. -/
theorem alike_getHistory
    (hrows : ∀ u1 u2, tenantRows records tenant u1 = tenantRows records tenant u2 →
      ownRows H.runId (H.rows u1) u1 tenant = ownRows H.runId (H.rows u2) u2 tenant)
    (cursor : Option Uuid) :
    (getHistory H tenant runId limit cursor).Alike busy s1 s2
      fun _ => Aligned records tenant c o1 o2 ids := by
  refine (alike_getRunForClient h runId).bind fun run u1 u2 ⟨h, hid, _⟩ => ?_
  have hperm : (H.ofRun runId u1).Perm (H.ofRun runId u2) := by
    have hown := h.owned _ List.mem_cons_self
    rw [hid] at hown
    exact ofRun_perm hown ((owns_congr h.rows).mp hown) (hrows u1 u2 h.rows)
  have h := h.weaken fun id (hin : id ∈ ids) => List.mem_cons_of_mem _ hin
  cases cursor with
  | none => exact alike_readPage h hperm none
  | some cursor =>
    refine Alike.bind (Q := fun _ v1 v2 => Aligned records tenant c o1 o2 ids v1 v2
      ∧ (H.ofRun runId v1).Perm (H.ofRun runId v2))
      (alike_read (find?_cursor_perm hperm cursor) ⟨h, hperm⟩) ?_
    rintro anchor v1 v2 ⟨h, hperm⟩
    cases anchor with
    | none => exact alike_raise _
    | some anchor => exact alike_readPage h hperm _

end Reading

end AgentRuntime.Security
