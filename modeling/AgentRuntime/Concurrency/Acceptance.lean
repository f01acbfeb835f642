import AgentRuntime.Concurrency.Waiting

/-!
# Accepting work among others

`submit`, `submitRegression`, `evaluate` and `replay` obey the discipline: they lock their scopes in the
order of the texts, and what they count under these locks can only shrink until they commit. Each of
them ends in one of two ways: it writes nothing and returns the run that holds the key, or its writes
insert one run together with one `RUN_QUEUED` event and the first entries of the history.

* `follows_lockIdentity`, `follows_checkAdmission`: the statements the requests share;
* `Accepting`: what is known once the run is inserted;
* `AcceptPost`: how submissions and replays end;
* `submit_follows`, `replay_follows`, `evaluate_follows`: that they obey.
-/

namespace AgentRuntime.Concurrency

open Lib Table Domain Application Database Lifecycle

/-- The program obeys the discipline of the store. -/
abbrev Follows {α : Type} (limits : Option QuotaLimits)
    (Q : α → List (Hold Resource) → List Write → Store → Prop) (t : DbTx α)
    (L : List (Hold Resource)) (ws : List Write) (v : Store) : Prop :=
  Obeys locking (storeDiscipline limits) Q t L ws v

variable {α : Type} {limits : Option QuotaLimits}
  {Q : α → List (Hold Resource) → List Write → Store → Prop} {L L' : List (Hold Resource)}
  {ws : List Write} {v v' : Store}

/-- All processes use the same limits. -/
def Agrees (limits : Option QuotaLimits) (quotas : QuotaLimits) : Prop := ∀ l ∈ limits, l = quotas

/-! ### Identity locks -/

/-- Both scopes are held now, and no other lock has been added. -/
structure Identified (L L' : List (Hold Resource)) (principal tenant : String) : Prop where
  sub : L ⊆ L'
  principal : ScopeHeld L' (principalScope principal)
  tenant : ScopeHeld L' (tenantScope tenant)
  new : ∀ {l m}, (.lock l, m) ∈ L' → (.lock l, m) ∈ L ∨ ∃ y, l = .advisory y

variable {g : Unit → DbTx α}

/-- Two scopes can be locked one after the other if none is held yet and the first comes first, or if
both are held already. -/
theorem follows_twoScopes {x y : String}
    (hL : (x < y ∧ ∀ l m, (.lock l, m) ∉ L) ∨ (ScopeHeld L x ∧ ScopeHeld L y))
    (h : ∀ v', Frame L v v' → Follows limits Q (g ())
      ((.lock (.advisory y), .exclusive) :: (.lock (.advisory x), .exclusive) :: L) ws v') :
    Follows limits Q
      ((Tx.acquire (.advisory x)).bind fun _ => (Tx.acquire (.advisory y)).bind g) L ws v := by
  refine obeys_acquire.mpr fun v1 h1 => ⟨?_, obeys_acquire.mpr fun v2 h2 => ⟨?_, ?_⟩⟩
  · rcases hL with ⟨-, hnone⟩ | ⟨hx, -⟩
    · exact .scope fun l m hl => absurd hl (hnone l m)
    · exact .again hx
  · rcases hL with ⟨hlt, hnone⟩ | ⟨-, hy⟩
    · refine .scope fun l m hl => ?_
      rcases List.mem_cons.mp hl with hl | hl
      · cases hl
        exact ⟨x, rfl, hlt⟩
      · exact absurd hl (hnone l m)
    · exact .again (List.mem_cons_of_mem _ hy)
  · exact h v2 (Frame.trans h1 (Frame.anti (List.subset_cons_self _ _) h2))

variable {principal tenant : String}

/-- **Identity locks.** -/
theorem follows_lockIdentity
    (hL : (∀ l m, (.lock l, m) ∉ L)
      ∨ (ScopeHeld L (principalScope principal) ∧ ScopeHeld L (tenantScope tenant)))
    (h : ∀ L' v', Identified L L' principal tenant → Frame L v v' →
      Follows limits Q (g ()) L' ws v') :
    Follows limits Q ((lockIdentity principal tenant).bind g) L ws v := by
  have hne := principalScope_ne_tenantScope principal tenant
  have hidentified (x y : String) (hxy : (x = principalScope principal ∧ y = tenantScope tenant)
        ∨ (x = tenantScope tenant ∧ y = principalScope principal)) :
      Identified L ((.lock (.advisory y), .exclusive) :: (.lock (.advisory x), .exclusive) :: L)
        principal tenant := by
    refine ⟨fun _ hm => by simp [hm], ?_, ?_, ?_⟩
    · rcases hxy with ⟨rfl, rfl⟩ | ⟨rfl, rfl⟩ <;> simp [ScopeHeld]
    · rcases hxy with ⟨rfl, rfl⟩ | ⟨rfl, rfl⟩ <;> simp [ScopeHeld]
    · intro l m hl
      rcases List.mem_cons.mp hl with hl | hl
      · cases hl
        exact .inr ⟨y, rfl⟩
      · rcases List.mem_cons.mp hl with hl | hl
        · cases hl
          exact .inr ⟨x, rfl⟩
        · exact .inl hl
  unfold lockIdentity
  split
  · rename_i hle
    refine follows_twoScopes (hL.imp_left fun hnone => ⟨lt_of_le_of_ne hle hne, hnone⟩) ?_
    exact fun v' hv => h _ v' (hidentified _ _ (.inl ⟨rfl, rfl⟩)) hv
  · rename_i hlt
    refine follows_twoScopes (hL.imp (fun hnone => ⟨not_le.mp hlt, hnone⟩) And.symm) ?_
    exact fun v' hv => h _ v' (hidentified _ _ (.inr ⟨rfl, rfl⟩)) hv

/-! ### Admission -/

theorem follows_checkActive {p : Run → Bool} {limit : ℤ}
    (h : ∀ v', Frame L v v' → (countRuns v' p activeStatuses : ℤ) < limit →
      Follows limits Q (g ()) L ws v') :
    Follows limits Q ((checkActive p limit).bind g) L ws v := by
  unfold checkActive
  rw [Tx.bind_eq, Tx.bind_assoc]
  refine obeys_read.mpr fun v1 h1 => ?_
  split
  · trivial
  · rename_i hlt
    exact h v1 h1 (not_le.mp hlt)

theorem follows_checkScopeBudget {window limit : ℤ} {scope : String}
    (h : ∀ v', Frame L v v' → Follows limits Q (g ()) L ws v') :
    Follows limits Q ((checkScopeBudget window scope limit).bind g) L ws v := by
  unfold checkScopeBudget
  rw [Tx.bind_eq, Tx.bind_assoc]
  refine obeys_read.mpr fun v1 h1 => ?_
  split
  · exact h v1 h1
  · split
    · exact h v1 h1
    · split
      · trivial
      · exact h v1 h1

/-- **Admission** under both identity locks: there is room when it is over. -/
theorem follows_checkAdmission {epoch : ℤ} {quotas : QuotaLimits}
    (hprincipal : ScopeHeld L (principalScope principal))
    (htenant : ScopeHeld L (tenantScope tenant))
    (h : ∀ v', Frame L v v' →
      (counted v'.runs .active (.principal principal) : ℤ) < quotas.principalActive →
      (counted v'.runs .active (.tenant tenant) : ℤ) < quotas.tenantActive →
      Follows limits Q (g ()) L ws v') :
    Follows limits Q ((checkAdmission epoch principal tenant quotas).bind g) L ws v := by
  unfold checkAdmission checkProviderBudget
  simp only [Tx.bind_eq, Tx.bind_assoc]
  refine follows_checkActive fun v1 h1 hcount1 => follows_checkActive fun v2 h2 hcount2 => ?_
  refine follows_checkScopeBudget fun v3 h3 => follows_checkScopeBudget fun v4 h4 => ?_
  have h24 := h3.trans h4
  have hle1 := (h2.trans h24).runs.counts (k := .principal principal) hprincipal .active
  have hle2 := h24.runs.counts (k := .tenant tenant) htenant .active
  have hlt1 : (counted v1.runs .active (.principal principal) : ℤ) < quotas.principalActive := hcount1
  have hlt2 : (counted v2.runs .active (.tenant tenant) : ℤ) < quotas.tenantActive := hcount2
  exact h v4 (h1.trans (h2.trans h24)) (by omega) (by omega)

/-! ### Inserting the run -/

theorem orElseText_idem (a : Option String) (b : String) :
    orElseText (some (orElseText a b)) b = orElseText a b := by
  cases a with
  | none => exact ite_self b
  | some x =>
    by_cases hx : x = ""
    · simp [orElseText, hx]
    · simp [orElseText, hx]

/-- The run is queued work of the scopes that are locked, and there is room for it. -/
structure Admitted (limits : Option QuotaLimits) (L : List (Hold Resource)) (v : Store) (r : Run) :
    Prop where
  attributed : Attributed r
  queued : r.executionStatus = .queued
  room : Room limits L v.runs .active r

variable {c : Call}

/-- New work is admitted under the locks and counts of its scopes. -/
theorem admitted_newRun {clientId : String} {principalId : Option String} {workKind : WorkKind}
    {idempotencyKey requestHash : String} {inputPayload policySnapshot : JsonObject}
    {replayOf : Option Uuid} {quotas : QuotaLimits} (hagrees : Agrees limits quotas)
    (hprincipal : ScopeHeld L (principalScope (orElseText principalId clientId)))
    (htenant : ScopeHeld L (tenantScope clientId))
    (hroom1 : (counted v.runs .active (.principal (orElseText principalId clientId)) : ℤ)
      < quotas.principalActive)
    (hroom2 : (counted v.runs .active (.tenant clientId) : ℤ) < quotas.tenantActive) :
    Admitted limits L v (newRun c clientId (orElseText principalId clientId) workKind idempotencyKey
      requestHash inputPayload policySnapshot replayOf) where
  attributed := by simp only [Attributed, newRun, orElseText_idem]
  queued := rfl
  room k hk := by
    simp only [scopes, newRun, orElseText_idem, List.mem_cons, List.not_mem_nil, or_false] at hk
    rcases hk with rfl | rfl
    · exact ⟨hprincipal, fun l hl => by rw [hagrees l hl]; exact hroom1⟩
    · exact ⟨htenant, fun l hl => by rw [hagrees l hl]; exact hroom2⟩

theorem Admitted.legalRun {r : Run} (h : Admitted limits L v r) (hframe : Frame L v v')
    (hsub : L ⊆ L') (hkeys : entries (runKeys (Row.ident r)) ⊆ L') :
    LegalRun limits L' v'.runs r := by
  refine ⟨hkeys, h.attributed, fun w hw => ?_⟩
  cases w with
  | running =>
    rw [h.queued] at hw
    exact absurd hw (by simp [Watch.statuses])
  | active => exact (h.room.frame hframe.runs).mono hsub

/-- The run `r` is inserted, and the locks held are in order. -/
structure Accepting (L : List (Hold Resource)) (ws : List Write) (v : Store) (r : Run) : Prop where
  root : Rooted L v
  own : .insertRun r ∈ ws
  stored : v.hasRun r.id = true

namespace Accepting

variable {r : Run} {w : Write} {u : Store}

theorem frame (h : Accepting L ws v r) (hframe : Frame L v v') : Accepting L ws v' r :=
  ⟨h.root.grows hframe.grows, h.own, hframe.hasRun h.stored⟩

theorem write (h : Accepting L ws v r) (happly : Writes.apply w v = .ok u)
    (hheld : ∀ l m, (l, m) ∈ touched w → Locked L l ∨ (m = .share ∧ ∃ id, l = .run id)) :
    Accepting (taken w ++ L) (ws ++ [w]) u r :=
  ⟨h.root.write happly hheld, List.mem_append_left _ h.own,
    (apply_grows happly).hasRun h.stored⟩

/-- The statement that inserts the run. -/
theorem inserted (hroot : Rooted L v) (happly : Writes.apply (Write.insertRun r) v = .ok u) :
    Accepting (taken (.insertRun r) ++ L) (ws ++ [.insertRun r]) u r := by
  refine ⟨hroot.write happly fun l m hl => .inr ?_, by simp, ?_⟩
  · obtain ⟨id, -, heq⟩ := List.mem_map.mp hl
    cases heq
    exact ⟨rfl, id, rfl⟩
  · obtain ⟨t, hins, rfl⟩ := apply_insertRun happly
    refine Option.isSome_iff_exists.mpr ⟨r, ?_⟩
    rw [get?_insert hins]
    exact if_pos rfl

end Accepting

/-- Locks of scopes only. -/
abbrev OnlyScopes (L : List (Hold Resource)) : Prop := ∀ l m, (.lock l, m) ∈ L → ∃ y, l = .advisory y

theorem OnlyScopes.rooted (h : OnlyScopes L) : Rooted L v where
  runs hid := absurd (h _ _ hid) (by simp)
  attempts hid := absurd (h _ _ hid) (by simp)
  evaluations hid := absurd (h _ _ hid) (by simp)

variable {id : Uuid}

/-- One run row on top of the scopes. -/
theorem OnlyScopes.rooted_row (h : OnlyScopes L) (hrun : v.hasRun id = true) :
    Rooted ((.lock (.run id), .exclusive) :: L) v where
  runs hid := by
    rcases List.mem_cons.mp hid with hid | hid
    · cases hid
      exact hrun
    · exact absurd (h _ _ hid) (by simp)
  attempts hid := absurd (h _ _ (by simpa using hid)) (by simp)
  evaluations hid := absurd (h _ _ (by simpa using hid)) (by simp)

theorem Identified.onlyScopes (h : Identified [] L' principal tenant) :
    OnlyScopes L' := fun l m hl =>
  (h.new hl).resolve_left (by simp)

section Statements

variable {r : Run} {g : Unit → DbTx α}

/-- The insertion of queued work, by a transaction that holds its scopes and perhaps more. -/
theorem follows_insertRun (hroot : Rooted L v) (hadmitted : Admitted limits L v r)
    (hasks : ∀ id ∈ r.replayOfRunId, ∀ v', Asks L ws v' (.lock (.run id), .share))
    (h : ∀ v', Accepting (taken (.insertRun r) ++ L) (ws ++ [.insertRun r]) v' r →
      (∀ {id q}, v.runs.get? id = some q → Locked L (.run id) → v'.runs.get? id = some q) →
      Follows limits Q (g ()) (taken (.insertRun r) ++ L) (ws ++ [.insertRun r]) v') :
    Follows limits Q ((exec (.insertRun r)).bind g) L ws v := by
  refine obeys_exec.mpr fun v1 h1 => ⟨asks_taken fun l m hl => ?_, fun u happly => ⟨?_, ?_⟩⟩
  · obtain ⟨id, hid, heq⟩ := List.mem_map.mp hl
    cases heq
    exact hasks id (Option.mem_toList.mp hid) v1
  · exact hadmitted.legalRun h1 (List.subset_append_right _ _) (entries_subset (.insertRun r) L)
  · refine h u (.inserted (hroot.grows h1.grows) happly) fun hq hheld => ?_
    obtain ⟨t, hins, rfl⟩ := apply_insertRun happly
    have hq' := get?_insert_of_some hins (h1.runs.held hheld hq)
    exact hq'

/-- The insertion of the outbox event of work just inserted. -/
theorem follows_insertOutbox {e : OutboxEvent} (haccepting : Accepting L ws v r)
    (he : e.aggregateId = r.id)
    (h : ∀ v', Accepting (taken (.insertOutbox e) ++ L) (ws ++ [.insertOutbox e]) v' r →
      Follows limits Q (g ()) (taken (.insertOutbox e) ++ L) (ws ++ [.insertOutbox e]) v') :
    Follows limits Q ((exec (.insertOutbox e)).bind g) L ws v := by
  refine obeys_exec.mpr fun v1 h1 => ⟨asks_taken fun l m hl => ?_, fun u happly => ⟨?_, ?_⟩⟩
  · exact absurd hl (by simp [touched])
  · refine ⟨entries_subset (.insertOutbox e) L, ?_⟩
    rw [he]
    exact (haccepting.frame h1).stored
  · refine h u ((haccepting.frame h1).write happly fun l m hl => ?_)
    exact absurd hl (by simp [touched])

/-- The insertion of an event of a run that is held, shared or just inserted. -/
theorem follows_insertEvent {e : RunEvent} (haccepting : Accepting L ws v r)
    (hattempt : e.attemptId = none)
    (hrun : e.runId = r.id ∨ (.lock (.run e.runId), .share) ∈ L ∨ Locked L (.run e.runId))
    (h : ∀ v', Accepting (taken (.insertEvent e) ++ L) (ws ++ [.insertEvent e]) v' r →
      Follows limits Q (g ()) (taken (.insertEvent e) ++ L) (ws ++ [.insertEvent e]) v') :
    Follows limits Q ((exec (.insertEvent e)).bind g) L ws v := by
  have htouched : touched (.insertEvent e) = [(.run e.runId, .share)] := by
    simp [touched, hattempt]
  refine obeys_exec.mpr fun v1 h1 => ⟨asks_taken fun l m hl => ?_, fun u happly => ⟨?_, ?_⟩⟩
  · rw [htouched, List.mem_singleton] at hl
    cases hl
    rcases hrun with hown | hshared | hheld
    · rw [hown]
      exact .ownRun haccepting.own (haccepting.frame h1).root
    · exact .shared hshared
    · exact .again hheld
  · exact entries_subset (.insertEvent e) L
  · refine h u ((haccepting.frame h1).write happly fun l m hl => .inr ?_)
    rw [htouched, List.mem_singleton] at hl
    cases hl
    exact ⟨rfl, _, rfl⟩

/-- The insertion of an evaluation of an ended run that is held, by the job just inserted. -/
theorem follows_insertEvaluation {e : Evaluation} (haccepting : Accepting L ws v r)
    (hheld : Locked L (.run e.runId)) (hended : Ended v e.runId) (hjob : e.jobRunId = some r.id)
    (h : ∀ v', Accepting (taken (.insertEvaluation e) ++ L) (ws ++ [.insertEvaluation e]) v' r →
      Follows limits Q (g ()) (taken (.insertEvaluation e) ++ L) (ws ++ [.insertEvaluation e]) v') :
    Follows limits Q ((exec (.insertEvaluation e)).bind g) L ws v := by
  have htouched : touched (.insertEvaluation e) = [(.run e.runId, .share), (.run r.id, .share)] := by
    simp [touched, hjob]
  refine obeys_exec.mpr fun v1 h1 => ⟨asks_taken fun l m hl => ?_, fun u happly => ⟨?_, ?_⟩⟩
  · rw [htouched, List.mem_cons, List.mem_singleton] at hl
    rcases hl with hl | hl
    · cases hl
      exact .again hheld
    · cases hl
      exact .ownRun haccepting.own (haccepting.frame h1).root
  · exact ⟨entries_subset (.insertEvaluation e) L, List.mem_append_right _ hheld,
      h1.ended hheld hended⟩
  · refine h u ((haccepting.frame h1).write happly fun l m hl => .inr ?_)
    rw [htouched, List.mem_cons, List.mem_singleton] at hl
    rcases hl with hl | hl
    · cases hl
      exact ⟨rfl, _, rfl⟩
    · cases hl
      exact ⟨rfl, _, rfl⟩

variable {status : EvaluationStatus}

/-- A new evaluation status for a run that is held. -/
theorem follows_noteRun (hheld : Locked L (.run id)) (hrun : v.runs.get? id = some r)
    (h : ∀ v1 u, Frame L v v1 →
      Writes.apply (Write.updateRun id [.evaluationStatus status]) v1 = .ok u →
      Follows limits Q (g ()) (taken (.updateRun id [.evaluationStatus status]) ++ L)
        (ws ++ [.updateRun id [.evaluationStatus status]]) u) :
    Follows limits Q ((exec (.updateRun id [.evaluationStatus status])).bind g) L ws v := by
  refine obeys_exec.mpr fun v1 h1 => ⟨asks_taken fun l m hl => ?_, fun u happly => ⟨?_, ?_⟩⟩
  · cases List.mem_singleton.mp hl
    exact .again hheld
  · refine ⟨r, h1.runs.held hheld hrun, List.mem_append_right _ hheld, ?_, fun w hw => .inl hw⟩
    rintro ⟨status', hmem⟩
    exact absurd hmem (by simp)
  · exact h v1 u h1 happly

theorem get?_noteRun {u : Store} (hrun : v.runs.get? id = some r)
    (happly : Writes.apply (Write.updateRun id [.evaluationStatus status]) v = .ok u) :
    u.runs.get? id = some { r with evaluationStatus := status } := by
  cases happly
  rw [get?_update, if_pos rfl, hrun]
  rfl

end Statements

/-! ### Submissions -/

variable {clientId key : String}

/-- The holder of a key stays the same run. -/
theorem Grows.keyHolder (h : Grows v v') {r : Run} (hr : v.keyHolder clientId key = some r) :
    ∃ r', v'.keyHolder clientId key = some r' ∧ r'.id = r.id := by
  obtain ⟨hmem, hclient, hkey⟩ := keyHolder_eq_some.mp hr
  have hget : v.runs.get? r.id = some r := get?_eq_some_iff.mpr ⟨hmem, rfl⟩
  obtain ⟨r', hr', haccepted⟩ := h.runs _ _ hget
  refine ⟨r', keyHolder_eq_some.mpr ⟨(mem_of_get? hr').1, ?_, ?_⟩, ?_⟩
  · exact (congrArg Accepted.clientId haccepted).trans hclient
  · exact (congrArg Accepted.idempotencyKey haccepted).trans hkey
  · exact congrArg Accepted.id haccepted

/-- How an accepting request ends: with the stored run of its key and without a write, or with a new
run, its `RUN_QUEUED` event and entries of the history. -/
inductive AcceptPost (c : Call) (clientId key : String) :
    RunSnapshot × Bool → List Write → Store → Prop where
  | replayed {snapshot : RunSnapshot} {r : Run} {v : Store}
      (holder : v.keyHolder clientId key = some r) (hid : r.id = snapshot.id) :
      AcceptPost c clientId key (snapshot, true) [] v
  | created {r : Run} {payload : JsonObject} (events : List RunEvent) {v : Store}
      (hclient : r.clientId = clientId) (hkey : r.idempotencyKey = key) :
      AcceptPost c clientId key (toRunSnapshot r, false)
        (.insertRun r :: .insertOutbox (queuedOutbox c r.id payload) :: events.map .insertEvent) v

theorem AcceptPost.frame {p : RunSnapshot × Bool} (h : AcceptPost c clientId key p ws v)
    (hframe : Frame L v v') : AcceptPost c clientId key p ws v' := by
  cases h with
  | replayed holder hid =>
    obtain ⟨r', holder', hid'⟩ := hframe.grows.keyHolder holder
    exact .replayed holder' (hid'.trans hid)
  | created events hclient hkey => exact .created events hclient hkey

/-- Returning the run that holds the key, if the request matches it. -/
theorem follows_match {existing r : Run} {x : Except PyError Bool}
    (hx : ∀ replayed, x = .ok replayed → replayed = true)
    (holder : v.keyHolder clientId key = some r) (hid : r.id = existing.id) :
    Follows limits (fun p _ => AcceptPost c clientId key p)
      ((Tx.ofExcept x).bind fun replayed => .done (toRunSnapshot existing, replayed)) L [] v := by
  refine obeys_ofExcept fun replayed hreplayed => ?_
  cases hx replayed hreplayed
  exact obeys_done (fun _ hframe h => h.frame hframe) (.replayed holder hid)

theorem matchOrRaise_true {run : Run} {requestHash : String} (replayed : Bool)
    (h : matchOrRaise run requestHash = .ok replayed) : replayed = true := by
  unfold matchOrRaise at h
  split at h
  · exact absurd h (by simp)
  · exact (Except.ok.inj h).symm

theorem matchReplayOrRaise_true {run : Run} {requestHash : String} {sourceRunId : Uuid}
    (replayed : Bool) (h : matchReplayOrRaise run requestHash sourceRunId = .ok replayed) :
    replayed = true := by
  unfold matchReplayOrRaise at h
  split at h
  · exact absurd h (by simp)
  · exact (Except.ok.inj h).symm

section Requests

variable [Externals] {svc : RunService} {c : Call} {clientId idempotencyKey : String}
  {inputPayload policySnapshot : JsonObject} {principalId : Option String} {workKind : WorkKind}

/-- **Submissions.** -/
theorem submit_follows (hagrees : Agrees limits svc.quotas) :
    Follows limits (fun p _ => AcceptPost c clientId idempotencyKey p)
      (submit svc c clientId idempotencyKey inputPayload policySnapshot principalId workKind).body
      [] [] v := by
  refine follows_lockIdentity (.inl (by simp)) fun L v1 hL h1 => ?_
  refine obeys_read.mpr fun v2 h2 => ?_
  split
  · rename_i existing hexisting
    exact follows_match matchOrRaise_true hexisting rfl
  · refine follows_checkAdmission hL.principal hL.tenant fun v3 h3 hroom1 hroom2 => ?_
    refine follows_insertRun hL.onlyScopes.rooted
      (admitted_newRun hagrees hL.principal hL.tenant hroom1 hroom2) (by simp [newRun])
      fun v4 h4 _ => ?_
    refine follows_insertOutbox h4 rfl fun v5 h5 => ?_
    refine follows_insertEvent h5 rfl (.inl rfl) fun v6 h6 => ?_
    unfold recordRouting
    split
    · rename_i decision _
      refine follows_insertEvent h6 rfl (.inl rfl) fun v7 _ => obeys_ofExcept fun _ _ => ?_
      exact fun v8 _ => .created [newEvent c c.runId 0 c.runId none .runQueued
        [("source", .text "api")], newEvent c c.runId 1 c.runId none .routingDecisionRecorded
          (routingMetadata decision)] rfl rfl
    · refine obeys_ofExcept fun _ _ => ?_
      exact fun v7 _ => .created [newEvent c c.runId 0 c.runId none .runQueued
        [("source", .text "api")]] rfl rfl

omit [Externals] in
/-- After a lost race: the run that holds the key is read again. -/
theorem follows_afterRace {g : Run → DbTx α}
    (h : ∀ v' run, Frame L v v' → v'.keyHolder clientId idempotencyKey = some run →
      Follows limits Q (g run) L ws v') :
    Follows limits Q ((getIdempotentRunAfterRace clientId idempotencyKey).bind g) L ws v := by
  unfold getIdempotentRunAfterRace
  rw [Tx.bind_eq, Tx.bind_assoc]
  refine obeys_read.mpr fun v1 h1 => ?_
  split
  · rename_i run hrun
    exact h v1 run h1 hrun
  · trivial

variable {t : DbTx (RunSnapshot × Bool)}

theorem submit_handler_follows {e : PyError}
    (ht : (submit svc c clientId idempotencyKey inputPayload policySnapshot principalId
      workKind).handler e = some t) :
    Follows limits (fun p _ => AcceptPost c clientId idempotencyKey p) t [] [] v := by
  simp only [submit] at ht
  split at ht
  · cases ht
    exact follows_afterRace fun v1 run _ hrun => follows_match matchOrRaise_true hrun rfl
  · exact absurd ht (by simp)

/-! ### Replays -/

variable {runId : Uuid}

omit [Externals] in
theorem follows_getRunForClient {g : Run → DbTx α}
    (h : ∀ v' run, Frame L v v' → v'.runs.get? runId = some run → run.clientId = clientId →
      Follows limits Q (g run) L ws v') :
    Follows limits Q ((getRunForClient clientId runId).bind g) L ws v := by
  unfold getRunForClient
  rw [Tx.bind_eq, Tx.bind_assoc]
  refine obeys_read.mpr fun v1 h1 => ?_
  split
  · rename_i run hrun
    obtain ⟨hget, hclient⟩ := runForClient_eq_some.mp hrun
    exact h v1 run h1 hget hclient
  · trivial

/-- **Replays.** -/
theorem replay_follows (hagrees : Agrees limits svc.quotas) :
    Follows limits (fun p _ => AcceptPost c clientId idempotencyKey p)
      (replay svc c clientId runId idempotencyKey principalId).body [] [] v := by
  refine follows_lockIdentity (.inl (by simp)) fun L v1 hL h1 => ?_
  refine follows_getRunForClient fun v2 source h2 _ _ => ?_
  split
  · trivial
  · refine obeys_read.mpr fun v3 h3 => ?_
    split
    · rename_i existing hexisting
      exact follows_match matchReplayOrRaise_true hexisting rfl
    · refine follows_checkAdmission hL.principal hL.tenant fun v4 h4 hroom1 hroom2 => ?_
      refine follows_insertRun hL.onlyScopes.rooted
        (admitted_newRun hagrees hL.principal hL.tenant hroom1 hroom2) (fun id _ v' => ?_)
        fun v5 h5 _ => ?_
      · exact .row fun l m hl => .inl (hL.onlyScopes l m hl)
      · refine follows_insertOutbox h5 rfl fun v6 h6 => ?_
        refine follows_insertEvent h6 rfl (.inr (.inl ?_)) fun v7 h7 => ?_
        · refine List.mem_append_right _ (List.mem_append_left _ (lock_mem_taken.mpr ?_))
          simp [touched, newRun, newEvent]
        · refine follows_insertEvent h7 rfl (.inl rfl) fun v8 _ => ?_
          exact fun v9 _ => .created [newEvent c c.runId 0 source.id none .replayCreated
            [("replay_run_id", .uuid c.runId)], newEvent c c.runId 1 c.runId none .runReplayQueued
              [("replay_of_run_id", .uuid source.id)]] rfl rfl

theorem replay_handler_follows {e : PyError}
    (ht : (replay svc c clientId runId idempotencyKey principalId).handler e = some t) :
    Follows limits (fun p _ => AcceptPost c clientId idempotencyKey p) t [] [] v := by
  simp only [replay] at ht
  split at ht
  · cases ht
    refine follows_afterRace fun v1 run _ hrun => follows_getRunForClient fun v2 source h2 _ _ => ?_
    obtain ⟨run', hrun', hid⟩ := h2.grows.keyHolder hrun
    exact follows_match matchReplayOrRaise_true hrun' hid
  · exact absurd ht (by simp)

/-! ### Evaluations -/

/-- **Evaluations.** The source row stays as it was read until the job is inserted. -/
theorem evaluate_follows {rules : List JsonObject} (hagrees : Agrees limits svc.quotas) :
    Follows limits (fun _ _ ws _ => ∀ w ∈ ws, ¬ Charges w)
      (evaluate svc c clientId runId rules principalId) [] [] v := by
  refine obeys_ofExcept fun _ _ => follows_lockIdentity (.inl (by simp)) fun L v1 hL h1 => ?_
  refine follows_getRunForClient fun v2 source h2 _ _ => obeys_acquire.mpr fun v3 h3 => ⟨?_, ?_⟩
  · exact .row fun l m hl => .inl (hL.onlyScopes l m hl)
  refine obeys_read.mpr fun v4 h4 => ?_
  split
  · trivial
  rename_i run hrun
  split
  · trivial
  rename_i hready
  obtain rfl : run.id = runId := (mem_of_get? hrun).2
  have hheld : Locked ((.lock (.run run.id), .exclusive) :: L) (.run run.id) := List.mem_cons_self
  have hroot : Rooted ((.lock (.run run.id), .exclusive) :: L) v4 :=
    hL.onlyScopes.rooted_row (Option.isSome_iff_exists.mpr ⟨run, hrun⟩)
  refine follows_checkAdmission (List.mem_cons_of_mem _ hL.principal)
    (List.mem_cons_of_mem _ hL.tenant) fun v5 h5 hroom1 hroom2 => ?_
  refine follows_insertRun (hroot.grows h5.grows) (admitted_newRun hagrees
    (List.mem_cons_of_mem _ hL.principal) (List.mem_cons_of_mem _ hL.tenant) hroom1 hroom2)
    (by simp [newJob, newRun]) fun v6 h6 hkept => ?_
  have hrun6 := hkept (h5.runs.held hheld hrun) hheld
  have hheld6 := List.mem_append_right (taken (.insertRun (newJob svc c clientId
    (orElseText principalId clientId) run.id rules))) hheld
  refine follows_noteRun hheld6 hrun6 fun v7 u h7 happly => ?_
  have haccepting := (h6.frame h7).write happly fun l m hl => by
    cases List.mem_singleton.mp hl
    exact .inl hheld6
  have hended : Ended u run.id := by
    refine ⟨_, get?_noteRun (h7.runs.held hheld6 hrun6) happly, ?_⟩
    rw [not_or, not_or, not_not, not_not] at hready
    simp [hready.2.1, isTerminal_iff]
  have hheld7 := List.mem_append_right (taken (.updateRun run.id [.evaluationStatus .pending])) hheld6
  refine follows_insertEvaluation haccepting hheld7 hended rfl fun v8 h8 => ?_
  refine follows_insertOutbox h8 rfl fun v9 h9 => ?_
  refine follows_insertEvent h9 rfl (.inl rfl) fun v10 h10 => ?_
  refine follows_insertEvent h10 rfl (.inr (.inr ?_)) fun v11 _ => fun _ _ => by simp [Charges]
  exact List.mem_append_right _ (List.mem_append_right _ (List.mem_append_right _ hheld7))

end Requests

end AgentRuntime.Concurrency
