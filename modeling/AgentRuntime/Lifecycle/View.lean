import AgentRuntime.Database.Service
import AgentRuntime.Lib.Ensures

/-!
# The part of the store that belongs to one run

A run is one row together with its attempts, its history and its outbox events. `Store.view`
collects them, and `Write.onView` says what a write statement does to the view of one run. All
lifecycle properties are properties of views, so the tables are left behind here.

* `applied`, `apply_change`: what a write does to the store and to its tables;
* `view_apply`: a write changes every view as `Write.onView` says;
* `setAttempt_of_other`: updating an attempt of another run changes nothing.
-/

namespace AgentRuntime.Lifecycle

open Lib Table Domain Database

/-- What is accepted with a run and never assigned again. -/
structure Accepted where
  id : Uuid
  clientId : String
  principalId : Option String
  workKind : WorkKind
  idempotencyKey : String
  requestHash : String
  inputPayload : JsonObject
  policySnapshot : JsonObject
  traceContext : JsonObject
  createdAt : Timestamp
  replayOfRunId : Option Uuid

/-- The accepted columns of a row. -/
def accepted (r : Run) : Accepted where
  id := r.id
  clientId := r.clientId
  principalId := r.principalId
  workKind := r.workKind
  idempotencyKey := r.idempotencyKey
  requestHash := r.requestHash
  inputPayload := r.inputPayload
  policySnapshot := r.policySnapshot
  traceContext := r.traceContext
  createdAt := r.createdAt
  replayOfRunId := r.replayOfRunId

theorem accepted_assign (c : RunSet) (r : Run) : accepted (c.assign r) = accepted r := by
  cases c <;> rfl

/-- No assignment touches the accepted columns. -/
theorem accepted_assignAll (sets : List RunSet) (r : Run) :
    accepted (assignAll RunSet.assign sets r) = accepted r :=
  assignAll_keeps accepted_assign sets r

/-- A run with its attempts, its history and its outbox events, each in insertion order. -/
structure RunView where
  run : Option Run
  attempts : List RunAttempt
  events : List RunEvent
  outbox : List OutboxEvent

namespace RunView

/-- The view of a run that does not exist. -/
def empty : RunView := ⟨none, [], [], []⟩

/-- Assign columns of the run. -/
@[simps]
def setRun (v : RunView) (sets : List RunSet) : RunView :=
  { v with run := v.run.map (assignAll RunSet.assign sets) }

/-- Assign columns of one attempt. -/
@[simps]
def setAttempt (v : RunView) (id : Uuid) (sets : List AttemptSet) : RunView :=
  { v with attempts := v.attempts.map fun a =>
      if a.id = id then assignAll AttemptSet.assign sets a else a }

/-- Assign columns of one outbox event. -/
@[simps]
def setOutbox (v : RunView) (id : Uuid) (sets : List OutboxSet) : RunView :=
  { v with outbox := v.outbox.map fun e =>
      if e.id = id then assignAll OutboxSet.assign sets e else e }

@[simps]
def addRun (v : RunView) (r : Run) : RunView := { v with run := some r }
@[simps]
def addAttempt (v : RunView) (a : RunAttempt) : RunView := { v with attempts := v.attempts ++ [a] }
@[simps]
def addEvent (v : RunView) (e : RunEvent) : RunView := { v with events := v.events ++ [e] }
@[simps]
def addOutbox (v : RunView) (e : OutboxEvent) : RunView := { v with outbox := v.outbox ++ [e] }

end RunView

/-- The view of run `k`. -/
def view (s : Store) (k : Uuid) : RunView where
  run := s.runs.get? k
  attempts := s.attemptsOf k
  events := s.events.select fun e => e.runId == k
  outbox := s.outbox.select fun e => e.aggregateId == k

@[simp] theorem view_run (s : Store) (k : Uuid) : (view s k).run = s.runs.get? k := rfl

@[simp] theorem view_attempts (s : Store) (k : Uuid) : (view s k).attempts = s.attemptsOf k := rfl

/-- What a write does to the view of run `k`. -/
def onView (k : Uuid) : Write → RunView → RunView
  | .insertRun r, v => if r.id = k then v.addRun r else v
  | .updateRun id sets, v => if id = k then v.setRun sets else v
  | .insertAttempt a, v => if a.runId = k then v.addAttempt a else v
  | .updateAttempt id sets, v => v.setAttempt id sets
  | .insertEvent e, v => if e.runId = k then v.addEvent e else v
  | .insertOutbox e, v => if e.aggregateId = k then v.addOutbox e else v
  | .updateOutbox id sets, v => v.setOutbox id sets
  | .insertEvaluation _, v => v
  | .updateEvaluation _ _, v => v
  | .insertQuota _, v => v
  | .updateQuota _ _ _, v => v

/-! ### Inverting writes -/

theorem writes_apply (w : Write) (s : Store) : Writes.apply w s = w.apply s := rfl

theorem insertOr_ok {α κ : Type} [Row α κ] {t : Table α} {a : α} {set : Table α → Store}
    {s' : Store} (h : insertOr t a set = .ok s') : ∃ t', t.insert? a = some t' ∧ s' = set t' := by
  unfold insertOr at h
  split at h
  · rename_i t' hins
    cases h
    exact ⟨t', hins, rfl⟩
  · exact absurd h (by simp)

/-- What an accepted write makes of the store, with the constraints that it has passed. -/
inductive Applied (s : Store) : Write → Store → Prop
  | insertRun (r : Run) {t : Table Run} (hins : s.runs.insert? r = some t)
      (hsource : r.replayOfRunId.all s.hasRun = true) :
      Applied s (.insertRun r) { s with runs := t }
  | updateRun (id : Uuid) (sets : List RunSet) :
      Applied s (.updateRun id sets) { s with
        runs := s.runs.update id (assignAll RunSet.assign sets)
          (assignAll_keeps RunSet.ident_assign sets) }
  | insertAttempt (a : RunAttempt) {t : Table RunAttempt} (hins : s.attempts.insert? a = some t)
      (hrun : s.hasRun a.runId = true) (hfits : fitsVarchar64 a.provider = true) :
      Applied s (.insertAttempt a) { s with attempts := t }
  | updateAttempt (id : Uuid) (sets : List AttemptSet) (hfits : sets.all AttemptSet.fits = true) :
      Applied s (.updateAttempt id sets) { s with
        attempts := s.attempts.update id (assignAll AttemptSet.assign sets)
          (assignAll_keeps AttemptSet.ident_assign sets) }
  | insertEvent (e : RunEvent) {t : Table RunEvent} (hins : s.events.insert? e = some t)
      (hrun : s.hasRun e.runId = true) (hattempt : e.attemptId.all s.hasAttempt = true) :
      Applied s (.insertEvent e) { s with events := t }
  | insertOutbox (e : OutboxEvent) {t : Table OutboxEvent} (hins : s.outbox.insert? e = some t) :
      Applied s (.insertOutbox e) { s with outbox := t }
  | updateOutbox (id : Uuid) (sets : List OutboxSet) :
      Applied s (.updateOutbox id sets) { s with
        outbox := s.outbox.update id (assignAll OutboxSet.assign sets)
          (assignAll_keeps OutboxSet.ident_assign sets) }
  | insertEvaluation (e : Evaluation) {t : Table Evaluation}
      (hins : s.evaluations.insert? e = some t) (hrun : s.hasRun e.runId = true)
      (hjob : e.jobRunId.all s.hasRun = true) :
      Applied s (.insertEvaluation e) { s with evaluations := t }
  | updateEvaluation (id : Uuid) (sets : List EvaluationSet) :
      Applied s (.updateEvaluation id sets) { s with
        evaluations := s.evaluations.update id (assignAll EvaluationSet.assign sets)
          (assignAll_keeps EvaluationSet.ident_assign sets) }
  | insertQuota (q : ProviderQuota) {t : Table ProviderQuota}
      (hins : s.quotas.insert? q = some t) : Applied s (.insertQuota q) { s with quotas := t }
  | updateQuota (scope : String) (windowStart : ℤ) (used : ℕ) :
      Applied s (.updateQuota scope windowStart used) { s with
        quotas := s.quotas.update scope (fun q => ⟨q.scope, windowStart, used⟩) fun _ => rfl }

theorem ite_error_eq_ok {ε α : Type} {p : Prop} [Decidable p] {x : Except ε α} {e : ε} {a : α}
    (h : (if p then x else .error e) = .ok a) : p ∧ x = .ok a := by
  split at h
  · exact ⟨‹_›, h⟩
  · exact absurd h (by simp)

variable {w : Write} {s s' : Store}

/-- **Inversion of writes.** -/
theorem applied (h : Writes.apply w s = .ok s') : Applied s w s' := by
  rw [writes_apply] at h
  cases w with
  | insertRun r =>
    obtain ⟨hsource, h⟩ := ite_error_eq_ok h
    obtain ⟨t, hins, rfl⟩ := insertOr_ok h
    exact .insertRun r hins hsource
  | insertAttempt a =>
    obtain ⟨hfits, h⟩ := ite_error_eq_ok h
    obtain ⟨hrun, h⟩ := ite_error_eq_ok h
    obtain ⟨t, hins, rfl⟩ := insertOr_ok h
    exact .insertAttempt a hins hrun hfits
  | updateAttempt id sets =>
    obtain ⟨hfits, h⟩ := ite_error_eq_ok h
    cases h
    exact .updateAttempt id sets hfits
  | insertEvent e =>
    obtain ⟨hrefs, h⟩ := ite_error_eq_ok h
    obtain ⟨t, hins, rfl⟩ := insertOr_ok h
    obtain ⟨hrun, hattempt⟩ := Bool.and_eq_true_iff.mp hrefs
    exact .insertEvent e hins hrun hattempt
  | insertOutbox e =>
    obtain ⟨t, hins, rfl⟩ := insertOr_ok h
    exact .insertOutbox e hins
  | insertEvaluation e =>
    obtain ⟨hrefs, h⟩ := ite_error_eq_ok h
    obtain ⟨t, hins, rfl⟩ := insertOr_ok h
    obtain ⟨hrun, hjob⟩ := Bool.and_eq_true_iff.mp hrefs
    exact .insertEvaluation e hins hrun hjob
  | insertQuota q =>
    obtain ⟨t, hins, rfl⟩ := insertOr_ok h
    exact .insertQuota q hins
  | _ =>
    cases h
    constructor

theorem Applied.apply (h : Applied s w s') : Writes.apply w s = .ok s' := by
  rw [writes_apply]
  cases h <;> simp [Write.apply, insertOr, *]

theorem apply_insertRun {r : Run} (h : Writes.apply (Write.insertRun r) s = .ok s') :
    ∃ t, s.runs.insert? r = some t ∧ s' = { s with runs := t } := by
  cases applied h with
  | insertRun _ hins => exact ⟨_, hins, rfl⟩

theorem apply_insertAttempt {a : RunAttempt} (h : Writes.apply (Write.insertAttempt a) s = .ok s') :
    ∃ t, s.attempts.insert? a = some t ∧ s' = { s with attempts := t } := by
  cases applied h with
  | insertAttempt _ hins => exact ⟨_, hins, rfl⟩

theorem apply_insertEvent {e : RunEvent} (h : Writes.apply (Write.insertEvent e) s = .ok s') :
    ∃ t, s.events.insert? e = some t ∧ s' = { s with events := t }
      ∧ (s.runs.get? e.runId).isSome := by
  cases applied h with
  | insertEvent _ hins hrun => exact ⟨_, hins, rfl, hrun⟩

theorem apply_insertEvaluation {e : Evaluation}
    (h : Writes.apply (Write.insertEvaluation e) s = .ok s') :
    ∃ t, s.evaluations.insert? e = some t ∧ s' = { s with evaluations := t } := by
  cases applied h with
  | insertEvaluation _ hins => exact ⟨_, hins, rfl⟩

theorem apply_updateAttempt {id : Uuid} {sets : List AttemptSet}
    (h : Writes.apply (Write.updateAttempt id sets) s = .ok s') :
    sets.all AttemptSet.fits = true ∧
      s' = { s with attempts := s.attempts.update id (assignAll AttemptSet.assign sets)
                      (assignAll_keeps AttemptSet.ident_assign sets) } := by
  cases applied h with
  | updateAttempt _ _ hfits => exact ⟨hfits, rfl⟩

/-- What a write makes of the runs, the outbox events and the evaluations: it leaves the table,
inserts one row or assigns columns of one. -/
structure Change (w : Write) (s s' : Store) : Prop where
  runs : s'.runs = s.runs
    ∨ (∃ r, w = .insertRun r ∧ s.runs.insert? r = some s'.runs)
    ∨ ∃ id sets, w = .updateRun id sets ∧ s'.runs = s.runs.update id
        (assignAll RunSet.assign sets) (assignAll_keeps RunSet.ident_assign sets)
  outbox : s'.outbox = s.outbox
    ∨ (∃ e, w = .insertOutbox e ∧ s.outbox.insert? e = some s'.outbox)
    ∨ ∃ id sets, w = .updateOutbox id sets
        ∧ s'.outbox = s.outbox.update id (assignAll OutboxSet.assign sets)
          (assignAll_keeps OutboxSet.ident_assign sets)
  evaluations : s'.evaluations = s.evaluations
    ∨ (∃ e, w = .insertEvaluation e ∧ s.evaluations.insert? e = some s'.evaluations
        ∧ (s.runs.get? e.runId).isSome)
    ∨ ∃ id sets, s'.evaluations = s.evaluations.update id (assignAll EvaluationSet.assign sets)
        (assignAll_keeps EvaluationSet.ident_assign sets)

theorem apply_change (h : Writes.apply w s = .ok s') : Change w s s' := by
  cases applied h with
  | insertRun r hins => exact ⟨.inr (.inl ⟨r, rfl, hins⟩), .inl rfl, .inl rfl⟩
  | updateRun id sets => exact ⟨.inr (.inr ⟨id, sets, rfl, rfl⟩), .inl rfl, .inl rfl⟩
  | insertOutbox e hins => exact ⟨.inl rfl, .inr (.inl ⟨e, rfl, hins⟩), .inl rfl⟩
  | updateOutbox id sets => exact ⟨.inl rfl, .inr (.inr ⟨id, sets, rfl, rfl⟩), .inl rfl⟩
  | insertEvaluation e hins hrun => exact ⟨.inl rfl, .inl rfl, .inr (.inl ⟨e, rfl, hins, hrun⟩)⟩
  | updateEvaluation id sets => exact ⟨.inl rfl, .inl rfl, .inr (.inr ⟨id, sets, rfl⟩)⟩
  | _ => exact ⟨.inl rfl, .inl rfl, .inl rfl⟩

/-- **No write loses a run** or changes what was accepted with it. -/
theorem runs_stay (h : Writes.apply w s = .ok s') :
    s.runs.Stays (fun _ r r' => accepted r' = accepted r) s'.runs := by
  cases applied h with
  | insertRun r hins => exact stays_insert (fun _ _ => rfl) hins
  | updateRun id sets =>
    exact stays_update (assignAll_keeps RunSet.ident_assign sets) (fun _ _ => rfl)
      fun _ => accepted_assignAll sets _
  | _ => exact .refl fun _ _ => rfl

/-- A write raises for a violated constraint or a value that does not fit, and for nothing else. -/
theorem apply_error {s : Store} {e : PyError} (h : Writes.apply w s = .error e) :
    e = .integrityError ∨ e = .dataError := by
  have hinsert {α κ : Type} [Row α κ] {t : Table α} {x : α} {set : Table α → Store}
      (h : insertOr t x set = .error e) : e = .integrityError := by
    unfold insertOr at h
    split at h
    · exact absurd h (by simp)
    · exact (Except.error.inj h).symm
  have hite {p : Prop} [Decidable p] {x : Except PyError Store} {e' : PyError}
      (h : (if p then x else .error e') = .error e) : x = .error e ∨ e = e' := by
    split at h
    · exact .inl h
    · exact .inr (Except.error.inj h).symm
  rw [writes_apply] at h
  cases w with
  | insertRun r => exact .inl ((hite h).elim hinsert id)
  | insertAttempt a => exact (hite h).imp_left fun h => (hite h).elim hinsert id
  | updateAttempt id sets => exact .inr ((hite h).resolve_left (by simp))
  | insertEvent e => exact .inl ((hite h).elim hinsert id)
  | insertEvaluation e => exact .inl ((hite h).elim hinsert id)
  | insertOutbox e => exact .inl (hinsert h)
  | insertQuota q => exact .inl (hinsert h)
  | _ => exact absurd h (by simp [Write.apply])

/-! ### Writes and views -/

theorem runId_assign (c : AttemptSet) (a : RunAttempt) : (c.assign a).runId = a.runId := by
  cases c <;> rfl

theorem aggregateId_assign (c : OutboxSet) (e : OutboxEvent) :
    (c.assign e).aggregateId = e.aggregateId := by
  cases c <;> rfl

/-- **A write changes every view as `onView` says.** -/
theorem view_apply (h : Writes.apply w s = .ok s') (k : Uuid) :
    view s' k = onView k w (view s k) := by
  cases applied h with
  | insertRun r hins =>
    have hget := get?_insert hins k
    rw [Run.row_id] at hget
    simp only [view, onView, Store.attemptsOf, hget]
    split <;> rfl
  | updateRun id sets =>
    have hget := get?_update s.runs id k (assignAll RunSet.assign sets)
      (assignAll_keeps RunSet.ident_assign sets)
    simp only [view, onView, Store.attemptsOf, hget, eq_comm (a := k)]
    split <;> rfl
  | insertAttempt a hins =>
    have hsel := select_insert hins fun a => a.runId == k
    simp only [view, onView, Store.attemptsOf, hsel, beq_iff_eq]
    split
    · rfl
    · rw [List.append_nil]
  | updateAttempt id sets =>
    have hsel := select_update s.attempts id (assignAll AttemptSet.assign sets)
      (assignAll_keeps AttemptSet.ident_assign sets) (fun a => a.runId == k)
      (fun a => by rw [assignAll_keeps runId_assign sets a])
    simp only [view, onView, Store.attemptsOf, hsel, RunAttempt.row_id]
    rfl
  | insertEvent e hins =>
    have hsel := select_insert hins fun e => e.runId == k
    simp only [view, onView, Store.attemptsOf, hsel, beq_iff_eq]
    split
    · rfl
    · rw [List.append_nil]
  | insertOutbox e hins =>
    have hsel := select_insert hins fun e => e.aggregateId == k
    simp only [view, onView, Store.attemptsOf, hsel, beq_iff_eq]
    split
    · rfl
    · rw [List.append_nil]
  | updateOutbox id sets =>
    have hsel := select_update s.outbox id (assignAll OutboxSet.assign sets)
      (assignAll_keeps OutboxSet.ident_assign sets) (fun e => e.aggregateId == k)
      (fun e => by rw [assignAll_keeps aggregateId_assign sets e])
    simp only [view, onView, Store.attemptsOf, hsel, OutboxEvent.row_id]
    rfl
  | _ => rfl

/-! ### Rows of other runs -/

/-- Updating an attempt of another run leaves the view of `k` as it is. -/
theorem setAttempt_of_other {s : Store} {k : Uuid} {a : RunAttempt} (ha : a ∈ s.attempts.rows)
    (hk : a.runId ≠ k) (sets : List AttemptSet) :
    (view s k).setAttempt a.id sets = view s k := by
  have hmap : (view s k).attempts.map (fun b =>
      if b.id = a.id then assignAll AttemptSet.assign sets b else b) = (view s k).attempts := by
    rw [List.map_congr_left, List.map_id]
    intro b hb
    obtain ⟨hmem, hrun⟩ := mem_select.mp hb
    have hne : b.id ≠ a.id := by
      intro hid
      rw [eq_of_id_eq hmem ha hid] at hrun
      exact hk (beq_iff_eq.mp hrun)
    simp only [hne, if_false, id_eq]
  unfold RunView.setAttempt
  rw [hmap]

end AgentRuntime.Lifecycle
