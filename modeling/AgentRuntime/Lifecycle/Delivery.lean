import AgentRuntime.Lifecycle.Sweeps
import AgentRuntime.Messaging.System

/-!
# No accepted run is stranded

The runtime follows the outbox protocol: every action of every party is a step of it, with `QUEUED`
runs as the waiting jobs and unpublished `RUN_QUEUED` events as the intents. So in every reachable
state a queued run has an unpublished event or a message that will be claimed; a running one has a
lease that recovery finds once it has expired, and a scheduled one a time at which it is requeued.
A running run whose recovery comes 25 days late is found and never settled.

* `service_announces`: the operations of the services announce every run they queue;
* `claim_leaves_queue`: a claim that returns has taken its run out of the queue;
* `act_sound`: every action of the system is a step of the protocol;
* `no_run_stranded`: the invariant of the system;
* `late_recovery_strands`: a running run that no recovery settles.
-/

namespace AgentRuntime.Lifecycle

open Lib Tx Table Domain Database Application Messaging

/-- What the protocol sees of the system. -/
def toOutbox (x : System) : Outbox.State Store Uuid Uuid ClaimedRun :=
  ⟨x.store, x.dispatches.map fun d => ⟨d.event.id, d.arrived⟩, x.queue⟩

theorem ledger_waiting_iff {s : Store} {k : Uuid} :
    ledger.waiting s k = true ↔ (view s k).run.map Run.executionStatus = some .queued := by
  simp only [ledger, view_run]
  cases s.runs.get? k with
  | none => simp
  | some r => simp

/-! ### Outbox rows -/

section Rows

variable {s s0 s' : Store} {w : Write} {P : Run → Prop}

/-- Everything but the dispatcher leaves the outbox rows there are. -/
theorem outbox_kept (hw : Accepts P w) (h : Writes.apply w s = .ok s') {id : Uuid}
    {e : OutboxEvent} (he : s.outbox.get? id = some e) : s'.outbox.get? id = some e := by
  rcases (apply_change h).outbox with heq | ⟨o, rfl, hins⟩ | ⟨_, _, rfl, -⟩
  · rw [heq]
    exact he
  · have hother : ¬ o.id = id := by
      intro hid
      have hfresh := get?_insert_fresh hins
      rw [OutboxEvent.row_id, hid, he] at hfresh
      exact absurd hfresh (by simp)
    exact (get?_insert hins id).trans ((if_neg hother).trans he)
  · exact hw.elim

/-- Everything but the dispatcher inserts outbox rows unpublished. -/
theorem outbox_unpublished (hw : Accepts P w) (h : Writes.apply w s = .ok s')
    (hs : ∀ e ∈ s.outbox.rows, e ∈ s0.outbox.rows ∨ e.publishedAt = none) :
    ∀ e ∈ s'.outbox.rows, e ∈ s0.outbox.rows ∨ e.publishedAt = none := by
  rcases (apply_change h).outbox with heq | ⟨o, rfl, hins⟩ | ⟨_, _, rfl, -⟩
  · rw [heq]
    exact hs
  · intro e he
    rw [(insert?_eq_some hins).1, List.mem_append, List.mem_singleton] at he
    rcases he with hold | rfl
    · exact hs e hold
    · exact .inr hw
  · exact hw.elim

end Rows

/-! ### Runs that are queued are announced -/

section Announcing

variable {s s' : Store} {i : Input} {answer : Answer} {v v' : RunView}

/-- What identifies an outbox event and never changes. -/
def outboxKey (o : OutboxEvent) : Uuid × OutboxEventType := (o.id, o.eventType)

theorem outboxKey_assign (c : OutboxSet) (o : OutboxEvent) :
    outboxKey (c.assign o) = outboxKey o := by
  cases c <;> rfl

/-- A step into the queue leaves a new `RUN_QUEUED` event. -/
theorem RunStep.announced (h : RunStep s i answer v v')
    (hqueued : v'.run.map Run.executionStatus = some .queued) :
    ∃ o, o.eventType = .runQueued ∧ v'.outbox = v.outbox ++ [o] := by
  cases hrun : v.run with
  | none =>
    obtain ⟨-, -, o, -, -, -, -, houtbox, htype, -⟩ := h.born hrun
    exact ⟨o, htype, houtbox⟩
  | some r =>
    obtain ⟨r', m, hm⟩ := h.moved hrun
    rw [hm.run', Option.map_some, hm.target, Option.some.injEq] at hqueued
    have hrequeue : m = .requeue := by
      revert hqueued
      cases m <;> decide
    obtain ⟨new, houtbox, htypes⟩ := hm.outbox
    rw [hrequeue] at htypes
    obtain ⟨o, rfl, htype⟩ := List.map_eq_singleton_iff.mp htypes
    exact ⟨o, htype, houtbox⟩

/-- A run that is queued after an operation was queued before, or has a new `RUN_QUEUED` event. -/
theorem Effect.announced (h : Effect s i answer v v')
    (hqueued : v'.run.map Run.executionStatus = some .queued)
    (hnodup : (v'.outbox.map OutboxEvent.id).Nodup) :
    v.run.map Run.executionStatus = some .queued
      ∨ ∃ o ∈ v'.outbox, o.eventType = .runQueued ∧ o.id ∉ v.outbox.map OutboxEvent.id := by
  cases h with
  | noted hnoted => exact .inl (hnoted.status_map_eq ▸ hqueued)
  | stepped hbefore hstep hafter =>
    right
    rw [hafter.status_map_eq] at hqueued
    obtain ⟨o, htype, houtbox⟩ := hstep.announced hqueued
    have hkeys : v'.outbox.map outboxKey = v.outbox.map outboxKey ++ [(o.id, .runQueued)] := by
      rw [hafter.outbox_map_eq outboxKey_assign, houtbox, List.map_append,
        hbefore.outbox_map_eq outboxKey_assign]
      simp [outboxKey, htype]
    have hids : v'.outbox.map OutboxEvent.id = v.outbox.map OutboxEvent.id ++ [o.id] := by
      have hfst := congrArg (List.map Prod.fst) hkeys
      simpa [List.map_append, List.map_map, Function.comp_def, outboxKey] using hfst
    have hmem : (o.id, OutboxEventType.runQueued) ∈ v'.outbox.map outboxKey := by
      rw [hkeys]
      simp
    obtain ⟨o', ho', hkey⟩ := List.mem_map.mp hmem
    obtain ⟨hid, htype'⟩ := Prod.mk.inj hkey
    refine ⟨o', ho', htype', ?_⟩
    rw [hids, List.nodup_append] at hnodup
    rw [hid]
    exact fun hin => hnodup.2.2 _ hin _ (List.mem_singleton_self _) rfl

/-- Every operation but the dispatcher's leaves the outbox rows there are. -/
theorem footprint_accepts [Externals] (hop : ∀ publish, i.op ≠ .dispatchOne publish) {w : Write}
    (hw : i.footprint w) : Accepts (fun _ => True) w := by
  have hmono : ∀ {P : Run → Prop}, Accepts P w → Accepts (fun _ => True) w := by
    intro P h
    cases w <;> trivial
  unfold Input.footprint at hw
  cases hi : i.op with
  | dispatchOne publish => exact absurd hi (hop publish)
  | _ =>
    rw [hi] at hw
    exact hmono hw

/-- **The operations of the services announce every run they queue.** -/
theorem service_announces [Externals] {x : System}
    (hrows : ∀ d ∈ x.dispatches, (x.store.outbox.get? d.event.id).isSome)
    (hop : ∀ publish, i.op ≠ .dispatchOne publish) (h : i.run x.store = .ok (answer, s')) :
    Outbox.Announces ledger (toOutbox x) s' := by
  have hkept : ∀ id e, x.store.outbox.get? id = some e → s'.outbox.get? id = some e :=
    fun id e he => Input.run_preserves (P := fun s => s.outbox.get? id = some e)
      (fun _ _ _ hw happly hs => outbox_kept (footprint_accepts hop hw) happly hs) he h
  have hnew : ∀ e ∈ s'.outbox.rows, e ∈ x.store.outbox.rows ∨ e.publishedAt = none :=
    Input.run_preserves
      (P := fun s => ∀ e ∈ s.outbox.rows, e ∈ x.store.outbox.rows ∨ e.publishedAt = none)
      (fun _ _ _ hw happly hs => outbox_unpublished (footprint_accepts hop hw) happly hs)
      (fun _ he => .inl he) h
  constructor
  · rintro id k ⟨e, he, hintent⟩
    exact ⟨e, hkept id e he, hintent⟩
  · intro k hk
    rw [ledger_waiting_iff] at hk ⊢
    have hnodup : ((view s' k).outbox.map OutboxEvent.id).Nodup :=
      (ids_nodup s'.outbox).sublist (List.filter_sublist.map _)
    rcases (run_effects h k).announced hk hnodup with hold | ⟨o, ho, htype, hid⟩
    · exact .inl hold
    · right
      obtain ⟨hrow, hrun⟩ := mem_select.mp ho
      have hget : s'.outbox.get? o.id = some o := get?_eq_some_iff.mpr ⟨hrow, rfl⟩
      have hfresh : x.store.outbox.get? o.id = none := by
        cases hold : x.store.outbox.get? o.id with
        | none => rfl
        | some e =>
          have heq : e = o := Option.some.inj ((hkept _ _ hold).symm.trans hget)
          rw [heq] at hold
          exact absurd (List.mem_map_of_mem (mem_select.mpr ⟨(mem_of_get? hold).1, hrun⟩)) hid
      refine ⟨o.id, ⟨o, hget, htype, beq_iff_eq.mp hrun, ?_⟩, ?_⟩
      · rcases hnew o hrow with hold | hunpublished
        · have hsome := get?_eq_some_iff.mpr ⟨hold, rfl⟩
          exact absurd (hfresh.symm.trans hsome) (by simp)
        · exact hunpublished
      · intro r hr heq
        obtain ⟨d, hd, rfl⟩ := List.mem_map.mp hr
        have hsome := hrows d hd
        rw [show d.event.id = o.id from heq, hfresh] at hsome
        exact absurd hsome (by simp)

end Announcing

/-! ### A claim takes its run out of the queue -/

section Claims

variable {s : Store} {busy : Lock → Bool} {svc : ExecutionService} {c : Call} {workerId : String}

theorem deferRun_leaves {r : Run} (hget : s.runs.get? r.id = some r) :
    Ensures busy (deferRun c r) s fun _ s' => StatusIs (· ≠ some .queued) r.id s' := by
  simp only [deferRun, bind_eq, ensures_bind, ensures_ofExcept, ensures_exec, pure_eq, ensures_done]
  exact fun t _ s1 h1 => statusIs_of_update h1 hget (by simp)

theorem startAttempt_leaves {r : Run} {n : ℕ} {policy : RetryPolicy}
    (hget : s.runs.get? r.id = some r) :
    Ensures busy (startAttempt svc c r workerId n policy) s
      fun _ s' => StatusIs (· ≠ some .queued) r.id s' := by
  simp only [startAttempt, bind_eq, ensures_bind, ensures_ofExcept, ensures_exec,
    pure_eq, ensures_done]
  intro expires _ s1 h1 s2 h2 s3 h3
  have hstarted : StatusIs (· ≠ some .queued) r.id s1 :=
    statusIs_of_update h1 hget (by simp)
  refine (hstarted.write h2 ?_).write h3 ?_
  · simp [onView, newAttempt]
  · simp [onView, newEvent]

theorem rejectRun_leaves {r : Run} (hget : s.runs.get? r.id = some r) :
    Ensures busy (rejectRun c r) s fun _ s' => StatusIs (· ≠ some .queued) r.id s' := by
  simp only [rejectRun, bind_eq, ensures_bind, ensures_exec, pure_eq, ensures_done]
  intro s1 h1
  exact (finalizeEvaluationJob_noted _ _).mono fun _ s2 hnoted =>
    (statusIs_of_update h1 hget (by simp)).noted (hnoted r.id)

/-- **A claim that returns has taken its run out of the queue.** -/
theorem claim_leaves_queue {k : Uuid} :
    Ensures busy (claim svc c k workerId) s fun _ s' => StatusIs (· ≠ some .queued) k s' := by
  cases hget : s.runs.get? k with
  | none => exact ensures_claim_missing hget (by simp [StatusIs, hget])
  | some r =>
    have hid : r.id = k := (mem_of_get? hget).2
    subst hid
    refine ensures_claim hget ?_ (fun _ _ => deferRun_leaves hget)
      (fun _ _ policy _ => startAttempt_leaves hget)
      (fun _ _ message _ => rejectRun_leaves hget)
    intro hqueued _
    simp [StatusIs, hget, hqueued]

end Claims

/-! ### Dispatchers -/

section Dispatchers

variable {s s' : Store} {busy : Lock → Bool} {c : Call} {e : OutboxEvent}
  {outcome : Except String Unit}

/-- The locks `lockUnpublished` chooses from, in its order. -/
def unpublishedLocks (s : Store) : List Lock :=
  ((s.outbox.select fun e => e.publishedAt.isNone).insertionSort fun a b =>
    a.createdAt.micros ≤ b.createdAt.micros).map fun e => Lock.outbox e.id

theorem mem_unpublishedLocks {l : Lock} :
    l ∈ unpublishedLocks s ↔ ∃ e ∈ s.outbox.rows, e.publishedAt = none ∧ l = .outbox e.id := by
  simp only [unpublishedLocks, List.mem_map, List.mem_insertionSort, mem_select,
    Option.isNone_iff_eq_none]
  constructor
  · rintro ⟨e, ⟨hmem, hnone⟩, rfl⟩
    exact ⟨e, hmem, hnone, rfl⟩
  · rintro ⟨e, hmem, hnone, rfl⟩
    exact ⟨e, ⟨hmem, hnone⟩, rfl⟩

theorem run_lockUnpublished (busy : Lock → Bool) (s : Store) :
    lockUnpublished.run busy s =
      .ok ((match ((unpublishedLocks s).filter fun l => !busy l).take 1 with
        | [.outbox id] => s.outbox.get? id
        | _ => none), s) := rfl

/-- A dispatcher locks an unpublished event that nobody has locked. -/
theorem lockUnpublished_some (h : lockUnpublished.run busy s = .ok (some e, s')) :
    s.outbox.get? e.id = some e ∧ e.publishedAt = none ∧ busy (.outbox e.id) = false := by
  rw [run_lockUnpublished, Except.ok.injEq, Prod.mk.injEq] at h
  obtain ⟨hread, -⟩ := h
  split at hread
  · rename_i id hlocks
    have hmem : Lock.outbox id ∈ (unpublishedLocks s).filter fun l => !busy l :=
      List.mem_of_mem_take (hlocks ▸ List.mem_singleton_self _)
    rw [List.mem_filter, mem_unpublishedLocks] at hmem
    obtain ⟨⟨e', he', hnone, hid⟩, hfree⟩ := hmem
    cases hid
    have hget : s.outbox.get? e'.id = some e' := get?_eq_some_iff.mpr ⟨he', rfl⟩
    cases hread.symm.trans hget
    exact ⟨hget, hnone, by simpa using hfree⟩
  · exact absurd hread (by simp)

/-- While its row is locked for a dispatcher, `_dispatch_one` of that dispatcher is the recording
of the outcome. -/
theorem run_dispatchOne_locked (hget : s.outbox.get? e.id = some e)
    (hnone : e.publishedAt = none) :
    (dispatchOne c fun _ => outcome).run (fun l => decide (l ≠ .outbox e.id)) s
      = (recordOutcome c e outcome).run busy s := by
  have hlocks : ((unpublishedLocks s).filter fun l => !decide (l ≠ .outbox e.id)).take 1
      = [.outbox e.id] := by
    have hmem : Lock.outbox e.id ∈
        (unpublishedLocks s).filter fun l => !decide (l ≠ .outbox e.id) :=
      List.mem_filter.mpr
        ⟨mem_unpublishedLocks.mpr ⟨e, (mem_of_get? hget).1, hnone, rfl⟩, by simp⟩
    cases hfilter : (unpublishedLocks s).filter fun l => !decide (l ≠ .outbox e.id) with
    | nil => exact absurd (hfilter ▸ hmem) (by simp)
    | cons l rest =>
      have hl := (List.mem_filter.mp (hfilter ▸ List.mem_cons_self : l ∈ _)).2
      rw [List.take_succ_cons, List.take_zero]
      simpa using hl
  have hread : lockUnpublished.run (fun l => decide (l ≠ .outbox e.id)) s = .ok (some e, s) := by
    rw [run_lockUnpublished, hlocks]
    exact congrArg (fun found => Except.ok (found, s)) hget
  simp only [dispatchOne, bind_eq, run_bind, hread, ok_bind]
  cases outcome <;> rfl

/-- What recording an outcome assigns to the event. -/
def outcomeSets (c : Call) (e : OutboxEvent) : Except String Unit → List OutboxSet
  | .ok () => [.publishAttempts (e.publishAttempts + 1), .publishedAt (some c.now), .lastError none]
  | .error errorType => [.publishAttempts (e.publishAttempts + 1), .lastError (some errorType)]

/-- Recording an outcome changes one outbox row and the history. -/
theorem recordOutcome_tables :
    Ensures busy (recordOutcome c e outcome) s fun _ s' => s'.runs = s.runs
      ∧ s'.outbox = s.outbox.update e.id (assignAll OutboxSet.assign (outcomeSets c e outcome))
        (assignAll_keeps OutboxSet.ident_assign _) := by
  have hwrites : ∀ {o : RunEvent} {sets : List OutboxSet} {s1 s2 : Store},
      Writes.apply (Write.updateOutbox e.id sets) s = .ok s1 →
      Writes.apply (Write.insertEvent o) s1 = .ok s2 → s2.runs = s.runs
        ∧ s2.outbox = s.outbox.update e.id (assignAll OutboxSet.assign sets)
          (assignAll_keeps OutboxSet.ident_assign sets) := by
    intro o sets s1 s2 h1 h2
    cases h1
    obtain ⟨t, -, rfl, -⟩ := apply_insertEvent h2
    exact ⟨rfl, rfl⟩
  cases outcome with
  | ok u =>
    simp only [recordOutcome, recordPublished, bind_eq, ensures_bind, ensures_exec,
      pure_eq, ensures_done]
    exact fun s1 h1 s2 h2 => hwrites h1 h2
  | error errorType =>
    simp only [recordOutcome, recordPublishFailed, bind_eq, ensures_bind, ensures_exec,
      pure_eq, ensures_done]
    exact fun s1 h1 s2 h2 => hwrites h1 h2

/-- **Only a confirmed event is published.** -/
theorem recordOutcome_intents {id k : Uuid} (hget : s.outbox.get? e.id = some e)
    (hs : s'.outbox = s.outbox.update e.id
      (assignAll OutboxSet.assign (outcomeSets c e outcome))
      (assignAll_keeps OutboxSet.ident_assign _)) (hintent : ledger.intent s id k) :
    ledger.intent s' id k ∨ id = e.id ∧ outcome.isOk = true := by
  obtain ⟨o, ho, htype, hrun, hnone⟩ := hintent
  by_cases hid : id = e.id
  · subst hid
    cases ho.symm.trans hget
    cases outcome with
    | ok u => exact .inr ⟨rfl, rfl⟩
    | error errorType =>
      refine .inl ⟨assignAll OutboxSet.assign (outcomeSets c e (.error errorType)) e, ?_, htype,
        hrun, hnone⟩
      rw [hs, get?_update, if_pos rfl, hget]
      rfl
  · refine .inl ⟨o, ?_, htype, hrun, hnone⟩
    rw [hs, get?_update, if_neg hid]
    exact ho

end Dispatchers

/-! ### Every action is a step of the protocol -/

/-- A row lock holds: the event is what its dispatcher read, unpublished, and has one dispatcher. -/
structure Held (x : System) : Prop where
  row : ∀ d ∈ x.dispatches,
    x.store.outbox.get? d.event.id = some d.event ∧ d.event.publishedAt = none
  nodup : (x.dispatches.map fun d => d.event.id).Nodup

/-- What holds in every reachable state of the system. -/
structure Sound [Externals] (x : System) : Prop where
  reachable : service.Reachable x.store
  held : Held x
  covered : Outbox.Covered ledger (toOutbox x)

section Actions

variable {x : System} {i : Input} {answer : Answer} {s' : Store} {n : ℕ}

theorem Held.isSome (h : Held x) :
    ∀ d ∈ x.dispatches, (x.store.outbox.get? d.event.id).isSome := by
  intro d hd
  rw [(h.row d hd).1]
  rfl

variable [Externals]

/-- A committed operation keeps the row locks and announces what it queues. -/
theorem Sound.commits (h : Sound x) (hop : ∀ publish, i.op ≠ .dispatchOne publish)
    (hrun : i.run x.store = .ok (answer, s')) :
    service.Reachable s' ∧ Held (x.commit s') ∧ Outbox.Announces ledger (toOutbox x) s' := by
  have hreach := h.reachable.step i
  rw [service_step_ok hrun] at hreach
  refine ⟨hreach, ⟨fun d hd => ?_, h.held.nodup⟩, service_announces h.held.isSome hop hrun⟩
  obtain ⟨hrow, hnone⟩ := h.held.row d hd
  exact ⟨Input.run_preserves (P := fun s => s.outbox.get? d.event.id = some d.event)
    (fun _ _ _ hw happly hs => outbox_kept (footprint_accepts hop hw) happly hs) hrow hrun, hnone⟩

/-- A message changes hands. -/
theorem Sound.pass (h : Sound x) {phase : Phase ClaimedRun}
    (hphase : ∀ m, x.queue[n]? = some m → m.phase.undecided = true → phase.undecided = true) :
    Sound (x.setPhase n phase) := by
  unfold System.setPhase
  split
  · rename_i m hm
    exact ⟨h.reachable, ⟨h.held.row, h.held.nodup⟩,
      (Outbox.Step.pass (toOutbox x) n m phase hm (hphase m hm)).covered h.covered⟩
  · exact h

/-- A message leaves the broker. -/
theorem Sound.drop (h : Sound x) {m : Hint Uuid ClaimedRun} (hm : x.queue[n]? = some m)
    (hdone : m.phase.undecided = false ∨ m.job = none) :
    Sound { x with queue := x.queue.eraseIdx n } :=
  ⟨h.reachable, ⟨h.held.row, h.held.nodup⟩,
    (Outbox.Step.drop (toOutbox x) n m hm hdone).covered h.covered⟩

/-- Another message reaches the queue. -/
theorem Sound.foreign (h : Sound x) (m : Hint Uuid ClaimedRun) :
    Sound { x with queue := x.queue ++ [m] } :=
  ⟨h.reachable, ⟨h.held.row, h.held.nodup⟩,
    (Outbox.Step.foreign (toOutbox x) m).covered h.covered⟩

theorem Sound.request (h : Sound x) (hrequest : isRequest i.op = true) :
    Sound (x.commit (service.step x.store i).2) := by
  have hop : ∀ publish, i.op ≠ .dispatchOne publish := by
    intro publish heq
    rw [heq] at hrequest
    exact absurd hrequest Bool.false_ne_true
  rcases service_step_cases x.store i with ⟨answer, s', hrun, hstep⟩ | ⟨e, -, hstep⟩
  · obtain ⟨hreach, hheld, hannounces⟩ := h.commits hop hrun
    rw [hstep]
    exact ⟨hreach, hheld, (Outbox.Step.commit _ s' hannounces).covered h.covered⟩
  · have hsame : Outbox.Announces ledger (toOutbox x) x.store :=
      ⟨fun _ _ hi => hi, fun _ hk => .inl hk⟩
    rw [hstep]
    exact ⟨h.reachable, ⟨h.held.row, h.held.nodup⟩,
      (Outbox.Step.commit _ _ hsame).covered h.covered⟩

/-- A dispatcher locks an event no other has. -/
theorem Sound.lock (h : Sound x) {busy : Lock → Bool} {e : OutboxEvent}
    (hlock : lockUnpublished.run (fun l => busy l || x.holds l) x.store = .ok (some e, s')) :
    Sound { x with dispatches := x.dispatches ++ [⟨e, false⟩] } := by
  obtain ⟨hget, hnone, hfree⟩ := lockUnpublished_some hlock
  have hnew : ∀ d ∈ x.dispatches, d.event.id ≠ e.id := by
    intro d hd heq
    have hholds : x.holds (.outbox e.id) = true :=
      List.any_eq_true.mpr ⟨d, hd, by simp [heq]⟩
    rw [hholds, Bool.or_true] at hfree
    exact absurd hfree (by simp)
  refine ⟨h.reachable, ⟨?_, ?_⟩, ?_⟩
  · intro d hd
    rcases List.mem_append.mp hd with hold | hin
    · exact h.held.row d hold
    · rw [List.mem_singleton.mp hin]
      exact ⟨hget, hnone⟩
  · rw [List.map_append, List.nodup_append]
    refine ⟨h.held.nodup, by simp, ?_⟩
    intro id hid id' hid'
    obtain ⟨d, hd, rfl⟩ := List.mem_map.mp hid
    rw [List.map_singleton, List.mem_singleton] at hid'
    rw [hid']
    exact hnew d hd
  · have hstep := Outbox.Step.lock (L := ledger) (toOutbox x) e.id
    have hrelays : toOutbox { x with dispatches := x.dispatches ++ [⟨e, false⟩] }
        = { toOutbox x with relays := (toOutbox x).relays ++ [⟨e.id, false⟩] } := by
      simp [toOutbox]
    rw [hrelays]
    exact hstep.covered h.covered

/-- The message of a dispatcher reaches the broker. -/
theorem Sound.arrive (h : Sound x) {d : Dispatch} (hd : x.dispatches[n]? = some d) :
    Sound { x with
      dispatches := x.dispatches.set n { d with arrived := true }
      queue := x.queue ++ executionMessages d.event } := by
  obtain ⟨hget, -⟩ := h.held.row d (List.mem_of_getElem? hd)
  obtain ⟨hlt, hself⟩ := List.getElem?_eq_some_iff.mp hd
  have hids : (x.dispatches.set n { d with arrived := true }).map (fun d => d.event.id)
      = x.dispatches.map fun d => d.event.id := by
    have hlt' : n < (x.dispatches.map fun d => d.event.id).length := by simpa using hlt
    have hat : (x.dispatches.map fun d => d.event.id)[n] = d.event.id := by simp [hself]
    rw [List.map_set, ← hat]
    exact List.set_getElem_self hlt'
  have hheld : Held { x with
      dispatches := x.dispatches.set n { d with arrived := true }
      queue := x.queue ++ executionMessages d.event } := by
    refine ⟨fun d' hd' => ?_, by rw [hids]; exact h.held.nodup⟩
    rcases List.mem_or_eq_of_mem_set hd' with hold | rfl
    · exact h.held.row d' hold
    · exact h.held.row d (List.mem_of_getElem? hd)
  have hrelay : (toOutbox x).relays[n]? = some ⟨d.event.id, d.arrived⟩ := by
    simp [toOutbox, hd]
  have hset : (x.dispatches.set n { d with arrived := true }).map
      (fun d => (⟨d.event.id, d.arrived⟩ : Relay Uuid))
      = (toOutbox x).relays.set n ⟨d.event.id, true⟩ := by
    rw [List.map_set]
    rfl
  refine ⟨h.reachable, hheld, ?_⟩
  have hintent : ∀ k, ledger.intent x.store d.event.id k →
      d.event.eventType = .runQueued ∧ d.event.aggregateId = k := by
    rintro k ⟨e, he, htype, hrun, -⟩
    cases he.symm.trans hget
    exact ⟨htype, hrun⟩
  unfold toOutbox executionMessages
  simp only [hset]
  split
  · exact (Outbox.Step.arrive (toOutbox x) n _ d.event.aggregateId hrelay
      fun k hk => (hintent k hk).2.symm).covered h.covered
  · rename_i htype
    rw [List.append_nil]
    refine (Outbox.Step.bypass (toOutbox x) n _ hrelay fun k hk => ?_).covered h.covered
    exact absurd ((hintent k hk).1.symm.trans htype) (by simp)

/-- A dispatcher commits what came of its event. -/
theorem Sound.record (h : Sound x) {d : Dispatch} (hd : x.dispatches[n]? = some d) {c : Call}
    {busy : Lock → Bool} {outcome : Except String Unit}
    (harrived : ¬ (outcome.isOk && !d.arrived) = true) :
    Sound { x with
      store := committed x.store ((recordOutcome c d.event outcome).run busy x.store)
      dispatches := x.dispatches.eraseIdx n } := by
  obtain ⟨hget, hnone⟩ := h.held.row d (List.mem_of_getElem? hd)
  have hrelay : (toOutbox x).relays[n]? = some ⟨d.event.id, d.arrived⟩ := by
    simp [toOutbox, hd]
  have herase : (x.dispatches.eraseIdx n).map (fun d => (⟨d.event.id, d.arrived⟩ : Relay Uuid))
      = (toOutbox x).relays.eraseIdx n := (List.eraseIdx_map ..).symm
  have hnodup : ((x.dispatches.eraseIdx n).map fun d => d.event.id).Nodup := by
    rw [← List.eraseIdx_map]
    exact h.held.nodup.eraseIdx n
  cases hrun : (recordOutcome c d.event outcome).run busy x.store with
  | error e =>
    refine ⟨h.reachable, ⟨fun d' hd' => h.held.row d' (List.mem_of_mem_eraseIdx hd'), hnodup⟩, ?_⟩
    unfold toOutbox
    simp only [committed, herase]
    exact (Outbox.Step.abandon (toOutbox x) n).covered h.covered
  | ok p =>
    obtain ⟨hruns, houtbox⟩ := recordOutcome_tables p.1 p.2 hrun
    -- The commit is the one `_dispatch_one` makes while every other outbox row is locked.
    have hi : Input.run
        ⟨.dispatchOne fun _ => outcome, c, fun l => decide (l ≠ .outbox d.event.id)⟩ x.store
          = .ok (.dispatched p.1, p.2) := by
      have hsame : (dispatchOne c fun _ => outcome).run
          (fun l => decide (l ≠ .outbox d.event.id)) x.store = .ok p :=
        (run_dispatchOne_locked hget hnone).trans hrun
      simp only [Input.run, hsame]
      rfl
    have hreach := h.reachable.step
      ⟨.dispatchOne fun _ => outcome, c, fun l => decide (l ≠ .outbox d.event.id)⟩
    rw [service_step_ok hi] at hreach
    refine ⟨hreach, ⟨fun d' hd' => ?_, hnodup⟩, ?_⟩
    · obtain ⟨j, hj, hd'⟩ := List.mem_eraseIdx_iff_getElem?.mp hd'
      have hne : d'.event.id ≠ d.event.id := by
        intro heq
        have hlt : j < (x.dispatches.map fun d => d.event.id).length := by
          simpa using (List.getElem?_eq_some_iff.mp hd').1
        exact hj ((List.getElem?_inj hlt h.held.nodup).mp (by simp [hd, hd', heq]))
      obtain ⟨hrow, hnone'⟩ := h.held.row d' (List.mem_of_getElem? hd')
      refine ⟨?_, hnone'⟩
      simp only [committed]
      rw [houtbox, get?_update, if_neg hne]
      exact hrow
    · unfold toOutbox
      simp only [committed, herase]
      refine (Outbox.Step.record (toOutbox x) n _ p.2 hrelay ?_ ?_).covered h.covered
      · intro id k hintent
        rcases recordOutcome_intents hget houtbox hintent with hkept | ⟨hid, hok⟩
        · exact .inl hkept
        · refine .inr ⟨hid, ?_⟩
          simpa [hok] using harrived
      · intro k
        simp only [ledger, toOutbox, hruns]

/-- The worker claims the run of a delivered message. -/
theorem Sound.claim (h : Sound x) (svc : ExecutionService) (workerId : String) (c : Call)
    (busy : Lock → Bool) : Sound (x.claim n svc workerId c busy) := by
  unfold System.claim
  split
  · rename_i hm
    exact h.drop hm (.inr rfl)
  · rename_i runId decided hm
    cases hrun : (Database.claim svc c runId workerId).run busy x.store with
    | error e => exact h.pass fun _ _ _ => rfl
    | ok p =>
      have hi : Input.run ⟨.claim svc runId workerId, c, busy⟩ x.store
          = .ok (.claim p.1, p.2) := by
        simp only [Input.run, hrun]
        rfl
      obtain ⟨hreach, hheld, hannounces⟩ := h.commits (fun publish => by simp) hi
      have hdone : ledger.waiting p.2 runId = false := by
        rw [← Bool.not_eq_true, ledger_waiting_iff]
        exact claim_leaves_queue p.1 p.2 hrun
      exact ⟨hreach, ⟨hheld.row, hheld.nodup⟩,
        (Outbox.Step.decide (toOutbox x) n _ runId p.2 _ hm rfl hannounces hdone).covered
          h.covered⟩
  · exact h

/-- The worker reports what came of a claimed run. -/
theorem Sound.complete (h : Sound x) (c : Call) (busy : Lock → Bool)
    (outcome : Except String ExecutionResult) : Sound (x.complete n c busy outcome) := by
  unfold System.complete
  split
  · rename_i runId held decided hm
    cases hrun : (completion c runId held outcome).run busy x.store with
    | error e => exact h.pass fun _ _ _ => rfl
    | ok p =>
      have hi : ∃ i : Input, (∀ publish, i.op ≠ .dispatchOne publish)
          ∧ i.run x.store = .ok (.completed p.1, p.2) := by
        cases outcome with
        | ok result =>
          refine ⟨⟨.completeSuccess runId held.work.attemptId held.workerId result, c, busy⟩,
            fun publish => by simp, ?_⟩
          simp only [completion] at hrun
          simp only [Input.run, hrun]
          rfl
        | error errorCode =>
          refine ⟨⟨.completeFailure runId held.work.attemptId held.workerId errorCode, c, busy⟩,
            fun publish => by simp, ?_⟩
          simp only [completion] at hrun
          simp only [Input.run, hrun]
          rfl
      obtain ⟨i, hop, hi⟩ := hi
      obtain ⟨hreach, hheld, hannounces⟩ := h.commits hop hi
      have hq : (x.commit p.2).queue[n]? = some (Outbox.refresh ledger x.store p.2
          ⟨some runId, .working held, decided⟩) :=
        (List.getElem?_map ..).trans (by rw [hm]; rfl)
      have hwork := Outbox.Step.work (toOutbox x) n _ p.2 (afterCompletion p.1) hm hannounces rfl
      simp only [System.setPhase, hq]
      exact ⟨hreach, ⟨hheld.row, hheld.nodup⟩, hwork.covered h.covered⟩
  · exact h

theorem Sound.finish (h : Sound x) : Sound (x.finish n) := by
  unfold System.finish
  split
  · rename_i hm
    exact h.drop hm (.inl rfl)
  · exact h.pass fun _ _ _ => rfl
  · exact h

/-- **Every action of the system is a step of the protocol.** -/
theorem act_sound (h : Sound x) (a : Action) : Sound (x.act a) := by
  cases a with
  | request i =>
    simp only [System.act]
    split
    · exact h.request ‹_›
    · exact h
  | lock busy =>
    simp only [System.act]
    split
    · exact h.lock ‹_›
    · exact h
  | arrive n =>
    simp only [System.act]
    split
    · exact h.arrive ‹_›
    · exact h
  | record n c busy outcome =>
    simp only [System.act]
    split
    · split
      · exact h
      · exact h.record ‹_› ‹_›
    · exact h
  | abandon n =>
    refine ⟨h.reachable, ⟨fun d hd => h.held.row d (List.mem_of_mem_eraseIdx hd), ?_⟩, ?_⟩
    · simp only [System.act]
      rw [← List.eraseIdx_map]
      exact h.held.nodup.eraseIdx n
    · have herase : toOutbox (x.act (.abandon n))
          = { toOutbox x with relays := (toOutbox x).relays.eraseIdx n } := by
        simp only [toOutbox, System.act, List.eraseIdx_map]
      rw [herase]
      exact (Outbox.Step.abandon (toOutbox x) n).covered h.covered
  | foreign runId => exact h.foreign _
  | duplicate n =>
    simp only [System.act]
    split
    · exact h.foreign _
    · exact h
  | deliver n =>
    simp only [System.act]
    split
    · exact h.pass fun _ _ _ => rfl
    · exact h
  | claim n svc workerId c busy => exact h.claim svc workerId c busy
  | complete n c busy outcome => exact h.complete c busy outcome
  | finish n => exact h.finish
  | redeliver n => exact h.pass fun _ _ _ => rfl

/-- Every reachable state of the system is sound. -/
theorem reachable_sound (h : system.Reachable x) : Sound x := by
  have hinit : Sound (system.init : System) := by
    refine ⟨service.reachable_init, ⟨?_, List.nodup_nil⟩, ?_⟩
    · exact fun d hd => absurd hd (by simp [system])
    · exact fun k hk => absurd hk Bool.false_ne_true
  exact system.reachable_induction (P := fun x => Sound x) hinit (fun x a hx => act_sound hx a) h

end Actions

/-- **No accepted run is stranded.** In every reachable state of the system, a queued run has an
unpublished event that announces it or a message that will still have it decided, a running run is
found once its lease has expired and settled if all its batch is in range, and a scheduled run is
requeued once it is due. -/
theorem no_run_stranded [Externals] {x : System} (h : system.Reachable x) :
    ∀ r ∈ x.store.runs.rows,
      (r.executionStatus = .queued →
        (∃ e ∈ x.store.outbox.rows, e.eventType = .runQueued ∧ e.aggregateId = r.id
          ∧ e.publishedAt = none)
        ∨ ∃ m ∈ x.queue, m.Pending r.id)
      ∧ (r.executionStatus = .running → RecoveredOnceExpired x.store r)
      ∧ (r.executionStatus = .retryScheduled → RequeuedOnceDue x.store r) := by
  have hsound := reachable_sound h
  intro r hr
  refine ⟨fun hqueued => ?_, reachable_recovers hsound.reachable hr,
    reachable_requeues hsound.reachable hr⟩
  have hget : x.store.runs.get? r.id = some r := get?_eq_some_iff.mpr ⟨hr, rfl⟩
  have hwaiting : ledger.waiting x.store r.id = true := by
    rw [ledger_waiting_iff, view_run, hget, Option.map_some, hqueued]
  rcases hsound.covered r.id hwaiting with ⟨id, ⟨e, he, hannounces⟩, -⟩ | hmessage
  · exact .inl ⟨e, (mem_of_get? he).1, hannounces⟩
  · exact .inr hmessage

/-- A run that was dispatched and claimed, beside one whose message is in the queue and one whose
first attempt has failed. -/
def sampleDeliveries : List Action :=
  let claim n seconds id worker : Action :=
    .claim n sampleWorker worker (sampleCall seconds id) fun _ => false
  let submit id tenant : Action := .request
    (sampleInput 0 id (.submit sampleRunService tenant "key" [] [] none))
  let dispatch n : List Action :=
    [.lock fun _ => false, .arrive 0, .record 0 (sampleCall 1 n) (fun _ => false) (.ok ())]
  [submit 1 "first", submit 2 "second", submit 3 "third"] ++ dispatch 4 ++ dispatch 5 ++ dispatch 6
    ++ [.deliver 0, .deliver 2, claim 0 2 7 "worker", claim 2 2 8 "worker",
      .complete 2 (sampleCall 3 9) (fun _ => false) (.error "EXECUTION_ERROR"), .finish 2]

theorem no_run_stranded_sample :
    letI := sampleExternals
    let x := system.after sampleDeliveries
    (x.store.runs.rows.map Run.executionStatus,
        x.store.outbox.rows.map fun e => e.publishedAt.isNone, x.queue.length)
          = ([.running, .queued, .retryScheduled], [false, false, false], 2)
      ∧ ∀ r ∈ x.store.runs.rows,
        (r.executionStatus = .queued →
          (∃ e ∈ x.store.outbox.rows, e.eventType = .runQueued ∧ e.aggregateId = r.id
            ∧ e.publishedAt = none)
          ∨ ∃ m ∈ x.queue, m.Pending r.id)
        ∧ (r.executionStatus = .running → RecoveredOnceExpired x.store r)
        ∧ (r.executionStatus = .retryScheduled → RequeuedOnceDue x.store r) := by
  let := sampleExternals
  exact ⟨by decide +kernel, no_run_stranded ⟨sampleDeliveries, rfl⟩⟩

/-- Beside them, the running run with a default policy: from 25 days after its attempt started on,
every recovery call finds it, raises and leaves the store as it was. -/
theorem late_recovery_strands :
    letI := sampleExternals
    let x := system.after sampleDeliveries
    ∃ r ∈ x.store.runs.rows, r.executionStatus = .running ∧ r.policySnapshot = []
      ∧ leaseExpired (sampleTime 200) r = true
      ∧ ∀ (i : Input) (batchSize : ℕ), i.op = .recoverExpiredLeases batchSize →
          sampleTime (25 * 86400 + 2) ≤ i.call.now → i.busy (.run r.id) = false →
          (x.store.runs.select (leaseExpired i.call.now)).length ≤ batchSize →
          r ∈ expiredBatch i batchSize x.store
            ∧ (∃ e, (service.step x.store i).1 = .error e) ∧ (service.step x.store i).2 = x.store := by
  let := sampleExternals
  intro x
  have hreach : system.Reachable x := ⟨sampleDeliveries, rfl⟩
  have hstored : (x.store.runs.get? (sampleUuid 1)).isSome = true := by decide +kernel
  have hrow : ∀ r ∈ x.store.runs.get? (sampleUuid 1), r.executionStatus = .running
      ∧ r.policySnapshot = [] ∧ leaseExpired (sampleTime 200) r = true
      ∧ leaseExpired (sampleTime (25 * 86400 + 2)) r = true
      ∧ ∀ a ∈ latestOpen (x.store.attemptsOf r.id),
        a.startedAt.micros + 1000000 * (25 * 86400) ≤ (sampleTime (25 * 86400 + 2)).micros := by
    decide +kernel
  clear_value x
  obtain ⟨r, hget⟩ := Option.isSome_iff_exists.mp hstored
  obtain ⟨hrunning, hpolicy, hexpired, hexpiredLate, hlate⟩ := hrow r hget
  have hmem := (mem_of_get? hget).1
  exact ⟨r, hmem, hrunning, hpolicy, hexpired, fun i batchSize hop hnow hfree hroom =>
    late_run_stays (reachable_sound hreach).reachable hmem hrunning hexpiredLate hlate hop hnow
      hfree hroom⟩

end AgentRuntime.Lifecycle
