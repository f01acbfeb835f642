import AgentRuntime.Database.Footprint
import AgentRuntime.Lifecycle.RunStep

/-!
# Every operation acts on every run by its steps

The services refine the abstract run model: `run_effect` shows that whatever an operation commits,
its effect on every single run is notes with at most one `RunStep` among them. The proof follows
the services' own code with the postcondition rules; batch operations go through the loop rule,
with the runs already handled as the invariant.
-/

namespace AgentRuntime.Lifecycle

open Lib Tx Table Domain Database Application Messaging Execution

variable {busy : Lock → Bool} {s s' : Store}

/-! ### Notes -/

/-- Every view is only noted. -/
def AllNoted (s s' : Store) : Prop := ∀ k, Noted (view s k) (view s' k)

theorem AllNoted.refl (s : Store) : AllNoted s s := fun _ => .refl

theorem AllNoted.trans {s1 : Store} (h : AllNoted s s1) (h' : AllNoted s1 s') : AllNoted s s' :=
  fun k => (h k).trans (h' k)

variable {id : Uuid} {x : EvaluationStatus}

theorem allNoted_evaluationStatus
    (h : Writes.apply (Write.updateRun id [.evaluationStatus x]) s = .ok s') : AllNoted s s' := by
  intro k
  rw [view_apply h k, onView]
  split
  · exact .single (.evaluationStatus _ x)
  · exact .refl

theorem allNoted_remark {e : RunEvent} (h : Writes.apply (Write.insertEvent e) s = .ok s')
    (he : isRemark e.eventType = true) : AllNoted s s' := by
  intro k
  obtain ⟨-, -, -, hrun⟩ := apply_insertEvent h
  rw [view_apply h k, onView]
  split
  · rename_i hk
    exact .single (.remark _ e (hk ▸ hrun) he)
  · exact .refl

theorem allNoted_delivery {sets : List OutboxSet}
    (h : Writes.apply (Write.updateOutbox id sets) s = .ok s') : AllNoted s s' := by
  intro k
  rw [view_apply h k]
  exact .single (.delivery _ id sets)

theorem allNoted_of_onView {w : Write} (h : Writes.apply w s = .ok s')
    (hw : ∀ k v, onView k w v = v) : AllNoted s s' := by
  intro k
  rw [view_apply h k, hw]

/-- Finishing an evaluation job leaves notes only. -/
theorem finalizeEvaluationJob_noted (c : Call) (run : Run) :
    Ensures busy (finalizeEvaluationJob c run) s fun _ s' => AllNoted s s' := by
  unfold finalizeEvaluationJob
  split
  · exact (ensures_done ()).mpr (AllNoted.refl s)
  · simp only [bind_eq, ensures_bind, ensures_read]
    split
    · simp
    · simp only [ensures_bind, ensures_acquire, ensures_exec, ensures_read, ensures_lockedRun]
      intro s1 h1
      have hn1 : AllNoted s s1 := allNoted_of_onView h1 fun _ _ => rfl
      split
      · simp only [ensures_bind, ensures_exec]
        intro s2 h2 s3 h3
        exact (hn1.trans (allNoted_evaluationStatus h2)).trans (allNoted_remark h3 rfl)
      · simp only [ensures_exec]
        intro s2 h2
        exact hn1.trans (allNoted_remark h2 rfl)

/-! ### Acceptance -/

variable {i : Input} {answer : Answer}

/-- Every run is affected as `Effect` allows. -/
def AllEffects (i : Input) (answer : Answer) (s s' : Store) : Prop :=
  ∀ k, Effect s i answer (view s k) (view s' k)

theorem AllNoted.effects (h : AllNoted s s') : AllEffects i answer s s' := fun k => .noted (h k)

theorem AllEffects.refl (s : Store) : AllEffects i answer s s := fun k => .refl (view s k)

theorem AllEffects.trans_noted {s1 : Store} (h : AllEffects i answer s s1) (h' : AllNoted s1 s') :
    AllEffects i answer s s' := fun k => (h k).trans_noted (h' k)

/-- Inserting a run, its outbox event and its first history entry creates it; what happens to
other runs in between are notes. -/
theorem created_effects {clientId principal key hash : String} {kind : WorkKind}
    {input policy payload : JsonObject} {source : Option Uuid} {event : RunEvent}
    {s1 s2 s3 s4 s5 : Store}
    (h1 : Writes.apply (Write.insertRun
      (newRun i.call clientId principal kind key hash input policy source)) s = .ok s1)
    (h2 : AllNoted s1 s2) (hself2 : view s2 i.call.runId = view s1 i.call.runId)
    (h3 : Writes.apply (Write.insertOutbox (queuedOutbox i.call i.call.runId payload)) s2 = .ok s3)
    (h4 : AllNoted s3 s4) (hself4 : view s4 i.call.runId = view s3 i.call.runId)
    (h5 : Writes.apply (Write.insertEvent event) s4 = .ok s5)
    (hrun : event.runId = i.call.runId)
    (hevent : event.eventType = .runQueued ∨ event.eventType = .runReplayQueued) :
    AllEffects i answer s s5 := by
  intro k
  by_cases hk : i.call.runId = k
  · subst hk
    have hfresh : s.runs.get? i.call.runId = none := by
      obtain ⟨t, hins, -⟩ := apply_insertRun h1
      exact get?_insert_fresh hins
    have hview : view s5 i.call.runId
        = (((view s i.call.runId).addRun
            (newRun i.call clientId principal kind key hash input policy source)).addOutbox
            (queuedOutbox i.call i.call.runId payload)).addEvent event := by
      rw [view_apply h5, hself4, view_apply h3, hself2, view_apply h1]
      simp only [onView, newRun, queuedOutbox, hrun, if_true]
    rw [hview]
    exact .step (.created hfresh hevent)
  · have hother : Noted (view s k) (view s5 k) := by
      have hk1 : view s1 k = view s k := by
        rw [view_apply h1]
        exact if_neg hk
      have hk3 : view s3 k = view s2 k := by
        rw [view_apply h3]
        exact if_neg hk
      have hk5 : view s5 k = view s4 k := by
        rw [view_apply h5]
        exact if_neg (hrun ▸ hk)
      rw [hk5, ← hk1]
      exact (h2 k).trans (hk3 ▸ h4 k)
    exact .noted hother

/-- A stored run is not the one an insertion creates. -/
theorem ne_of_inserted {r source : Run} (h : Writes.apply (Write.insertRun r) s = .ok s')
    (hsource : s.runs.get? id = some source) : id ≠ r.id := by
  intro hid
  obtain ⟨t, hins, -⟩ := apply_insertRun h
  have hfresh := get?_insert_fresh hins
  rw [Run.row_id, ← hid, hsource] at hfresh
  exact absurd hfresh (by simp)

section Acceptance

variable [Externals] {svc : RunService} {clientId key : String} {input policy : JsonObject}
  {principalId : Option String} {kind : WorkKind} {runId : Uuid}

theorem submit_effects :
    ∀ a s', (submit svc i.call clientId key input policy principalId kind).run i.busy s
      = .ok (a, s') → AllEffects i answer s s' := by
  intro a s' h
  cases submit_ok h with
  | found _ _ => exact AllEffects.refl s
  | @created s1 s2 s3 _ h1 h2 h3 h4 =>
    have hcreated : AllEffects i answer s s3 := created_effects h1 (AllNoted.refl s1) rfl h2
      (AllNoted.refl s2) rfl h3 rfl (.inl rfl)
    rcases h4 with rfl | ⟨_, h4⟩
    · exact hcreated
    · exact hcreated.trans_noted (allNoted_remark h4 rfl)

theorem evaluate_effects {rules : List JsonObject} :
    Ensures busy (evaluate svc i.call clientId runId rules principalId) s
      fun _ s' => AllEffects i answer s s' := by
  refine ensures_evaluate fun source s1 s2 s3 s4 s5 s6 hget _ h1 h2 h3 h4 h5 h6 => ?_
  have hne := ne_of_inserted h1 hget
  have hn2 : AllNoted s1 s2 := allNoted_evaluationStatus h2
  have hn3 : AllNoted s2 s3 := allNoted_of_onView h3 fun _ _ => rfl
  have hself : view s3 i.call.runId = view s1 i.call.runId := by
    rw [view_apply h3, view_apply h2]
    exact if_neg hne
  have hcreated : AllEffects i answer s s5 := created_effects h1 (hn2.trans hn3) hself h4
    (AllNoted.refl s4) rfl h5 rfl (.inl rfl)
  exact hcreated.trans_noted (allNoted_remark h6 rfl)

theorem replay_effects :
    ∀ a s', (replay svc i.call clientId runId key principalId).run i.busy s
      = .ok (a, s') → AllEffects i answer s s' := by
  intro a s' h
  cases replay_ok h with
  | found _ _ => exact AllEffects.refl s
  | @created source s1 s2 s3 _ hget hid h1 h2 h3 h4 =>
    have hself : view s3 i.call.runId = view s2 i.call.runId := by
      rw [view_apply h3]
      exact if_neg (ne_of_inserted h1 hget)
    exact created_effects h1 (AllNoted.refl s1) rfl h2 (allNoted_remark h3 rfl) hself h4 rfl
      (.inr rfl)

end Acceptance

/-! ### Claims -/

/-- One run is affected and every other one noted; `s0` is the store the operation began with. -/
def EffectAt (s0 : Store) (i : Input) (answer : Answer) (id : Uuid) (s s' : Store) : Prop :=
  Effect s0 i answer (view s id) (view s' id) ∧ ∀ k, k ≠ id → Noted (view s k) (view s' k)

/-- A step of one run, with notes on every run afterwards. -/
theorem effectAt_of_step {s0 s1 : Store} (id : Uuid)
    (hstep : RunStep s0 i answer (view s id) (view s1 id))
    (hother : ∀ k, k ≠ id → view s1 k = view s k) (hafter : AllNoted s1 s') :
    EffectAt s0 i answer id s s' := by
  refine ⟨(Effect.step hstep).trans_noted (hafter id), ?_⟩
  intro k hk
  rw [← hother k hk]
  exact hafter k

theorem EffectAt.effects (h : EffectAt s i answer id s s') : AllEffects i answer s s' := by
  intro k
  by_cases hk : k = id
  · exact hk ▸ h.1
  · exact .noted (h.2 k hk)

section Claims

variable {svc : ExecutionService} {workerId : String} {run : Run}

section Queued

variable (hop : i.op = .claim svc run.id workerId) (hrun : s.runs.get? run.id = some run)
  (hqueued : run.executionStatus = .queued)
include hop hrun hqueued

theorem deferRun_effects (hquota : runningQuotaFull svc.quotas s run) :
    Ensures busy (deferRun i.call run) s fun a s' => AllEffects i (.claim a) s s' := by
  simp only [deferRun, bind_eq, ensures_bind, ensures_ofExcept, ensures_exec, pure_eq, ensures_done]
  intro t ht s1 h1
  refine (effectAt_of_step run.id ?_ ?_ (AllNoted.refl s1)).effects
  · rw [view_apply h1, onView, if_pos rfl]
    exact .deferred hop rfl hrun hqueued hquota ht
  · intro k hk
    rw [view_apply h1]
    exact if_neg (Ne.symm hk)

theorem rejectRun_effects {message : String} (hquota : ¬ runningQuotaFull svc.quotas s run)
    (hpolicy : claimPolicy svc run (nextNumber (s.attemptsOf run.id))
      = .error (.valueError message)) :
    Ensures busy (rejectRun i.call run) s fun a s' => AllEffects i (.claim a) s s' := by
  simp only [rejectRun, bind_eq, ensures_bind, ensures_exec, pure_eq, ensures_done]
  intro s1 h1
  refine (finalizeEvaluationJob_noted _ _).mono ?_
  intro _ s2 h2
  refine (effectAt_of_step run.id ?_ ?_ h2).effects
  · rw [view_apply h1, onView, if_pos rfl]
    exact .rejected hop rfl hrun hqueued hquota hpolicy
  · intro k hk
    rw [view_apply h1]
    exact if_neg (Ne.symm hk)

theorem startAttempt_effects {policy : RetryPolicy} (hquota : ¬ runningQuotaFull svc.quotas s run)
    (hpolicy : claimPolicy svc run (nextNumber (s.attemptsOf run.id)) = .ok policy) :
    Ensures busy
      (startAttempt svc i.call run workerId (nextNumber (s.attemptsOf run.id)) policy) s
      fun a s' => AllEffects i (.claim a) s s' := by
  simp only [startAttempt, bind_eq, ensures_bind, ensures_ofExcept, ensures_exec,
    pure_eq, ensures_done]
  intro expires hlease s1 h1 s2 h2 s3 h3
  refine (effectAt_of_step run.id ?_ ?_ (AllNoted.refl s3)).effects
  · rw [view_apply h3, view_apply h2, view_apply h1]
    simp only [onView, newAttempt, newEvent, if_true]
    exact .started hop rfl rfl rfl hrun hqueued hquota hpolicy hlease
  · intro k hk
    rw [view_apply h3, view_apply h2, view_apply h1]
    simp only [onView, newAttempt, newEvent, if_neg (Ne.symm hk)]

end Queued

theorem claim_effects {runId : Uuid} (hop : i.op = .claim svc runId workerId) :
    Ensures busy (claim svc i.call runId workerId) s
      fun a s' => AllEffects i (.claim a) s s' := by
  cases hrun : s.runs.get? runId with
  | none => exact ensures_claim_missing hrun (AllEffects.refl s)
  | some run =>
    obtain rfl : run.id = runId := (mem_of_get? hrun).2
    exact ensures_claim hrun (fun _ _ => AllEffects.refl s)
      (fun hqueued hquota => deferRun_effects hop hrun hqueued hquota)
      (fun hqueued hquota policy hpolicy =>
        startAttempt_effects hop hrun hqueued hquota hpolicy)
      (fun hqueued hquota message hpolicy => rejectRun_effects hop hrun hqueued hquota hpolicy)

end Claims

/-! ### Completions -/

variable {r : Run}

section Completions

variable {runId attemptId : Uuid} {workerId : String}

theorem completeSuccess_effects {result : ExecutionResult}
    (hop : i.op = .completeSuccess runId attemptId workerId result) :
    Ensures busy (completeSuccess i.call runId attemptId workerId result) s
      fun a s' => AllEffects i (.completed a) s s' := by
  simp only [completeSuccess, bind_eq, ensures_bind]
  refine ensures_activeAttempt ((ensures_done _).mpr (AllEffects.refl s)) ?_
  intro run a hactive
  obtain ⟨rfl, rfl, hmem⟩ := hactive.ids
  simp only [ensures_bind, ensures_exec, pure_eq, ensures_done]
  intro s1 h1 s2 h2 s3 h3
  refine (finalizeEvaluationJob_noted _ _).mono ?_
  intro _ s4 h4
  refine (effectAt_of_step run.id ?_ ?_ h4).effects
  · rw [view_apply h3, view_apply h2, view_apply h1]
    simp only [onView, newEvent, if_true]
    exact .succeeded hop rfl hactive.run_eq hactive.lease
      (mem_select.mpr ⟨hmem, beq_iff_eq.mpr hactive.belongs⟩) hactive.isOpen
  · intro k hk
    rw [view_apply h3, view_apply h2, view_apply h1]
    simp only [onView, newEvent, if_neg (Ne.symm hk)]
    exact setAttempt_of_other hmem (hactive.belongs ▸ Ne.symm hk) _

/-- Settling a failed attempt takes one of the three failure steps. The row the service holds may
be older than the stored one by an evaluation status. -/
theorem scheduleRetryOrFinalize_effectAt (s0 : Store) {a : RunAttempt} {code : String}
    {recovery : Bool} (hrun : s.runs.get? r.id = some r) (hmem : a ∈ s.attempts.rows)
    (hbelongs : a.runId = r.id) (hfail : Failing i answer (view s r.id) r a code recovery) :
    Ensures busy
      (scheduleRetryOrFinalize i.call { r with evaluationStatus := x } a code recovery) s
      fun _ s' => EffectAt s0 i answer r.id s s' := by
  have hother : ∀ k, k ≠ r.id → ∀ sets, (view s k).setAttempt a.id sets = view s k :=
    fun k hk sets => setAttempt_of_other hmem (hbelongs ▸ Ne.symm hk) sets
  simp only [scheduleRetryOrFinalize, bind_eq, ensures_bind, ensures_ofExcept]
  intro policy hpolicy
  split
  · rename_i hretry
    simp only [ensures_bind, ensures_ofExcept, ensures_exec]
    intro delay hdelay t ht s1 h1 s2 h2 s3 h3
    refine effectAt_of_step r.id ?_ ?_ (AllNoted.refl s3)
    · rw [view_apply h3, view_apply h2, view_apply h1]
      simp only [onView, newEvent, if_true]
      exact .retried hfail hrun hpolicy hretry.1 hretry.2 hdelay ht
    · intro k hk
      rw [view_apply h3, view_apply h2, view_apply h1]
      simp only [onView, newEvent, if_neg (Ne.symm hk), hother k hk]
  · rename_i hbudget
    simp only [ensures_bind, ensures_exec]
    intro s1 h1
    split
    · rename_i hretry
      have hmax : policy.maxAttempts ≤ a.attemptNumber :=
        Nat.le_of_not_lt fun hlt => hbudget ⟨hretry, hlt⟩
      simp only [ensures_bind, ensures_exec]
      intro s2 h2 s3 h3 s4 h4
      refine (finalizeEvaluationJob_noted _ _).mono ?_
      intro _ s5 h5
      refine effectAt_of_step r.id ?_ ?_ h5
      · rw [view_apply h4, view_apply h3, view_apply h2, view_apply h1]
        simp only [onView, newEvent, deadLetterOutbox, if_true]
        exact .deadLettered hfail hrun hpolicy hretry hmax
      · intro k hk
        rw [view_apply h4, view_apply h3, view_apply h2, view_apply h1]
        simp only [onView, newEvent, deadLetterOutbox, if_neg (Ne.symm hk), hother k hk]
    · rename_i hretry
      simp only [ensures_bind, ensures_exec]
      intro s2 h2 s3 h3
      refine (finalizeEvaluationJob_noted _ _).mono ?_
      intro _ s4 h4
      refine effectAt_of_step r.id ?_ ?_ h4
      · rw [view_apply h3, view_apply h2, view_apply h1]
        simp only [onView, newEvent, if_true]
        exact .failed hfail hrun hpolicy (by simpa using hretry)
      · intro k hk
        rw [view_apply h3, view_apply h2, view_apply h1]
        simp only [onView, newEvent, if_neg (Ne.symm hk), hother k hk]

theorem completeFailure_effects {code : String}
    (hop : i.op = .completeFailure runId attemptId workerId code) :
    Ensures busy (completeFailure i.call runId attemptId workerId code) s
      fun a s' => AllEffects i (.completed a) s s' := by
  simp only [completeFailure, bind_eq, ensures_bind]
  refine ensures_activeAttempt ((ensures_done _).mpr (AllEffects.refl s)) ?_
  intro run a hactive
  obtain ⟨rfl, rfl, hmem⟩ := hactive.ids
  simp only [ensures_bind, pure_eq, ensures_done]
  have hfail : Failing i (.completed true) (view s run.id) run a code false :=
    .worker hop rfl hactive.lease
      (mem_select.mpr ⟨hmem, beq_iff_eq.mpr hactive.belongs⟩) hactive.isOpen
  refine (scheduleRetryOrFinalize_effectAt s (x := run.evaluationStatus) hactive.run_eq hmem
    hactive.belongs hfail).mono ?_
  intro _ s' h
  exact h.effects

end Completions

/-! ### Batches -/

/-- Notes change nothing of the row but its evaluation status. -/
theorem Noted.run_eq {v v' : RunView} (h : Noted v v') (hrun : v.run = some r) :
    ∃ x, v'.run = some { r with evaluationStatus := x } := by
  induction h with
  | refl => exact ⟨r.evaluationStatus, hrun⟩
  | tail _ hnote ih =>
    obtain ⟨x, hx⟩ := ih
    cases hnote with
    | evaluationStatus y => exact ⟨y, by rw [RunView.setRun_run, hx]; rfl⟩
    | remark e hsome he => exact ⟨x, hx⟩
    | delivery id sets => exact ⟨x, hx⟩

/-- Half way through a batch: the runs in `done` are affected and all others noted. -/
abbrev BatchState (s0 : Store) (i : Input) (answer : Answer) (runs done rest : List Run)
    (s : Store) : Prop :=
  LoopState Run.id view Noted (fun _ => Effect s0 i answer) s0 runs done rest s

variable {s0 : Store}

theorem noted_absorbs :
    Absorbs Noted (fun _ : Uuid => Effect s0 i answer) where
  refl := fun _ => .refl
  trans := fun h h' => h.trans h'
  before := fun h h' => Effect.noted_trans h h'
  after := fun h h' => h.trans_noted h'

section Batches

variable {clause : Run → Bool} {runs : List Run}

/-- **Batches.** A loop over a batch affects every run at most once, if its body affects only the
run it is given; and what the body ensures of that run holds of all of them, if notes keep it. -/
theorem batch_effects {f : Run → DbTx Unit} {Q : Run → RunView → Prop}
    (hstable : ∀ r v v', Noted v v' → Q r v → Q r v') (hbatch : Batch s clause runs)
    (hbody : ∀ r ∈ runs, ∀ s1, Noted (view s r.id) (view s1 r.id) →
      Ensures busy (f r) s1 fun _ s2 =>
        EffectAt s i answer r.id s1 s2 ∧ Q r (view s2 r.id)) :
    Ensures busy (forEach runs f) s
      fun _ s' => AllEffects i answer s s' ∧ ∀ r ∈ runs, Q r (view s' r.id) := by
  have hN : Absorbs Noted fun k v v' =>
      Effect s i answer v v' ∧ ∀ r ∈ runs, r.id = k → Q r v' :=
    ⟨fun _ => .refl, fun h h' => h.trans h',
      fun h h' => ⟨Effect.noted_trans h h'.1, h'.2⟩,
      fun h h' => ⟨h.1.trans_noted h', fun r hr hid => hstable r _ _ h' (h.2 r hr hid)⟩⟩
  refine (Ensures.forEach_views (V := view) hN hbatch.nodup ?_).mono ?_
  · intro r hr s1 hnoted
    refine (hbody r hr s1 hnoted).mono ?_
    rintro _ s2 ⟨heffect, hQ⟩
    refine ⟨⟨heffect.1, ?_⟩, heffect.2⟩
    intro x hx hid
    have heq : x = r := List.inj_on_of_nodup_map hbatch.nodup hx hr hid
    exact heq ▸ hQ
  · intro _ s' hstate
    constructor
    · intro k
      by_cases hk : k ∈ runs.map Run.id
      · exact (hstate.handled k hk).1
      · exact .noted (hstate.untouched k hk)
    · intro r hr
      exact (hstate.handled r.id (List.mem_map_of_mem hr)).2 r hr rfl

end Batches

theorem EffectAt.refl (id : Uuid) (s : Store) : EffectAt s0 i answer id s s :=
  ⟨.refl _, fun _ _ => .refl⟩

variable {batchSize : ℕ}

/-- Recovering one run of the batch affects it, and only it. -/
theorem recoverRun_effectAt (hop : i.op = .recoverExpiredLeases batchSize)
    (hexpired : leaseExpired i.call.now r = true) (hrun : s0.runs.get? r.id = some r)
    (hnoted : Noted (view s0 r.id) (view s r.id)) :
    Ensures busy (recoverRun i.call r) s fun _ s' => EffectAt s0 i answer r.id s s' := by
  obtain ⟨x, hx⟩ := hnoted.run_eq hrun
  simp only [recoverRun, bind_eq, ensures_bind, ensures_latestOpenAttempt]
  split
  · exact (ensures_done _).mpr (EffectAt.refl r.id s)
  · rename_i a ha
    obtain ⟨hmem, -⟩ := latestOpen_eq_some ha
    obtain ⟨hrow, hbelongs⟩ := mem_select.mp hmem
    exact scheduleRetryOrFinalize_effectAt _ (r := { r with evaluationStatus := x })
      (x := r.evaluationStatus) hx hrow (beq_iff_eq.mp hbelongs) (.recovery hop hexpired ha)

theorem recoverExpiredLeases_effects (hop : i.op = .recoverExpiredLeases batchSize) :
    Ensures busy (recoverExpiredLeases i.call batchSize) s
      fun _ s' => AllEffects i answer s s' := by
  simp only [recoverExpiredLeases, bind_eq, ensures_bind, pure_eq, ensures_done]
  refine lockBatch_batch.mono ?_
  rintro runs _ ⟨rfl, hbatch⟩
  refine (batch_effects (Q := fun _ _ => True) (fun _ _ _ _ h => h) hbatch ?_).mono fun _ _ h => h.1
  intro r hr s1 hnoted
  exact (recoverRun_effectAt hop (hbatch.selected r hr) (hbatch.stored r hr) hnoted).mono
    fun _ _ h => ⟨h, trivial⟩

/-- Queueing one run of the batch affects it, and only it. -/
theorem requeueRun_effectAt (hop : i.op = .scheduleDueRetries batchSize)
    (hdue : retryDue i.call.now r = true)
    (hrun : s.runs.get? r.id = some { r with evaluationStatus := x }) :
    Ensures busy (requeueRun i.call r) s fun _ s' => EffectAt s0 i answer r.id s s' := by
  simp only [requeueRun, bind_eq, ensures_bind, ensures_exec]
  intro s2 h2 s3 h3 s4 h4
  refine effectAt_of_step r.id ?_ ?_ (AllNoted.refl s4)
  · rw [view_apply h4, view_apply h3, view_apply h2]
    simp only [onView, newEvent, queuedOutbox, if_true]
    exact .requeued (r := { r with evaluationStatus := x }) hop hrun hdue
  · intro k hk
    rw [view_apply h4, view_apply h3, view_apply h2]
    simp only [onView, newEvent, queuedOutbox, if_neg (Ne.symm hk)]

theorem scheduleDueRetries_effects (hop : i.op = .scheduleDueRetries batchSize) :
    Ensures busy (scheduleDueRetries i.call batchSize) s
      fun _ s' => AllEffects i answer s s' := by
  simp only [scheduleDueRetries, bind_eq, ensures_bind, pure_eq, ensures_done]
  refine lockBatch_batch.mono ?_
  rintro runs _ ⟨rfl, hbatch⟩
  refine (batch_effects (Q := fun _ _ => True) (fun _ _ _ _ h => h) hbatch ?_).mono fun _ _ h => h.1
  intro r hr s1 hnoted
  obtain ⟨x, hrun⟩ := hnoted.run_eq (hbatch.stored r hr)
  exact (requeueRun_effectAt hop (hbatch.selected r hr) hrun).mono fun _ _ h => ⟨h, trivial⟩

/-! ### Charges and dispatches -/

theorem chargeAttempt_noted (limits : QuotaLimits) (c : Call) (runId attemptId : Uuid)
    (workerId : String) :
    Ensures busy (chargeAttempt limits c runId attemptId workerId) s
      fun _ s' => AllNoted s s' := by
  refine (chargeAttempt_charges limits c runId attemptId workerId).preserves
    (P := fun s' => AllNoted s s') ?_ s (AllNoted.refl s)
  intro w s1 s2 hw happly hnoted
  refine hnoted.trans (allNoted_of_onView happly ?_)
  intro k v
  cases w with
  | insertQuota q => rfl
  | updateQuota scope windowStart used => rfl
  | _ => exact hw.elim

theorem recordOutcome_noted (c : Call) (event : OutboxEvent) (outcome : Except String Unit) :
    Ensures busy (recordOutcome c event outcome) s fun _ s' => AllNoted s s' := by
  unfold recordOutcome recordPublished recordPublishFailed
  split
  all_goals
    simp only [bind_eq, ensures_bind, ensures_exec, pure_eq, ensures_done]
    intro s1 h1 s2 h2
    exact (allNoted_delivery h1).trans (allNoted_remark h2 rfl)

theorem dispatchOne_noted (c : Call) (publish : OutboxEvent → Except String Unit) :
    Ensures busy (dispatchOne c publish) s fun _ s' => AllNoted s s' := by
  simp only [dispatchOne, lockUnpublished, bind_eq, ensures_bind, ensures_acquireFree, ensures_read]
  split
  · exact (ensures_done _).mpr (AllNoted.refl s)
  · exact recordOutcome_noted _ _ _

/-! ### All operations -/

/-- **Simulation.** Whatever an operation commits, its effect on every run is notes with at most
one step among them. -/
theorem run_effects [Externals] (h : i.run s = .ok (answer, s')) : AllEffects i answer s s' := by
  have hmap {α : Type} {x : Except PyError (α × Store)} {f : α → Answer}
      (h : (x.map fun p => (f p.1, p.2)) = .ok (answer, s')) :=
    of_map_ok (R := (AllEffects i · s ·)) h
  unfold Input.run at h
  split at h
  case h_1 => exact hmap (f := fun a => .run a.1 a.2) h fun _ _ hrun => submit_effects _ _ hrun
  case h_2 => exact hmap (f := fun a => .run a.1 a.2) h fun _ _ hrun => submit_effects _ _ hrun
  case h_3 => exact hmap h fun _ _ hrun => evaluate_effects _ _ hrun
  case h_4 => exact hmap (f := fun a => .run a.1 a.2) h fun _ _ hrun => replay_effects _ _ hrun
  case h_5 hop => exact hmap h (claim_effects hop)
  case h_6 hop => exact hmap h (completeSuccess_effects hop)
  case h_7 hop => exact hmap h (completeFailure_effects hop)
  case h_8 hop => exact hmap h fun _ _ hrun => recoverExpiredLeases_effects hop _ _ hrun
  case h_9 hop => exact hmap h fun _ _ hrun => scheduleDueRetries_effects hop _ _ hrun
  case h_10 =>
    exact hmap (f := fun _ => .unit) h fun _ _ hrun =>
      (chargeAttempt_noted _ _ _ _ _ _ _ hrun).effects
  case h_11 => exact hmap h fun _ _ hrun => (dispatchOne_noted _ _ _ _ hrun).effects

/-! ### Induction rules -/

/-- What notes and steps keep, an effect keeps. -/
theorem Effect.preserves {P : RunView → Prop} {v v' : RunView} (h : Effect s i answer v v')
    (hnote : ∀ v v', P v → Note v v' → P v')
    (hstep : ∀ v v', P v → RunStep s i answer v v' → P v') (hv : P v) : P v' := by
  have hnoted : ∀ v v', Noted v v' → P v → P v' := by
    intro v v' hn hv
    induction hn with
    | refl => exact hv
    | tail _ hlast ih => exact hnote _ _ ih hlast
  cases h with
  | noted h => exact hnoted _ _ h hv
  | stepped hbefore hmid hafter =>
    exact hnoted _ _ hafter (hstep _ _ (hnoted _ _ hbefore hv) hmid)

/-- One step of the service affects every run, or raises and changes nothing. -/
theorem service_step_effects [Externals] (s : Store) (i : Input) :
    (∃ answer, (service.step s i).1 = .ok answer ∧ AllEffects i answer s (service.step s i).2)
      ∨ ∃ e, (service.step s i).1 = .error e ∧ (service.step s i).2 = s := by
  rcases service_step_cases s i with ⟨answer, s', hrun, hstep⟩ | ⟨e, -, hstep⟩
  · refine .inl ⟨answer, ?_⟩
    rw [hstep]
    exact ⟨rfl, run_effects hrun⟩
  · refine .inr ⟨e, ?_⟩
    rw [hstep]
    exact ⟨rfl, rfl⟩

/-- **Invariants of runs.** What holds of a run that does not exist and survives every note and
every step holds of every run in every reachable store. -/
theorem reachable_views [Externals] {P : RunView → Prop} (hinit : P RunView.empty)
    (hnote : ∀ v v', P v → Note v v' → P v')
    (hstep : ∀ s i answer v v', P v → RunStep s i answer v v' → P v') {s : Store}
    (h : service.Reachable s) (k : Uuid) : P (view s k) := by
  refine service.reachable_induction (P := fun s => ∀ k, P (view s k)) (fun _ => hinit) ?_ h k
  intro s i ih k
  rcases service_step_effects s i with ⟨answer, -, heffects⟩ | ⟨e, -, hsame⟩
  · exact (heffects k).preserves hnote (hstep s i answer) (ih k)
  · rw [hsame]
    exact ih k

end AgentRuntime.Lifecycle
