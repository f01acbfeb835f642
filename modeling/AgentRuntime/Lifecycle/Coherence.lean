import AgentRuntime.Lifecycle.Attempts

/-!
# The columns of a run agree with its status

Which columns are set follows from the status alone, and the attempts of a run are numbered from
one without gaps, with at most the last one open. `Coherent` bundles these facts; it survives
every note and every step, so it holds of every run in every reachable store.

* `Coherent.step`: one step keeps a run coherent, one case per step;
* `reachable_coherent`: every run of every reachable store is coherent;
* `run_records_coherent`: the same together with the origin of every attempt in a claim.
-/

namespace AgentRuntime.Lifecycle

open Lib Domain Database Application

/-- The columns of the row agree with its status. -/
structure CoherentRow (r : Run) : Prop where
  owner : r.executionLeaseOwner.isSome ↔ r.executionStatus = .running
  expiry : r.executionLeaseExpiresAt.isSome ↔ r.executionStatus = .running
  next : r.nextAttemptAt.isSome ↔ r.executionStatus = .retryScheduled
  completed : r.completedAt.isSome ↔ isTerminalExecutionStatus r.executionStatus = true
  result : r.resultPayload.isSome ↔ r.executionStatus = .succeeded
  error_of_failed : r.executionStatus = .failed ∨ r.executionStatus = .deadLettered →
    r.errorCode.isSome
  error_of_succeeded : r.executionStatus = .succeeded → r.errorCode = none

namespace CoherentRow

variable {r : Run}

/-- A run that waits holds no lease and has neither ended nor produced anything. -/
theorem of_waiting (h : CoherentRow r)
    (hs : r.executionStatus = .queued ∨ r.executionStatus = .retryScheduled) :
    r.executionLeaseOwner = none ∧ r.executionLeaseExpiresAt = none ∧ r.completedAt = none
      ∧ r.resultPayload = none := by
  simp only [← Option.not_isSome_iff_eq_none, h.owner, h.expiry, h.completed, h.result,
    isTerminal_iff]
  rcases hs with hs | hs <;> simp [hs]

/-- A running run has no retry scheduled and has neither ended nor produced anything. -/
theorem of_running (h : CoherentRow r) (hs : r.executionStatus = .running) :
    r.nextAttemptAt = none ∧ r.completedAt = none ∧ r.resultPayload = none := by
  simp only [← Option.not_isSome_iff_eq_none, h.next, h.completed, h.result, isTerminal_iff]
  simp [hs]

/-- A queued run has no retry scheduled. -/
theorem of_queued (h : CoherentRow r) (hs : r.executionStatus = .queued) :
    r.nextAttemptAt = none := by
  rw [← Option.not_isSome_iff_eq_none, h.next, hs]
  simp

end CoherentRow

/-- The row and the attempts of a run agree with each other. -/
structure Coherent (r : Run) (attempts : List RunAttempt) : Prop extends CoherentRow r where
  numbered : attempts.map RunAttempt.attemptNumber = List.range' 1 attempts.length
  open_iff : ∀ a ∈ attempts, a.finishedAt = none ↔
    a.attemptNumber = attempts.length ∧ r.executionStatus = .running
  attempted : r.executionStatus = .running → attempts ≠ []
  budget : attempts ≠ [] → ∃ policy, RetryPolicy.fromSnapshot r.policySnapshot = .ok policy
    ∧ attempts.length ≤ policy.maxAttempts

/-- A view is coherent: the run is, and a run that does not exist has no attempts. -/
def CoherentView (v : RunView) : Prop :=
  (∀ r, v.run = some r → Coherent r v.attempts) ∧ (v.run = none → v.attempts = [])

/-! ### Attempts -/

theorem foldr_max_range' {n m : ℕ} (h : n ≤ m) : (List.range' 1 n).foldr max m = m := by
  induction n generalizing m with
  | zero => rfl
  | succ n ih =>
    rw [List.range'_1_concat, List.foldr_append, List.foldr_cons, List.foldr_nil,
      Nat.add_comm 1 n, Nat.max_eq_right h]
    exact ih (Nat.le_of_succ_le h)

theorem nextNumber_of_numbered {attempts : List RunAttempt}
    (h : attempts.map RunAttempt.attemptNumber = List.range' 1 attempts.length) :
    nextNumber attempts = attempts.length + 1 := by
  have hmax : ∀ n, (List.range' 1 n).foldr max 0 = n := by
    intro n
    cases n with
    | zero => rfl
    | succ n =>
      rw [List.range'_1_concat, List.foldr_append, List.foldr_cons, List.foldr_nil,
        Nat.max_eq_left (Nat.zero_le _), Nat.add_comm 1 n]
      exact foldr_max_range' (Nat.le_succ n)
  unfold nextNumber
  rw [h, hmax]

section Attempts

variable {r : Run} {attempts : List RunAttempt} {a b : RunAttempt}

theorem Coherent.eq_of_number (h : Coherent r attempts) (ha : a ∈ attempts) (hb : b ∈ attempts)
    (hn : a.attemptNumber = b.attemptNumber) : a = b := by
  have hnodup : (attempts.map RunAttempt.attemptNumber).Nodup := by
    rw [h.numbered]
    exact List.nodup_range'
  exact List.inj_on_of_nodup_map hnodup ha hb hn

/-- The open attempt is unique. -/
theorem Coherent.eq_of_open (h : Coherent r attempts) (ha : a ∈ attempts) (hb : b ∈ attempts)
    (hopen : a.finishedAt = none) (hopen' : b.finishedAt = none) : a = b :=
  h.eq_of_number ha hb
    (((h.open_iff a ha).mp hopen).1.trans ((h.open_iff b hb).mp hopen').1.symm)

variable {sets : List AttemptSet}

/-- Every attempt is closed once the open one has been finished. -/
theorem Coherent.closed_after (h : Coherent r attempts) (ha : a ∈ attempts)
    (hopen : a.finishedAt = none)
    (hfinish : ∀ b, (assignAll AttemptSet.assign sets b).finishedAt ≠ none) :
    ∀ b ∈ attempts.map (fun b => if b.id = a.id then assignAll AttemptSet.assign sets b else b),
      b.finishedAt ≠ none := by
  intro c hc
  obtain ⟨b, hb, rfl⟩ := List.mem_map.mp hc
  split
  · exact hfinish b
  · rename_i hid
    intro hopen'
    exact hid (congrArg RunAttempt.id (h.eq_of_open hb ha hopen' hopen))

theorem attemptNumber_assign (c : AttemptSet) (a : RunAttempt) :
    (c.assign a).attemptNumber = a.attemptNumber := by
  cases c <;> rfl

theorem map_attemptNumber_set (id : Uuid) (sets : List AttemptSet) :
    (attempts.map fun b => if b.id = id then assignAll AttemptSet.assign sets b else b).map
      RunAttempt.attemptNumber = attempts.map RunAttempt.attemptNumber := by
  rw [List.map_map]
  refine List.map_congr_left ?_
  intro b _
  simp only [Function.comp_apply]
  split
  · exact assignAll_keeps attemptNumber_assign sets b
  · rfl

/-- Finishing the open attempt of a running run keeps the records coherent, whatever the columns
of the row become, as long as they agree with a status other than running. -/
theorem Coherent.finish (h : Coherent r attempts) (ha : a ∈ attempts)
    (hopen : a.finishedAt = none)
    (hfinish : ∀ b, (assignAll AttemptSet.assign sets b).finishedAt ≠ none) {r' : Run}
    (hrow : CoherentRow r') (hpolicy : accepted r' = accepted r)
    (hstatus : r'.executionStatus ≠ .running) :
    Coherent r'
      (attempts.map fun b => if b.id = a.id then assignAll AttemptSet.assign sets b else b) where
  toCoherentRow := hrow
  numbered := by
    rw [map_attemptNumber_set, List.length_map]
    exact h.numbered
  open_iff := by
    intro b hb
    have hclosed := h.closed_after ha hopen hfinish b hb
    exact ⟨fun hnone => absurd hnone hclosed, fun hrun => absurd hrun.2 hstatus⟩
  attempted := fun hrun => absurd hrun hstatus
  budget := by
    intro _
    rw [show r'.policySnapshot = r.policySnapshot from congrArg Accepted.policySnapshot hpolicy,
      List.length_map]
    exact h.budget (List.ne_nil_of_mem ha)

end Attempts

/-! ### Steps -/

variable {s : Store} {i : Input} {answer : Answer} {v v' : RunView}

variable {r : Run} {a : RunAttempt}

theorem Failing.mem_open {code : String} {recovery : Bool}
    (h : Failing i answer v r a code recovery) : a ∈ v.attempts ∧ a.finishedAt = none := by
  cases h with
  | worker _ _ _ hmem hopen => exact ⟨hmem, hopen⟩
  | recovery _ _ hlatest => exact latestOpen_eq_some hlatest

theorem CoherentView.note (h : CoherentView v) (hnote : Note v v') : CoherentView v' := by
  cases hnote with
  | evaluationStatus x =>
    refine ⟨?_, fun hnone => h.2 (Option.map_eq_none_iff.mp hnone)⟩
    intro r' hr'
    obtain ⟨r, hr, rfl⟩ := Option.map_eq_some_iff.mp hr'
    obtain ⟨⟨h1, h2, h3, h4, h5, h6, h7⟩, h8, h9, h10, h11⟩ := h.1 r hr
    exact ⟨⟨h1, h2, h3, h4, h5, h6, h7⟩, h8, h9, h10, h11⟩
  | remark e hrun he => exact h
  | delivery id sets => exact h

/-- A step that finishes the open attempt and assigns columns of the run. -/
theorem CoherentView.finish {sets : List RunSet} {asets : List AttemptSet} (h : CoherentView v)
    (hrun : v.run = some r) (hmem : a ∈ v.attempts) (hopen : a.finishedAt = none)
    (hfinish : ∀ b, (assignAll AttemptSet.assign asets b).finishedAt ≠ none)
    (hrow : CoherentRow (assignAll RunSet.assign sets r))
    (hstatus : (assignAll RunSet.assign sets r).executionStatus ≠ .running) :
    CoherentView ((v.setAttempt a.id asets).setRun sets) := by
  refine ⟨?_, ?_⟩
  · intro r' hr'
    rw [RunView.setRun_run, RunView.setAttempt_run, hrun, Option.map_some] at hr'
    rw [← Option.some.inj hr']
    exact (h.1 r hrun).finish hmem hopen hfinish hrow (accepted_assignAll sets r) hstatus
  · intro hnone
    rw [RunView.setRun_run, RunView.setAttempt_run, hrun] at hnone
    exact absurd hnone (by simp)

/-- A step that only assigns columns of a run without an open attempt. -/
theorem CoherentView.assign {sets : List RunSet} (h : CoherentView v) (hrun : v.run = some r)
    (hbefore : r.executionStatus ≠ .running) (hrow : CoherentRow (assignAll RunSet.assign sets r))
    (hstatus : (assignAll RunSet.assign sets r).executionStatus ≠ .running) :
    CoherentView (v.setRun sets) := by
  have hc := h.1 r hrun
  refine ⟨?_, ?_⟩
  · intro r' hr'
    rw [RunView.setRun_run, hrun, Option.map_some] at hr'
    rw [← Option.some.inj hr']
    refine ⟨hrow, hc.numbered, ?_, fun hrunning => absurd hrunning hstatus, ?_⟩
    · intro a ha
      refine ⟨fun hopen => absurd ((hc.open_iff a ha).mp hopen).2 hbefore, ?_⟩
      exact fun hopen => absurd hopen.2 hstatus
    · rw [show (assignAll RunSet.assign sets r).policySnapshot = r.policySnapshot from
        congrArg Accepted.policySnapshot (accepted_assignAll sets r)]
      exact hc.budget
  · intro hnone
    rw [RunView.setRun_run, hrun] at hnone
    exact absurd hnone (by simp)

theorem newRun_coherent (c : Call) (clientId principal : String) (kind : WorkKind)
    (key hash : String) (input policy : JsonObject) (source : Option Uuid) :
    Coherent (newRun c clientId principal kind key hash input policy source) [] where
  owner := by simp [newRun]
  expiry := by simp [newRun]
  next := by simp [newRun]
  completed := by simp [newRun, isTerminal_iff]
  result := by simp [newRun]
  error_of_failed := by simp [newRun]
  error_of_succeeded := by simp [newRun]
  numbered := rfl
  open_iff := by simp
  attempted := by simp [newRun]
  budget := fun hne => absurd rfl hne

variable {svc : ExecutionService} {n : ℕ} {policy : RetryPolicy}

theorem claimPolicy_ok (h : claimPolicy svc r n = .ok policy) :
    RetryPolicy.fromSnapshot r.policySnapshot = .ok policy ∧ n ≤ policy.maxAttempts
      ∧ (n : ℤ) ≤ svc.maxAttempts := by
  obtain ⟨p, hparse, hbudget⟩ := Tx.bind_eq_ok.mp h
  split at hbudget
  · exact absurd hbudget (by simp)
  · rename_i hle
    cases hbudget
    refine ⟨hparse, ?_, ?_⟩ <;> omega

/-- Starting an attempt keeps the records coherent. -/
theorem CoherentView.start {workerId : String} {expires : Timestamp} (h : CoherentView v)
    (hrun : v.run = some r) (hqueued : r.executionStatus = .queued)
    (hn : n = nextNumber v.attempts) (hpolicy : claimPolicy svc r n = .ok policy)
    (hnumber : a.attemptNumber = n) (hopen : a.finishedAt = none) :
    CoherentView ((v.setRun (startSets i.call r workerId expires)).addAttempt a) := by
  have hc := h.1 r hrun
  rw [nextNumber_of_numbered hc.numbered] at hn
  obtain ⟨hparse, hmax, -⟩ := claimPolicy_ok hpolicy
  have hnot : r.executionStatus ≠ .running := by simp [hqueued]
  refine ⟨?_, ?_⟩
  · intro r' hr'
    rw [RunView.addAttempt_run, RunView.setRun_run, hrun, Option.map_some, assign_startSets] at hr'
    cases hr'
    refine ⟨?_, ?_, ?_, ?_, ?_⟩
    · obtain ⟨-, -, hcompleted, hresult⟩ := hc.of_waiting (.inl hqueued)
      constructor <;> simp [hc.of_queued hqueued, hcompleted, hresult, isTerminal_iff]
    · simp only [RunView.addAttempt_attempts, RunView.setRun_attempts, List.map_append,
        List.map_cons, List.map_nil, List.length_append, List.length_cons, List.length_nil,
        hc.numbered, hnumber, hn, List.range'_1_concat, Nat.add_comm 1]
    · intro b hb
      simp only [RunView.addAttempt_attempts, RunView.setRun_attempts, List.mem_append,
        List.mem_singleton, List.length_append, List.length_cons, List.length_nil] at hb ⊢
      rcases hb with hb | rfl
      · have hclosed : b.finishedAt ≠ none :=
          fun hnone => hnot ((hc.open_iff b hb).mp hnone).2
        have hle : b.attemptNumber ≤ v.attempts.length := by
          have hmem : b.attemptNumber ∈ v.attempts.map RunAttempt.attemptNumber :=
            List.mem_map_of_mem hb
          rw [hc.numbered, List.mem_range'_1] at hmem
          omega
        refine ⟨fun hnone => absurd hnone hclosed, ?_⟩
        rintro ⟨hlast, -⟩
        omega
      · exact ⟨fun _ => ⟨by rw [hnumber, hn], trivial⟩, fun _ => hopen⟩
    · simp
    · intro _
      refine ⟨policy, hparse, ?_⟩
      simp only [RunView.addAttempt_attempts, RunView.setRun_attempts, List.length_append,
        List.length_cons, List.length_nil]
      omega
  · intro hnone
    rw [RunView.addAttempt_run, RunView.setRun_run, hrun] at hnone
    exact absurd hnone (by simp)

/-- **One step keeps the records coherent.** -/
theorem CoherentView.step (h : CoherentView v) (hstep : RunStep s i answer v v') :
    CoherentView v' := by
  cases hstep with
  | created hnone hevent =>
    refine ⟨?_, fun habs => absurd habs (by simp)⟩
    rintro r' hr'
    cases hr'
    simp only [RunView.addEvent_attempts, RunView.addOutbox_attempts, RunView.addRun_attempts,
      h.2 hnone]
    exact newRun_coherent _ _ _ _ _ _ _ _ _
  | @started r svc workerId policy expires work hop hanswer hattempt hprovider hrun hqueued hquota
      hpolicy hlease =>
      exact h.start hrun hqueued rfl hpolicy rfl rfl
  | @deferred r svc workerId t hop hanswer hrun hqueued hquota htime =>
    refine h.assign hrun (by simp [hqueued]) ?_ (by simp)
    obtain ⟨howner, hexpiry, hcompleted, hresult⟩ := (h.1 r hrun).of_waiting (.inl hqueued)
    rw [assign_deferSets]
    constructor <;> simp [howner, hexpiry, hcompleted, hresult, isTerminal_iff]
  | @rejected r svc workerId message hop hanswer hrun hqueued hquota hpolicy =>
    refine h.assign hrun (by simp [hqueued]) ?_ (by simp)
    obtain ⟨howner, hexpiry, hcompleted, hresult⟩ := (h.1 r hrun).of_waiting (.inl hqueued)
    have hnext := (h.1 r hrun).of_queued hqueued
    rw [assign_rejectSets]
    constructor <;> simp [howner, hexpiry, hnext, hresult, isTerminal_iff]
  | @succeeded r a workerId result hop hanswer hrun hlease hmem hopen =>
    refine h.finish hrun hmem hopen (fun b => by simp) ?_ (by simp)
    rw [assign_succeedSets]
    constructor <;> simp [isTerminal_iff]
  | @retried r a code recovery policy delay t hfail hrun hpolicy hretry hbudget hdelay htime =>
    obtain ⟨hmem, hopen⟩ := hfail.mem_open
    refine h.finish hrun hmem hopen (fun b => by simp) ?_ (by simp)
    obtain ⟨-, hcompleted, hresult⟩ := (h.1 r hrun).of_running hfail.running
    rw [assign_retrySets]
    constructor <;> simp [hcompleted, hresult, isTerminal_iff]
  | @deadLettered r a code recovery policy hfail hrun hpolicy hretry hbudget =>
    obtain ⟨hmem, hopen⟩ := hfail.mem_open
    refine h.finish hrun hmem hopen (fun b => by simp) ?_ (by simp)
    obtain ⟨-, -, hresult⟩ := (h.1 r hrun).of_running hfail.running
    rw [assign_endSets]
    constructor <;> simp [hresult, isTerminal_iff]
  | @failed r a code recovery policy hfail hrun hpolicy hretry =>
    obtain ⟨hmem, hopen⟩ := hfail.mem_open
    refine h.finish hrun hmem hopen (fun b => by simp) ?_ (by simp)
    obtain ⟨-, -, hresult⟩ := (h.1 r hrun).of_running hfail.running
    rw [assign_endSets]
    constructor <;> simp [hresult, isTerminal_iff]
  | @requeued r batchSize hop hrun hdue =>
    have hscheduled := retryDue_scheduled hdue
    refine h.assign hrun (by simp [hscheduled]) ?_ (by simp)
    obtain ⟨howner, hexpiry, hcompleted, hresult⟩ := (h.1 r hrun).of_waiting (.inr hscheduled)
    rw [assign_requeueSets]
    constructor <;> simp [howner, hexpiry, hcompleted, hresult, isTerminal_iff]

/-! ### Reachable stores -/

/-- **Every run of every reachable store is coherent.** -/
theorem reachable_coherentView [Externals] {s : Store} (h : service.Reachable s) (k : Uuid) :
    CoherentView (view s k) := by
  refine reachable_views ⟨fun r hr => absurd hr (by simp [RunView.empty]), fun _ => rfl⟩
    (fun v v' hv hnote => hv.note hnote) (fun s i answer v v' hv hstep => hv.step hstep) h k

theorem reachable_coherent [Externals] {s : Store} (h : service.Reachable s) {k : Uuid}
    (hr : s.runs.get? k = some r) : Coherent r (s.attemptsOf k) :=
  (reachable_coherentView h k).1 r hr

/-! ### Where attempts come from -/

/-- Entry `e` of a history is the claim that started attempt `a` of run `r`: the service allowed
the number, the stored policy allowed it, and the row was inserted with the provider the policy
names for it. -/
structure StartedBy (e : Entry Store Input (Except PyError Answer)) (r : Run) (a : RunAttempt)
    (svc : ExecutionService) (policy : RetryPolicy) (work : ClaimedWork) : Prop where
  claim : ∃ workerId, e.input.op = .claim svc r.id workerId
  claimed : e.output = .ok (.claim ⟨.claimed, r.id, some work⟩)
  attempt : work.attemptId = a.id
  inserted : ∃ b ∈ e.after.attempts.rows, b.id = a.id ∧ b.attemptNumber = a.attemptNumber
    ∧ b.provider = work.provider
  stored : RetryPolicy.fromSnapshot r.policySnapshot = .ok policy
  within_policy : a.attemptNumber ≤ policy.maxAttempts
  within_cap : (a.attemptNumber : ℤ) ≤ svc.maxAttempts
  provider : policy.providerOrder[min (a.attemptNumber - 1) (policy.providerOrder.length - 1)]?
    = some work.provider

variable {e : Entry Store Input (Except PyError Answer)}

theorem StartedBy.congr {r r' : Run} {a a' : RunAttempt} {work : ClaimedWork}
    (h : StartedBy e r a svc policy work) (hr : accepted r' = accepted r) (hid : a'.id = a.id)
    (hn : a'.attemptNumber = a.attemptNumber) : StartedBy e r' a' svc policy work := by
  have hrid : r'.id = r.id := congrArg Accepted.id hr
  have hpolicy : r'.policySnapshot = r.policySnapshot := congrArg Accepted.policySnapshot hr
  obtain ⟨h1, h2, h3, h4, h5, h6, h7, h8⟩ := h
  rw [← hrid] at h1 h2
  rw [← hid] at h3 h4
  rw [← hn] at h4 h6 h7 h8
  rw [← hpolicy] at h5
  exact ⟨h1, h2, h3, h4, h5, h6, h7, h8⟩

theorem JustStarted.startedBy {work : ClaimedWork}
    (h : JustStarted e.input answer r n a svc policy work) (hout : e.output = .ok answer)
    (hrow : a ∈ e.after.attempts.rows) : StartedBy e r a svc policy work := by
  obtain ⟨hparse, hmax, hcap⟩ := claimPolicy_ok h.allowed
  have hnumber := h.number
  subst hnumber
  refine ⟨h.claim, by rw [hout, h.claimed], h.attempt, ⟨a, hrow, rfl, rfl, h.provider.symm⟩,
    hparse, hmax, hcap, ?_⟩
  rw [policy.getElem?_providerFor, h.provider, h.named]

/-- An attempt has been started by a claim in the history. -/
def HasOrigin (past : List (Entry Store Input (Except PyError Answer))) (r : Run)
    (a : RunAttempt) : Prop :=
  ∃ e ∈ past, ∃ svc policy work, StartedBy e r a svc policy work

/-- One step of the service gives every new attempt an origin and keeps those of the others. -/
theorem hasOrigin_step [Externals] {past : List (Entry Store Input (Except PyError Answer))}
    {s : Store} (i : Input) (hreach : service.Reachable s)
    (ih : ∀ k r, s.runs.get? k = some r → ∀ a ∈ s.attemptsOf k, HasOrigin past r a) (k : Uuid)
    (r' : Run) (hr' : (service.step s i).2.runs.get? k = some r') :
    ∀ a' ∈ (service.step s i).2.attemptsOf k,
      HasOrigin (past ++ [service.entry s i]) r' a' := by
  have hkeep : ∀ {r a a'}, HasOrigin past r a → accepted r' = accepted r → a'.id = a.id →
      a'.attemptNumber = a.attemptNumber → HasOrigin (past ++ [service.entry s i]) r' a' := by
    rintro r a a' ⟨e, he, svc, policy, work, h⟩ hr hid hn
    exact ⟨e, List.mem_append_left _ he, svc, policy, work, h.congr hr hid hn⟩
  intro a' ha'
  rcases service_step_effects s i with ⟨answer, hout, heffects⟩ | ⟨e, -, hsame⟩
  · cases hrun : s.runs.get? k with
    | none =>
      have hempty : (service.step s i).2.attemptsOf k = [] :=
        ((heffects k).attempts_of_none hrun).trans ((reachable_coherentView hreach k).2 hrun)
      rw [hempty] at ha'
      exact absurd ha' (by simp)
    | some r =>
      obtain ⟨r1, hr1, haccepted⟩ := (heffects k).accepted_eq hrun
      cases hr1.symm.trans hr'
      have hchange := (heffects k).attemptChange hrun
      generalize hafter : (view (service.step s i).2 k).attempts = after at hchange
      rw [show (service.step s i).2.attemptsOf k = after from hafter] at ha'
      cases hchange with
      | same => exact hkeep (ih k r hrun a' ha') haccepted rfl rfl
      | @started a svc policy work hqueued hstarted =>
        rcases List.mem_append.mp ha' with hold | hnew
        · exact hkeep (ih k r hrun a' hold) haccepted rfl rfl
        · rw [List.mem_singleton] at hnew
          subst hnew
          have hrow : a' ∈ (service.step s i).2.attempts.rows :=
            (Table.mem_select.mp (hafter ▸ ha')).1
          refine ⟨service.entry s i, by simp, svc, policy, work, ?_⟩
          exact (JustStarted.startedBy (e := service.entry s i) hstarted hout hrow).congr
            haccepted rfl rfl
      | @finished a sets hmem hopen hby =>
        obtain ⟨b, hb, rfl⟩ := List.mem_map.mp ha'
        refine hkeep (ih k r hrun b hb) haccepted ?_ ?_
        · split
          · exact congrArg Prod.fst (assignAll_keeps AttemptSet.ident_assign sets b)
          · rfl
        · split
          · exact assignAll_keeps attemptNumber_assign sets b
          · rfl
  · rw [hsame] at hr' ha'
    exact hkeep (ih k r' hr' a' ha') rfl rfl rfl

/-- **The records of every run are coherent, and every attempt was started by a claim.** After
any sequence of operations, the columns of every run agree with its status, its attempts are
numbered `1..n` with only the last one open, exactly while the run is running, and every attempt
was started by a claim whose service and whose stored policy allowed its number, with the provider
the policy names for it. -/
theorem run_records_coherent [Externals] (inputs : List Input) {r : Run}
    (hr : r ∈ (service.after inputs).runs.rows) :
    Coherent r ((service.after inputs).attemptsOf r.id)
      ∧ ∀ a ∈ (service.after inputs).attemptsOf r.id,
          HasOrigin (service.history inputs) r a := by
  have hget : (service.after inputs).runs.get? r.id = some r :=
    Table.get?_eq_some_iff.mpr ⟨hr, rfl⟩
  refine ⟨reachable_coherent ⟨inputs, rfl⟩ hget, ?_⟩
  refine (service.history_induction (fun past s => service.Reachable s ∧
    ∀ k r, s.runs.get? k = some r → ∀ a ∈ s.attemptsOf k, HasOrigin past r a) ?_ ?_ inputs).2
    r.id r hget
  · exact ⟨service.reachable_init, fun k r hr => absurd hr (by simp [service, Store.empty])⟩
  · rintro past s i ⟨hreach, ih⟩
    exact ⟨hreach.step i, hasOrigin_step i hreach ih⟩

/-- The records of a run that was retried once, with two attempts. -/
theorem run_records_coherent_sample :
    ∃ r ∈ (sampleService.after sampleRetriedRun).runs.rows,
      r.executionStatus = .succeeded
        ∧ ((sampleService.after sampleRetriedRun).attemptsOf r.id).length = 2
        ∧ Coherent r ((sampleService.after sampleRetriedRun).attemptsOf r.id)
        ∧ ∀ a ∈ (sampleService.after sampleRetriedRun).attemptsOf r.id,
            HasOrigin (sampleService.history sampleRetriedRun) r a := by
  have hrows : (sampleService.after sampleRetriedRun).runs.rows.map (fun r => (r.executionStatus,
      ((sampleService.after sampleRetriedRun).attemptsOf r.id).length)) = [(.succeeded, 2)] := by
    decide +kernel
  obtain ⟨r, hr, hmap⟩ := List.mem_map.mp (hrows ▸ List.mem_singleton_self _)
  exact ⟨r, hr, congrArg Prod.fst hmap, congrArg Prod.snd hmap,
    @run_records_coherent sampleExternals sampleRetriedRun r hr⟩

end AgentRuntime.Lifecycle
