import AgentRuntime.Lifecycle.Bookkeeping

/-!
# The two budgets of a run

When an attempt fails, the service compares its number with the stored policy; when the next one
is claimed, a service compares the next number with the smaller of the stored policy and its own
cap. The two decisions agree on attempt `k` exactly when the policy allows no more than `k`
attempts or the cap allows more than `k`.

* `RunStep.attempt_failed`: the status a failed attempt leaves behind;
* `reachable_settled`: a run whose last attempt failed retryably is dead-lettered exactly when the
  stored policy is used up;
* `retry_budget_agreement`: when the two budgets agree, and what becomes of an exhausted run.
-/

namespace AgentRuntime.Lifecycle

open Lib Table Domain Database Application

/-- The attempt failed with a code that is retried. -/
def FailedRetryably (a : RunAttempt) : Prop :=
  a.outcome = some .failed ∧ ∃ code, a.errorCode = some code ∧ isRetryableError code = true

instance (a : RunAttempt) : Decidable (FailedRetryably a) :=
  decidable_of_iff (a.outcome = some .failed ∧ a.errorCode.any isRetryableError = true) (by
    simp [FailedRetryably, Option.any_eq_true])

/-- The status the stored policy gives a run whose attempt `number` failed with `code`. -/
def settledStatus (policy : RetryPolicy) (number : ℕ) (code : String) : ExecutionStatus :=
  if isRetryableError code then
    if number < policy.maxAttempts then .retryScheduled else .deadLettered
  else .failed

/-- A claim by `svc` would be allowed to start the next attempt of the run. -/
def ClaimAllowed (svc : ExecutionService) (s : Store) (r : Run) : Prop :=
  ∃ policy, claimPolicy svc r (nextNumber (s.attemptsOf r.id)) = .ok policy

/-- The decision after a retryable failure agrees with the next claim by `svc`. -/
structure BudgetsAgree (svc : ExecutionService) (s : Store) (r : Run) : Prop where
  retried_iff : r.executionStatus = .retryScheduled ↔ ClaimAllowed svc s r
  otherwise : r.executionStatus ≠ .retryScheduled → r.executionStatus = .deadLettered

/-- In step `e`, attempt `a` of the run fails retryably; `a'` and `r'` are the rows it leaves. -/
structure RetryableFailure (e : ServiceEntry) (a a' : RunAttempt) (r' : Run) : Prop where
  before : a ∈ e.before.attempts.rows
  isOpen : a.outcome = none
  after : a' ∈ e.after.attempts.rows
  same : a'.id = a.id
  failed : FailedRetryably a'
  run : e.after.runs.get? a.runId = some r'

/-! ### What a failed attempt leaves behind -/

variable {attempts : List RunAttempt} {a a' : RunAttempt}

section Steps

variable {s : Store} {i : Input} {answer : Answer} {v v' : RunView} {r : Run}

/-- The attempts after the open one has been finished: that one has the new columns. -/
theorem Coherent.finished_open (h : Coherent r attempts) {a a0 b : RunAttempt}
    {sets : List AttemptSet} (ha0 : a0 ∈ attempts) (hopen0 : a0.finishedAt = none)
    (ha : a ∈ attempts) (hopen : a.finishedAt = none)
    (hb : b ∈ attempts.map fun b => if b.id = a0.id then assignAll AttemptSet.assign sets b else b)
    (hid : b.id = a.id) : a0 = a ∧ ∃ c, b = assignAll AttemptSet.assign sets c := by
  have heq := h.eq_of_open ha0 ha hopen0 hopen
  refine ⟨heq, ?_⟩
  obtain ⟨c, -, rfl⟩ := List.mem_map.mp hb
  split at hid
  · rename_i hc
    exact ⟨c, if_pos hc⟩
  · rename_i hc
    exact absurd (hid.trans (congrArg RunAttempt.id heq).symm) hc

/-- **The status a failed attempt leaves behind** is the one the stored policy gives. -/
theorem RunStep.attempt_failed (h : RunStep s i answer v v') (hr : v.run = some r)
    (hc : Coherent r v.attempts) (ha : a ∈ v.attempts) (hopen : a.finishedAt = none)
    (ha' : a' ∈ v'.attempts) (hid : a'.id = a.id) (hfailed : a'.outcome = some .failed) :
    ∃ policy code r', RetryPolicy.fromSnapshot r.policySnapshot = .ok policy
      ∧ a'.errorCode = some code ∧ v'.run = some r'
      ∧ r'.executionStatus = settledStatus policy a.attemptNumber code := by
  have hrunning : r.executionStatus = .running := ((hc.open_iff a ha).mp hopen).2
  cases h with
  | created hnone hevent =>
    rw [hr] at hnone
    exact absurd hnone (by simp)
  | started _ _ _ _ hrun hqueued =>
    cases hr.symm.trans hrun
    exact absurd (hqueued.symm.trans hrunning) (by simp)
  | deferred _ _ hrun hqueued =>
    cases hr.symm.trans hrun
    exact absurd (hqueued.symm.trans hrunning) (by simp)
  | rejected _ _ hrun hqueued =>
    cases hr.symm.trans hrun
    exact absurd (hqueued.symm.trans hrunning) (by simp)
  | requeued _ hrun hdue =>
    cases hr.symm.trans hrun
    exact absurd ((retryDue_scheduled hdue).symm.trans hrunning) (by simp)
  | succeeded _ _ _ _ hmem hopen0 =>
    obtain ⟨-, c, rfl⟩ := hc.finished_open hmem hopen0 ha hopen ha' hid
    exact absurd hfailed (by simp)
  | @retried _ _ code recovery _ _ _ hfail hrun hpolicy hretry hbudget =>
    cases hr.symm.trans hrun
    obtain ⟨hmem, hopen0⟩ := hfail.mem_open
    obtain ⟨rfl, c, rfl⟩ := hc.finished_open hmem hopen0 ha hopen ha' hid
    refine ⟨_, code, _, hpolicy, by simp, by simp [hr]; rfl, ?_⟩
    simp [settledStatus, hretry, hbudget]
  | @deadLettered _ _ code recovery _ hfail hrun hpolicy hretry hbudget =>
    cases hr.symm.trans hrun
    obtain ⟨hmem, hopen0⟩ := hfail.mem_open
    obtain ⟨rfl, c, rfl⟩ := hc.finished_open hmem hopen0 ha hopen ha' hid
    refine ⟨_, code, _, hpolicy, by simp, by simp [hr]; rfl, ?_⟩
    simp [settledStatus, hretry, Nat.not_lt.mpr hbudget]
  | @failed _ _ code recovery _ hfail hrun hpolicy hretry =>
    cases hr.symm.trans hrun
    obtain ⟨hmem, hopen0⟩ := hfail.mem_open
    obtain ⟨rfl, c, rfl⟩ := hc.finished_open hmem hopen0 ha hopen ha' hid
    refine ⟨_, code, _, hpolicy, by simp, by simp [hr]; rfl, ?_⟩
    simp [settledStatus, hretry]

end Steps

/-! ### Settled runs -/

/-- A run whose last attempt failed retryably is dead-lettered exactly when the stored policy is
used up. -/
def Settled (v : RunView) : Prop :=
  ∀ r, v.run = some r → ∀ a ∈ v.attempts, a.attemptNumber = v.attempts.length →
    FailedRetryably a → ∀ policy, RetryPolicy.fromSnapshot r.policySnapshot = .ok policy →
      (r.executionStatus = .deadLettered ↔ policy.maxAttempts ≤ v.attempts.length)

section Settled

variable {s : Store} {i : Input} {answer : Answer} {v v' : RunView}

theorem Settled.note (h : Settled v) (hnote : Note v v') : Settled v' := by
  have hnoted : Noted v v' := .single hnote
  intro r' hr' a ha hlast hfailed policy hpolicy
  rw [hnoted.attempts_eq] at ha hlast ⊢
  cases hrun : v.run with
  | none =>
    rw [hnoted.run_none hrun] at hr'
    exact absurd hr' (by simp)
  | some r =>
    obtain ⟨x, hx⟩ := hnoted.run_eq hrun
    cases hx.symm.trans hr'
    exact h r hrun a ha hlast hfailed policy hpolicy

theorem Coherent.number_le {r : Run} (h : Coherent r attempts) {a : RunAttempt}
    (ha : a ∈ attempts) : a.attemptNumber ≤ attempts.length := by
  have hmem : a.attemptNumber ∈ attempts.map RunAttempt.attemptNumber := List.mem_map_of_mem ha
  rw [h.numbered, List.mem_range'_1] at hmem
  omega

/-- The last attempt carries the number of attempts. -/
theorem Coherent.last_mem {r : Run} (h : Coherent r attempts) (hne : attempts ≠ []) :
    ∃ a ∈ attempts, a.attemptNumber = attempts.length := by
  have hpos : 0 < attempts.length := List.length_pos_iff.mpr hne
  have hmem : attempts.length ∈ attempts.map RunAttempt.attemptNumber := by
    rw [h.numbered, List.mem_range'_1]
    omega
  obtain ⟨a, ha, hn⟩ := List.mem_map.mp hmem
  exact ⟨a, ha, hn⟩

/-- A move that does not start from `RUNNING` neither starts nor ends as dead-lettered. -/
theorem Move.not_deadLettered {m : Move} (h : m.source ≠ .running) :
    m.source ≠ .deadLettered ∧ m.target ≠ .deadLettered := by
  revert h
  cases m <;> decide

/-- One step keeps runs settled, by what it does to the attempts. -/
theorem Settled.step (h : Settled v) (hc : CoherentView v) (ho : OutcomesAgree v)
    (hstep : RunStep s i answer v v') : Settled v' := by
  intro r' hr' a' ha' hlast hfailed policy hpolicy
  cases hrun : v.run with
  | none =>
    rw [hstep.attempts_of_none hrun, hc.2 hrun] at ha'
    exact absurd ha' (by simp)
  | some r =>
    have hcr := hc.1 r hrun
    obtain ⟨r1, hr1, haccepted⟩ := (Effect.step hstep).accepted_eq hrun
    cases hr1.symm.trans hr'
    rw [show r'.policySnapshot = r.policySnapshot from
      congrArg Accepted.policySnapshot haccepted] at hpolicy
    have hchange := hstep.attemptChange hrun
    have hmem' := ha'
    generalize v'.attempts = after at ha' hlast hchange ⊢
    cases hchange with
    | same =>
      -- the last attempt of a running run is open, so the run was not running
      have hnot : r.executionStatus ≠ .running := by
        intro hrunning
        have hopen := (hcr.open_iff a' ha').mpr ⟨hlast, hrunning⟩
        rw [← ho a' ha', hfailed.1] at hopen
        exact absurd hopen (by simp)
      obtain ⟨r2, m, hm⟩ := hstep.moved hrun
      cases hm.run'.symm.trans hr'
      obtain ⟨hsource, htarget⟩ := Move.not_deadLettered (hm.source ▸ hnot)
      rw [← h r hrun a' ha' hlast hfailed policy hpolicy, hm.source, hm.target]
      exact ⟨fun heq => absurd heq htarget, fun heq => absurd heq hsource⟩
    | started hqueued hstarted =>
      rcases List.mem_append.mp ha' with hold | hnew
      · have hle := hcr.number_le hold
        rw [hlast, List.length_append, List.length_singleton] at hle
        omega
      · rw [List.mem_singleton.mp hnew] at hfailed
        exact absurd (hfailed.1.symm.trans hstarted.isOpen.2) (by simp)
    | @finished a sets hmem hopen hby =>
      obtain ⟨hnumber, -⟩ := (hcr.open_iff a hmem).mp hopen
      obtain ⟨b, hb, rfl⟩ := List.mem_map.mp ha'
      have hba : b = a := by
        refine hcr.eq_of_number hb hmem ?_
        rw [List.length_map] at hlast
        rw [hnumber, ← hlast]
        split
        · exact (assignAll_keeps attemptNumber_assign sets b).symm
        · rfl
      subst hba
      rw [if_pos rfl] at hfailed hmem'
      have hid : (assignAll AttemptSet.assign sets b).id = b.id :=
        congrArg Prod.fst (assignAll_keeps AttemptSet.ident_assign sets b)
      obtain ⟨policy', code, r2, hpolicy', hcode, hr2, hstatus⟩ :=
        hstep.attempt_failed hrun hcr hb hopen hmem' hid hfailed.1
      cases hpolicy.symm.trans hpolicy'
      cases hr2.symm.trans hr'
      obtain ⟨code', hcode', hretry⟩ := hfailed.2
      cases hcode.symm.trans hcode'
      rw [hstatus, hnumber, List.length_map]
      by_cases hlt : v.attempts.length < policy.maxAttempts
      · simp [settledStatus, hretry, hlt]
      · simp [settledStatus, hretry, hlt, Nat.not_lt.mp hlt]

end Settled

/-! ### Reachable stores -/

/-- **Every run of every reachable store is settled.** -/
theorem reachable_settled [Externals] {s : Store} (h : service.Reachable s) (k : Uuid) :
    Settled (view s k) := by
  refine (reachable_views (P := fun v => (CoherentView v ∧ OutcomesAgree v) ∧ Settled v)
    ?_ ?_ ?_ h k).2
  · refine ⟨⟨⟨?_, fun _ => rfl⟩, ?_⟩, ?_⟩
    · exact fun r hr => absurd hr (by simp [RunView.empty])
    · exact fun a ha => absurd ha (by simp [RunView.empty])
    · exact fun r hr => absurd hr (by simp [RunView.empty])
  · rintro v v' ⟨⟨hc, ho⟩, hs⟩ hnote
    exact ⟨⟨hc.note hnote, ho.note hnote⟩, hs.note hnote⟩
  · rintro s i answer v v' ⟨⟨hc, ho⟩, hs⟩ hstep
    exact ⟨⟨hc.step hstep, ho.step hstep⟩, hs.step hc ho hstep⟩

variable {svc : ExecutionService}

/-- The budget check of a claim. -/
theorem claimPolicy_allowed {r : Run} {n : ℕ} {policy : RetryPolicy}
    (h : RetryPolicy.fromSnapshot r.policySnapshot = .ok policy) :
    (∃ p, claimPolicy svc r n = .ok p) ↔ n ≤ policy.maxAttempts ∧ (n : ℤ) ≤ svc.maxAttempts := by
  constructor
  · rintro ⟨p, hp⟩
    obtain ⟨hparse, hbudget⟩ := claimPolicy_ok hp
    cases h.symm.trans hparse
    exact hbudget
  · rintro ⟨hpolicy, hcap⟩
    refine ⟨policy, ?_⟩
    have hle : ¬ min (policy.maxAttempts : ℤ) svc.maxAttempts < n := by omega
    simp only [claimPolicy, h, bind, Except.bind, if_neg hle]

section Failure

variable {s : Store} {i : Input} {answer : Answer} {v v' : RunView}

theorem CoherentView.noted (h : CoherentView v) (hnoted : Noted v v') : CoherentView v' := by
  induction hnoted with
  | refl => exact h
  | tail _ hnote ih => exact ih.note hnote

/-- A running run neither gains nor loses attempts. -/
theorem Effect.length_of_running (h : Effect s i answer v v') {r : Run} (hrun : v.run = some r)
    (hrunning : r.executionStatus = .running) : v'.attempts.length = v.attempts.length := by
  have hchange := h.attemptChange hrun
  generalize v'.attempts = after at hchange ⊢
  cases hchange with
  | same => rfl
  | started hqueued => exact absurd (hqueued.symm.trans hrunning) (by simp)
  | finished => exact List.length_map _

/-- What an operation leaves of a run whose open attempt failed retryably. -/
theorem Effect.settled (h : Effect s i answer v v') (hc : CoherentView v) {r r' : Run}
    (hrun : v.run = some r) (hrun' : v'.run = some r') (ha : a ∈ v.attempts)
    (hopen : a.finishedAt = none) (ha' : a' ∈ v'.attempts) (hid : a'.id = a.id)
    (hne : a' ∉ v.attempts) (hfailed : FailedRetryably a') :
    ∃ policy, RetryPolicy.fromSnapshot r'.policySnapshot = .ok policy
      ∧ r'.executionStatus = if a.attemptNumber < policy.maxAttempts then .retryScheduled
          else .deadLettered := by
  cases h with
  | noted h =>
    rw [h.attempts_eq] at ha'
    exact absurd ha' hne
  | stepped hbefore hstep hafter =>
    obtain ⟨x, hx⟩ := hbefore.run_eq hrun
    rw [hafter.attempts_eq] at ha'
    rw [← hbefore.attempts_eq] at ha
    obtain ⟨policy, code, r2, hpolicy, hcode, hr2, hstatus⟩ :=
      hstep.attempt_failed hx ((hc.noted hbefore).1 _ hx) ha hopen ha' hid hfailed.1
    obtain ⟨r3, hr3, haccepted⟩ := (Effect.step hstep).accepted_eq hx
    cases hr3.symm.trans hr2
    obtain ⟨y, hy⟩ := hafter.run_eq hr2
    cases hy.symm.trans hrun'
    obtain ⟨code', hcode', hretry⟩ := hfailed.2
    cases hcode.symm.trans hcode'
    have hsnapshot : r2.policySnapshot = r.policySnapshot :=
      congrArg Accepted.policySnapshot haccepted
    refine ⟨policy, ?_, ?_⟩
    · rw [hsnapshot]
      exact hpolicy
    · rw [hstatus, settledStatus, if_pos hretry]

variable [Externals]

/-- The store after a retryable failure: the failed attempt is the last one, and the status is the
one the stored policy gives. -/
theorem RetryableFailure.settled (hreach : service.Reachable s) {r' : Run}
    (h : RetryableFailure (service.entry s i) a a' r') :
    nextNumber ((service.step s i).2.attemptsOf r'.id) = a.attemptNumber + 1
      ∧ ∃ policy, RetryPolicy.fromSnapshot r'.policySnapshot = .ok policy
        ∧ r'.executionStatus = if a.attemptNumber < policy.maxAttempts then .retryScheduled
            else .deadLettered := by
  have hmem : a ∈ s.attemptsOf a.runId := mem_select.mpr ⟨h.before, by simp⟩
  have hopen : a.finishedAt = none := (reachable_outcomesAgree hreach a.runId a hmem).mp h.isOpen
  have hid' : r'.id = a.runId := (mem_of_get? h.run).2
  obtain ⟨b, hb, hbid, hbrun, -⟩ := attempt_kept hreach i h.before
  cases eq_of_id_eq h.after hb (h.same.trans hbid.symm)
  have hmem' : a' ∈ (view (service.step s i).2 a.runId).attempts :=
    mem_select.mpr ⟨h.after, beq_iff_eq.mpr hbrun⟩
  have hnew : a' ∉ s.attemptsOf a.runId := by
    intro hold
    cases eq_of_id_eq (mem_select.mp hold).1 h.before h.same
    exact absurd (h.isOpen.symm.trans h.failed.1) (by simp)
  cases hrun : s.runs.get? a.runId with
  | none =>
    have hnil : s.attemptsOf a.runId = [] := (reachable_coherentView hreach a.runId).2 hrun
    rw [hnil] at hmem
    exact absurd hmem (by simp)
  | some r =>
    have hc := reachable_coherent hreach hrun
    obtain ⟨hnumber, hrunning⟩ := (hc.open_iff a hmem).mp hopen
    rcases service_step_effects s i with ⟨answer, -, heffects⟩ | ⟨e, -, hsame⟩
    · refine ⟨?_, ?_⟩
      · have hc' := reachable_coherent (hreach.step i) h.run
        rw [hid', nextNumber_of_numbered hc'.numbered, hnumber]
        exact congrArg (· + 1) ((heffects a.runId).length_of_running hrun hrunning)
      · exact (heffects a.runId).settled (reachable_coherentView hreach a.runId) hrun h.run hmem
          hopen hmem' h.same hnew h.failed
    · rw [hsame] at hmem'
      exact absurd hmem' hnew

end Failure

/-! ### Agreement -/

/-- Every attempt of the run failed with a code that is retried. -/
def AllFailedRetryably (s : Store) (r : Run) : Prop :=
  s.attemptsOf r.id ≠ [] ∧ ∀ a ∈ s.attemptsOf r.id, FailedRetryably a

instance (s : Store) (r : Run) : Decidable (AllFailedRetryably s r) :=
  inferInstanceAs (Decidable (_ ∧ _))

/-- The status the stored policy gives agrees with the next claim exactly when the policy is used
up or the cap is not. -/
theorem budgetsAgree_iff {s : Store} {r : Run} {n : ℕ} {policy : RetryPolicy}
    (hpolicy : RetryPolicy.fromSnapshot r.policySnapshot = .ok policy)
    (hnext : nextNumber (s.attemptsOf r.id) = n + 1)
    (hstatus : r.executionStatus
      = if n < policy.maxAttempts then .retryScheduled else .deadLettered) :
    BudgetsAgree svc s r ↔ policy.maxAttempts ≤ n ∨ (n : ℤ) < svc.maxAttempts := by
  have hallowed : ClaimAllowed svc s r ↔ n < policy.maxAttempts ∧ (n : ℤ) < svc.maxAttempts := by
    unfold ClaimAllowed
    rw [hnext, claimPolicy_allowed hpolicy]
    omega
  by_cases hlt : n < policy.maxAttempts
  · rw [if_pos hlt] at hstatus
    constructor
    · intro hagree
      exact .inr (hallowed.mp (hagree.retried_iff.mp hstatus)).2
    · intro hcap
      have hclaim : ClaimAllowed svc s r := hallowed.mpr ⟨hlt, by omega⟩
      exact ⟨⟨fun _ => hclaim, fun _ => hstatus⟩, fun hne => absurd hstatus hne⟩
  · rw [if_neg hlt] at hstatus
    refine ⟨fun _ => .inl (Nat.not_lt.mp hlt), fun _ => ⟨⟨?_, ?_⟩, fun _ => hstatus⟩⟩
    · intro hretry
      exact absurd (hstatus.symm.trans hretry) (by simp)
    · intro hclaim
      exact absurd (hallowed.mp hclaim).1 hlt

/-- **Retry budgets.** After any sequence of operations: when attempt `k` fails retryably, the
decision agrees with the next claim of a service with cap `M` exactly when the stored policy allows
at most `k` attempts or `M` more than `k`; and a run whose attempts all failed retryably and used
up the smaller budget is dead-lettered, with its outbox event, exactly under the same condition. -/
theorem retry_budget_agreement [Externals] (inputs : List Input) :
    (∀ e ∈ service.history inputs, ∀ a a' r', RetryableFailure e a a' r' →
      ∃ policy, RetryPolicy.fromSnapshot r'.policySnapshot = .ok policy
        ∧ ∀ svc, BudgetsAgree svc e.after r'
            ↔ policy.maxAttempts ≤ a.attemptNumber ∨ (a.attemptNumber : ℤ) < svc.maxAttempts)
      ∧ ∀ r ∈ (service.after inputs).runs.rows, AllFailedRetryably (service.after inputs) r →
        ∃ policy, RetryPolicy.fromSnapshot r.policySnapshot = .ok policy
          ∧ ∀ (n : ℕ) (svc : ExecutionService),
            ((service.after inputs).attemptsOf r.id).length = n →
            min (policy.maxAttempts : ℤ) svc.maxAttempts ≤ n →
              ((r.executionStatus = .deadLettered
                  ∧ (view (service.after inputs) r.id).deadLetters = 1)
                ↔ policy.maxAttempts ≤ n ∨ (n : ℤ) < svc.maxAttempts) := by
  refine ⟨?_, ?_⟩
  · intro e he a a' r' hfailure
    obtain ⟨hreach, heq⟩ := service.mem_history he
    rw [heq] at hfailure ⊢
    obtain ⟨hnext, policy, hpolicy, hstatus⟩ := hfailure.settled hreach
    exact ⟨policy, hpolicy, fun svc => budgetsAgree_iff hpolicy hnext hstatus⟩
  · intro r hr hfailed
    have hreach : service.Reachable (service.after inputs) := ⟨inputs, rfl⟩
    have hget : (service.after inputs).runs.get? r.id = some r :=
      get?_eq_some_iff.mpr ⟨hr, rfl⟩
    have hc := reachable_coherent hreach hget
    obtain ⟨policy, hpolicy, hbudget⟩ := hc.budget hfailed.1
    refine ⟨policy, hpolicy, ?_⟩
    rintro n svc rfl hexhausted
    obtain ⟨a, ha, hlast⟩ := hc.last_mem hfailed.1
    have hsettled := reachable_settled hreach r.id r hget a ha hlast (hfailed.2 a ha) policy hpolicy
    have hletters := reachable_deadLetters hreach r.id
    rw [show (view (service.after inputs) r.id).run = some r from hget] at hletters
    constructor
    · rintro ⟨hdead, -⟩
      exact .inl (hsettled.mp hdead)
    · intro hcond
      have hdead : r.executionStatus = .deadLettered := hsettled.mpr (by simp; omega)
      exact ⟨hdead, by simp [hletters, hdead]⟩

/-- A policy with one attempt, which fails with a code that is retried. -/
theorem retry_budget_agreement_sample :
    let s := sampleService.after [sampleSubmit 0 1 [("max_attempts", .int 1)], sampleClaim 1 2 1,
      sampleFail 2 3 1 2 "EXECUTION_ERROR"]
    ∃ r ∈ s.runs.rows, AllFailedRetryably s r ∧ r.executionStatus = .deadLettered
      ∧ (view s r.id).deadLetters = 1 := by
  intro s
  have hrows : s.runs.rows.map (fun r => (decide (AllFailedRetryably s r),
      (s.attemptsOf r.id).length, (RetryPolicy.fromSnapshot r.policySnapshot).toOption.map
        RetryPolicy.maxAttempts)) = [(true, 1, some 1)] := by
    decide +kernel
  obtain ⟨r, hr, hmap⟩ := List.mem_map.mp (hrows ▸ List.mem_singleton_self _)
  simp only [Prod.mk.injEq, decide_eq_true_eq] at hmap
  obtain ⟨hfailed, hlength, hmax⟩ := hmap
  obtain ⟨policy, hpolicy, hagree⟩ := (@retry_budget_agreement sampleExternals _).2 r hr hfailed
  have hone : policy.maxAttempts = 1 := by
    simpa [hpolicy, Except.toOption] using hmax
  exact ⟨r, hr, hfailed, (hagree 1 sampleWorker hlength (by simp [hone])).mpr
    (.inl (by simp [hone]))⟩

/-- The policy allows two attempts, the worker one: the failed attempt is scheduled for a retry no
claim of that worker allows, and the run ends `FAILED` without a dead letter. -/
theorem cap_below_policy_ends_failed :
    let worker : ExecutionService := { sampleWorker with maxAttempts := 1 }
    let claim (seconds n : ℕ) := sampleInput seconds n (.claim worker (sampleUuid 1) "worker")
    let failed := sampleService.after [sampleSubmit 0 1 [("max_attempts", .int 2)], claim 1 2,
      sampleFail 2 3 1 2 "EXECUTION_ERROR"]
    let ended := sampleService.afterFrom failed
      [sampleInput 10 4 (.scheduleDueRetries 100), claim 11 5]
    (failed.runs.get? (sampleUuid 1)).map (fun r => (r.executionStatus,
        (claimPolicy worker r (nextNumber (failed.attemptsOf r.id))).isOk))
        = some (.retryScheduled, false)
      ∧ (failed.attemptsOf (sampleUuid 1)).map (fun a => (a.outcome, a.retryable))
        = [(some .failed, some true)]
      ∧ (ended.runs.get? (sampleUuid 1)).map (fun r => (r.executionStatus, r.errorCode))
        = some (.failed, some "INVALID_STORED_POLICY")
      ∧ (view ended (sampleUuid 1)).deadLetters = 0 := by
  decide +kernel

end AgentRuntime.Lifecycle
