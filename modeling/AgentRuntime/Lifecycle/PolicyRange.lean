import AgentRuntime.Lifecycle.Budget
import AgentRuntime.Lifecycle.Jobs
import AgentRuntime.Lifecycle.Recovery

/-!
# Stored policies and the range of their numbers

A claim reads the stored policy once and turns a `ValueError` into a failed run; later the numbers
are used for the time of the next attempt, by workers and by recovery, which handles a whole batch
in one transaction. This module says exactly when one of these steps raises because of a number.

* `claimSettles_iff`: a claim starts an attempt or fails the run, unless an integer of the policy
  exceeds the float range, or the provider or the lease it would write does not fit;
* `scheduleRetryOrFinalize_raises`, `scheduleRetryOrFinalize_overflow`: a failed attempt raises
  exactly when the time of its retry is out of range;
* `recoverExpiredLeases_commits_iff`, `recoverExpiredLeases_rolls_back`: a recovery batch is
  handled exactly when this holds of all its runs, and otherwise nothing of it is;
* `stored_policy_validation`: the three together, on every reachable store.
-/

namespace AgentRuntime.Lifecycle

open Lib Table Domain Database Application
open Tx hiding exec bind

/-! ### Conditions -/

/-- The ids a claim of run `k` draws for its rows are new. -/
structure FreshIds (s : Store) (c : Call) (k : Uuid) : Prop where
  attempt : s.attempts.get? c.attemptId = none
  event : ∀ index < 2, s.events.get? (c.eventId k index) = none

/-- The claim started an attempt, or failed the run for its policy. -/
def ClaimSettles (k : Uuid) (out : Except PyError Answer) (s' : Store) : Prop :=
  (∃ work, out = .ok (.claim ⟨.claimed, k, some work⟩))
    ∨ (out = .ok (.claim ⟨.terminal, k, none⟩)
      ∧ ∃ r, s'.runs.get? k = some r ∧ r.executionStatus = .failed
        ∧ r.errorCode = some "INVALID_STORED_POLICY")

/-- `now + timedelta(seconds=leaseSeconds)` exists. -/
def LeaseInRange (now : Timestamp) (leaseSeconds : ℤ) : Prop :=
  (-timedeltaLimit + 86400000000 ≤ leaseSeconds * 1000000
    ∧ leaseSeconds * 1000000 < timedeltaLimit)
    ∧ 0 ≤ now.micros + leaseSeconds * 1000000
    ∧ now.micros + leaseSeconds * 1000000 ≤ datetimeMax

/-- No number of the stored policy exceeds the float range, and if the claim may start attempt
`n`, its provider and its lease fit their columns. -/
structure ClaimInRange (svc : ExecutionService) (s : Store) (r : Run) (now : Timestamp) :
    Prop where
  policy : ¬ OverflowingPolicy r.policySnapshot
  started : ∀ policy, claimPolicy svc r (nextNumber (s.attemptsOf r.id)) = .ok policy →
    (policy.providerFor (nextNumber (s.attemptsOf r.id))).length ≤ 64
      ∧ LeaseInRange now svc.leaseSeconds

/-- If a failure of attempt `a` with `code` is retried, the time of the retry exists. -/
def RetryInRange (r : Run) (a : RunAttempt) (code : String) (now : Timestamp) : Prop :=
  ∀ policy delay, RetryPolicy.fromSnapshot r.policySnapshot = .ok policy →
    isRetryableError code = true → a.attemptNumber < policy.maxAttempts →
    policy.delayAfterAttempt a.attemptNumber = .ok delay →
      timedeltaMicros delay < timedeltaLimit ∧ now.micros + timedeltaMicros delay ≤ datetimeMax

/-! ### Failed attempts -/

section Failures

variable {busy : Lock → Bool} {s : Store} {c : Call} {r : Run} {a : RunAttempt} {code : String}
  {recovery : Bool} {policy : RetryPolicy}

variable {w : Write}

/-- A violated constraint is no exception of a policy. -/
theorem not_policyError_of_apply {e : PyError} (h : Writes.apply w s = .error e) :
    ¬ PolicyError e := by
  rcases apply_error h with rfl | rfl
  · exact nofun
  · exact nofun

theorem raises_exec_not_policy : Raises busy (exec w) s fun e => ¬ PolicyError e :=
  (raises_exec w).mpr fun _ h => not_policyError_of_apply h

/-- A write raises no exception of a policy, whatever comes next. -/
theorem exec_not_policy {Q : Unit → Store → Prop} (h : ∀ s', Q () s') :
    Raises busy (exec w) s (fun e => ¬ PolicyError e) ∧ Ensures busy (exec w) s Q :=
  ⟨raises_exec_not_policy, (ensures_exec w).mpr fun s' _ => h s'⟩

theorem finalizeEvaluationJob_raises (c : Call) (run : Run) :
    Raises busy (finalizeEvaluationJob c run) s fun e => ¬ PolicyError e := by
  unfold finalizeEvaluationJob
  split
  · exact raises_done ()
  · simp only [bind_eq, raises_bind, raises_read, ensures_read, true_and]
    split
    · exact (raises_raise _).mpr (by rintro ⟨⟩)
    · simp only [raises_bind, raises_acquire, ensures_acquire, true_and]
      refine exec_not_policy fun s1 => ?_
      refine ⟨raises_of_run_ok (run_lockedRun _), ?_⟩
      simp only [ensures_lockedRun, raises_read, ensures_read, true_and]
      split
      · exact (raises_bind _ _).mpr (exec_not_policy fun s2 => raises_exec_not_policy)
      · exact raises_exec_not_policy

/-- A retry whose time is in range raises nothing but violated constraints. -/
theorem scheduleRetryOrFinalize_raises
    (hpolicy : RetryPolicy.fromSnapshot r.policySnapshot = .ok policy)
    (hnumber : 1 ≤ a.attemptNumber) (hrange : RetryInRange r a code c.now) :
    Raises busy (scheduleRetryOrFinalize c r a code recovery) s fun e => ¬ PolicyError e := by
  simp only [scheduleRetryOrFinalize, hpolicy, bind_eq, raises_bind, raises_ofExcept,
    ensures_ofExcept, reduceCtorEq, false_imp_iff, implies_true, true_and, Except.ok.injEq,
    forall_eq']
  split
  · rename_i hretry
    obtain ⟨delay, hdelay, hone⟩ := policy.delayAfterAttempt_ok hnumber
    obtain ⟨t, ht⟩ := (Timestamp.addSeconds_ok_of_nonneg (le_trans zero_le_one hone)).mpr
      (hrange policy delay hpolicy hretry.1 hretry.2 hdelay)
    simp only [hdelay, ht, raises_bind, raises_ofExcept, ensures_ofExcept, reduceCtorEq,
      false_imp_iff, implies_true, true_and, Except.ok.injEq, forall_eq']
    exact exec_not_policy fun s1 => exec_not_policy fun s2 => raises_exec_not_policy
  · refine (raises_bind _ _).mpr (exec_not_policy fun s1 => ?_)
    split
    · refine (raises_bind _ _).mpr (exec_not_policy fun s2 => ?_)
      refine (raises_bind _ _).mpr (exec_not_policy fun s3 => ?_)
      exact (raises_bind _ _).mpr (exec_not_policy fun s4 => finalizeEvaluationJob_raises _ _)
    · refine (raises_bind _ _).mpr (exec_not_policy fun s2 => ?_)
      exact (raises_bind _ _).mpr (exec_not_policy fun s3 => finalizeEvaluationJob_raises _ _)

/-- A retry whose time is out of range raises `OverflowError`. -/
theorem scheduleRetryOrFinalize_overflow (busy : Lock → Bool) (s : Store) (recovery : Bool)
    (hrange : ¬ RetryInRange r a code c.now) :
    ∃ message, (scheduleRetryOrFinalize c r a code recovery).run busy s
      = .error (.overflowError message) := by
  unfold RetryInRange at hrange
  push Not at hrange
  obtain ⟨policy, delay, hpolicy, hretry, hbudget, hdelay, hout⟩ := hrange
  have hnot : ¬ ∃ t, c.now.addSeconds delay = .ok t := by
    rintro ⟨t, ht⟩
    obtain ⟨⟨-, hlimit⟩, -, hmax⟩ := Timestamp.addSeconds_ok.mp ⟨t, ht⟩
    exact absurd (hout hlimit) (not_lt.mpr hmax)
  cases hsum : c.now.addSeconds delay with
  | ok t => exact absurd ⟨t, hsum⟩ hnot
  | error e =>
    obtain ⟨message, rfl⟩ := Timestamp.addSeconds_error hsum
    refine ⟨message, ?_⟩
    simp only [scheduleRetryOrFinalize, bind_eq, run_bind, run_ofExcept, hpolicy,
      ok_map, ok_bind, if_pos (And.intro hretry hbudget), hdelay, hsum, error_map,
      error_bind]

end Failures

/-! ### Claims -/

variable {a : RunAttempt}

section Claims

variable {busy : Lock → Bool} {s : Store} {c : Call} {r : Run}

theorem insert?_of_fresh {α κ : Type} [DecidableEq κ] [Row α κ] {t : Table α} {a : α}
    (h : ∀ b ∈ t.rows, Row.clash (Row.ident b) (Row.ident a) = false) (set : Table α → Store) :
    ∃ t', insertOr t a set = .ok (set t') := by
  obtain ⟨t', ht'⟩ := insert?_isSome h
  exact ⟨t', by unfold insertOr; rw [ht']⟩

theorem insertEvent_ok {e : RunEvent} (hrun : s.hasRun e.runId = true)
    (hattempt : e.attemptId.all s.hasAttempt = true) (hfresh : s.events.get? e.id = none) :
    ∃ s', Writes.apply (Write.insertEvent e) s = .ok s' := by
  have hclash : ∀ b ∈ s.events.rows, Row.clash (Row.ident b) (Row.ident e) = false := by
    intro b hb
    have hne := get?_eq_none_iff.mp hfresh b hb
    exact beq_eq_false_iff_ne.mpr hne
  obtain ⟨t, ht⟩ := insert?_of_fresh hclash fun t => { s with events := t }
  refine ⟨{ s with events := t }, ?_⟩
  simp only [writes_apply, Write.apply, hrun, hattempt, Bool.and_self, if_true]
  exact ht

/-- The end of an evaluation job is recorded without an exception. -/
theorem finalizeEvaluationJob_commits (hjobs : JobsRecorded none s)
    (hrow : ∃ r' ∈ s.runs.rows, r'.id = r.id ∧ r'.workKind = r.workKind)
    (hfresh : s.events.get? (c.eventId r.id 1) = none) :
    Commits busy (finalizeEvaluationJob c r) s fun _ _ => True := by
  unfold finalizeEvaluationJob
  split
  · exact (commits_done ()).mpr trivial
  · rename_i hkind
    obtain ⟨r', hr', hid, hkind'⟩ := hrow
    obtain ⟨e, he, hjob⟩ := hjobs.record r' hr' (hkind'.trans (not_not.mp hkind)) (by simp)
    obtain ⟨evaluation, hevaluation⟩ : ∃ evaluation, s.evaluationOfJob r.id = some evaluation := by
      rw [← Option.isSome_iff_exists]
      exact List.find?_isSome.mpr ⟨e, he, by simp [hjob, hid]⟩
    have hsource := hjobs.source evaluation (List.mem_of_find?_eq_some hevaluation)
    have hevent : ∀ {s' : Store}, s'.hasRun evaluation.runId = true → s'.events = s.events →
        Commits busy (exec (.insertEvent (newEvent c r.id 1 evaluation.runId none
          (.evaluation (jobVerdict r)) [("job_run_id", .uuid r.id)]))) s' fun _ _ => True := by
      intro s' hrun hevents
      obtain ⟨s'', hs''⟩ := insertEvent_ok (e := newEvent c r.id 1 evaluation.runId none
        (.evaluation (jobVerdict r)) [("job_run_id", .uuid r.id)]) hrun rfl
        (by rw [hevents]; exact hfresh)
      exact (commits_exec _).mpr ⟨s'', hs'', trivial⟩
    simp only [bind_eq, commits_bind, commits_read, hevaluation, commits_acquire, commits_exec]
    refine ⟨_, rfl, (commits_of_run_ok (run_lockedRun _)).mpr ?_⟩
    split
    · refine (commits_bind _ _).mpr ((commits_exec _).mpr ⟨_, rfl, hevent ?_ rfl⟩)
      exact hasRun_write (w := .updateRun _ _) rfl hsource
    · exact hevent hsource rfl

/-- Rejecting the policy of a run commits and fails the run. -/
theorem rejectRun_commits (hjobs : JobsRecorded none s) (hget : s.runs.get? r.id = some r)
    (hfresh : FreshIds s c r.id) :
    Commits busy (rejectRun c r) s fun a s' => a = ⟨.terminal, r.id, none⟩
      ∧ ∃ r', s'.runs.get? r.id = some r' ∧ r'.executionStatus = .failed
        ∧ r'.errorCode = some "INVALID_STORED_POLICY" := by
  simp only [rejectRun, bind_eq, commits_bind, commits_exec, pure_eq, commits_done, true_and]
  refine ⟨_, rfl, ?_⟩
  generalize hs1 : ({ s with runs := _ } : Store) = s1
  have h1 : Writes.apply (Write.updateRun r.id (rejectSets c.now)) s = .ok s1 := by
    rw [← hs1]
    rfl
  have hrun1 : s1.runs.get? r.id = some (assignAll RunSet.assign (rejectSets c.now) r) := by
    have hview := congrArg RunView.run (view_apply h1 (k := r.id))
    simpa [onView, hget] using hview
  have hcommits : Commits busy
      (finalizeEvaluationJob c (assignAll RunSet.assign (rejectSets c.now) r)) s1
      fun _ _ => True := by
    refine finalizeEvaluationJob_commits (hjobs.write (fun r hr => absurd hr (by simp)) h1)
      ⟨_, (mem_of_get? hrun1).1, rfl, rfl⟩ ?_
    rw [show s1.events = s.events by rw [← hs1]]
    exact hfresh.event 1 (by decide)
  refine (hcommits.and_ensures (finalizeEvaluationJob_noted _ _)).mono ?_
  rintro _ s2 ⟨-, hnoted⟩
  obtain ⟨x, hx⟩ := (hnoted r.id).run_eq hrun1
  exact ⟨_, hx, by simp, by simp⟩

theorem leaseInRange_iff {now : Timestamp} {leaseSeconds : ℤ} :
    LeaseInRange now leaseSeconds ↔ ∃ t, now.addSeconds leaseSeconds = .ok t := by
  rw [Timestamp.addSeconds_ok, timedeltaMicros_intCast]
  exact Iff.rfl

theorem insertAttempt_ok (hfits : a.provider.length ≤ 64) (hrun : s.hasRun a.runId = true)
    (hid : s.attempts.get? a.id = none)
    (hnumber : ∀ b ∈ s.attemptsOf a.runId, b.attemptNumber ≠ a.attemptNumber) :
    ∃ t, s.attempts.insert? a = some t
      ∧ Writes.apply (Write.insertAttempt a) s = .ok { s with attempts := t } := by
  have hclash : ∀ b ∈ s.attempts.rows, Row.clash (Row.ident b) (Row.ident a) = false := by
    intro b hb
    have hne := get?_eq_none_iff.mp hid b hb
    have hpair : ¬ (b.runId, b.attemptNumber) = (a.runId, a.attemptNumber) := by
      intro heq
      obtain ⟨hrunId, hn⟩ := Prod.mk.inj heq
      exact hnumber b (mem_select.mpr ⟨hb, beq_iff_eq.mpr hrunId⟩) hn
    exact Bool.or_eq_false_iff.mpr ⟨beq_eq_false_iff_ne.mpr hne, beq_eq_false_iff_ne.mpr hpair⟩
  obtain ⟨t, ht⟩ := insert?_isSome hclash
  refine ⟨t, ht, ?_⟩
  simp only [writes_apply, Write.apply, fitsVarchar64, hfits, hrun, insertOr, ht, decide_true,
    if_true]

variable {svc : ExecutionService}

/-- Starting an attempt commits if the provider and the lease fit. -/
theorem startAttempt_commits {workerId : String} {policy : RetryPolicy}
    (hget : s.runs.get? r.id = some r) (hc : Coherent r (s.attemptsOf r.id))
    (hfresh : FreshIds s c r.id)
    (hfits : (policy.providerFor (nextNumber (s.attemptsOf r.id))).length ≤ 64)
    (hlease : LeaseInRange c.now svc.leaseSeconds) :
    Commits busy
      (startAttempt svc c r workerId (nextNumber (s.attemptsOf r.id)) policy) s
      fun a _ => ∃ work, a = ⟨.claimed, r.id, some work⟩ := by
  obtain ⟨expires, hexpires⟩ := leaseInRange_iff.mp hlease
  simp only [startAttempt, hexpires, bind_eq, commits_bind, commits_ofExcept,
    commits_exec, pure_eq, commits_done, Except.ok.injEq, exists_eq_left']
  refine ⟨_, rfl, ?_⟩
  generalize hs1 : ({ s with runs := _ } : Store) = s1
  have h1 : Writes.apply (Write.updateRun r.id (startSets c r workerId expires)) s = .ok s1 := by
    rw [← hs1]
    rfl
  have hrun1 : s1.hasRun r.id = true := hasRun_write h1 (by simp [Store.hasRun, hget])
  have hattempts : s1.attempts = s.attempts := by rw [← hs1]
  have hnumber : ∀ b ∈ s1.attemptsOf r.id, b.attemptNumber ≠ nextNumber (s.attemptsOf r.id) := by
    intro b hb
    rw [Store.attemptsOf, hattempts] at hb
    have hle := hc.number_le hb
    rw [nextNumber_of_numbered hc.numbered]
    omega
  obtain ⟨t, ht, h2⟩ := insertAttempt_ok (s := s1) (a := newAttempt c r
    (nextNumber (s.attemptsOf r.id)) (policy.providerFor (nextNumber (s.attemptsOf r.id))) workerId)
    hfits hrun1 (hattempts ▸ hfresh.attempt) hnumber
  refine ⟨_, h2, ?_⟩
  have hevent : ∃ s3, Writes.apply (Write.insertEvent (newEvent c r.id 0 r.id (some c.attemptId)
      .runClaimed [("worker_id", .text workerId),
        ("attempt_number", .number (nextNumber (s.attemptsOf r.id)))])) { s1 with attempts := t }
        = .ok s3 := by
    refine insertEvent_ok hrun1 ?_ ?_
    · have hnew := get?_insert ht c.attemptId
      simp only [newEvent, Option.all_some, Store.hasAttempt]
      rw [hnew, RunAttempt.row_id]
      simp [newAttempt]
    · rw [show ({ s1 with attempts := t } : Store).events = s.events by rw [← hs1]]
      exact hfresh.event 0 (by decide)
  obtain ⟨s3, h3⟩ := hevent
  exact ⟨s3, h3, _, rfl⟩

/-- A lease or a provider that does not fit makes the start of an attempt raise. -/
theorem startAttempt_inRange {workerId : String} {n : ℕ} {policy : RetryPolicy} :
    Ensures busy (startAttempt svc c r workerId n policy) s fun _ _ =>
      (policy.providerFor n).length ≤ 64 ∧ LeaseInRange c.now svc.leaseSeconds := by
  simp only [startAttempt, bind_eq, ensures_bind, ensures_ofExcept, ensures_exec,
    pure_eq, ensures_done]
  intro expires hexpires s1 _ s2 h2 _ _
  refine ⟨?_, leaseInRange_iff.mpr ⟨expires, hexpires⟩⟩
  simp only [writes_apply, Write.apply] at h2
  split at h2
  · rename_i hfits
    exact of_decide_eq_true hfits
  · exact absurd h2 (by simp)

/-- What a claim finds in the stored policy. -/
theorem claimPolicy_cases (svc : ExecutionService) (r : Run) (n : ℕ) :
    (∃ policy, claimPolicy svc r n = .ok policy ∧ ¬ OverflowingPolicy r.policySnapshot)
      ∨ (∃ message, claimPolicy svc r n = .error (.valueError message)
          ∧ ¬ OverflowingPolicy r.policySnapshot)
      ∨ ∃ message, claimPolicy svc r n = .error (.overflowError message)
          ∧ OverflowingPolicy r.policySnapshot := by
  unfold claimPolicy
  rcases RetryPolicy.fromSnapshot_cases r.policySnapshot with
    ⟨policy, hread, hnot⟩ | ⟨message, hread, hnot⟩ | ⟨message, hread, hover⟩
  · simp only [hread, bind, Except.bind]
    split
    · exact .inr (.inl ⟨_, rfl, hnot⟩)
    · exact .inl ⟨policy, rfl, hnot⟩
  · exact .inr (.inl ⟨message, by simp only [hread, bind, Except.bind], hnot⟩)
  · exact .inr (.inr ⟨message, by simp only [hread, bind, Except.bind], hover⟩)

variable {svc : ExecutionService} {workerId : String}

/-- Within the range a claim commits an attempt or the rejection of the policy. -/
theorem claimUnderQuota_commits (hjobs : JobsRecorded none s)
    (hget : s.runs.get? r.id = some r) (hc : Coherent r (s.attemptsOf r.id))
    (hfresh : FreshIds s c r.id) (hrange : ClaimInRange svc s r c.now) :
    Commits busy (claimUnderQuota svc c r workerId) s fun a s' =>
      ClaimSettles r.id (.ok (.claim a)) s' := by
  simp only [claimUnderQuota, bind_eq, commits_bind]
  rw [commits_of_run_ok (run_nextAttemptNumber r.id)]
  rcases claimPolicy_cases svc r (nextNumber (s.attemptsOf r.id)) with
    ⟨policy, hpolicy, -⟩ | ⟨message, hpolicy, -⟩ | ⟨message, -, hover⟩
  · obtain ⟨hfits, hlease⟩ := hrange.started policy hpolicy
    simp only [hpolicy]
    refine (startAttempt_commits hget hc hfresh hfits hlease).mono ?_
    rintro a s' ⟨work, rfl⟩
    exact .inl ⟨work, rfl⟩
  · simp only [hpolicy]
    refine (rejectRun_commits hjobs hget hfresh).mono ?_
    rintro a s' ⟨rfl, hfailed⟩
    exact .inr ⟨rfl, hfailed⟩
  · exact absurd hover hrange.policy

/-- Out of the range a claim raises. -/
theorem claimUnderQuota_inRange :
    Ensures busy (claimUnderQuota svc c r workerId) s fun _ _ => ClaimInRange svc s r c.now := by
  simp only [claimUnderQuota, bind_eq, ensures_bind, ensures_nextAttemptNumber]
  rcases claimPolicy_cases svc r (nextNumber (s.attemptsOf r.id)) with
    ⟨policy, hpolicy, hnot⟩ | ⟨message, hpolicy, hnot⟩ | ⟨message, hpolicy, -⟩
  · simp only [hpolicy]
    refine startAttempt_inRange.mono fun _ _ h => ⟨hnot, fun policy' h' => ?_⟩
    rw [hpolicy] at h'
    cases h'
    exact h
  · simp only [hpolicy]
    intro a s' _
    exact ⟨hnot, fun policy h => absurd (hpolicy.symm.trans h) (by simp)⟩
  · simp only [hpolicy, ensures_raise]

variable [Externals] {i : Input}

/-- **A claim settles the run exactly when its numbers are in range.** -/
theorem claimSettles_iff (hreach : service.Reachable s) (hop : i.op = .claim svc r.id workerId)
    (hget : s.runs.get? r.id = some r) (hqueued : r.executionStatus = .queued)
    (hquota : ¬ runningQuotaFull svc.quotas s r) (hfresh : FreshIds s i.call r.id) :
    ClaimSettles r.id (service.step s i).1 (service.step s i).2
      ↔ ClaimInRange svc s r i.call.now := by
  have hrun : i.run s = ((claimUnderQuota svc i.call r workerId).run i.busy s).map
      fun p => (.claim p.1, p.2) := by
    simp only [Input.run, hop, run_claim_queued hget hqueued, run_claimQueued_free hquota]
  constructor
  · intro hsettles
    have hok : ∃ answer s', i.run s = .ok (answer, s') := by
      rcases service_step_cases s i with ⟨answer, s', hok, -⟩ | ⟨e, -, hstep⟩
      · exact ⟨answer, s', hok⟩
      · rw [hstep] at hsettles
        rcases hsettles with ⟨work, hout⟩ | ⟨hout, -⟩
        · exact absurd hout (by simp)
        · exact absurd hout (by simp)
    obtain ⟨answer, s', hok⟩ := hok
    rw [hrun, map_eq_ok] at hok
    obtain ⟨⟨a, s1⟩, hclaim, -⟩ := hok
    exact claimUnderQuota_inRange a s1 hclaim
  · intro hrange
    have hcommits : Commits i.busy (claimUnderQuota svc i.call r workerId) s fun a s' =>
        ClaimSettles r.id (.ok (.claim a)) s' :=
      claimUnderQuota_commits (reachable_jobsRecorded hreach) hget
        (reachable_coherent hreach hget) hfresh hrange
    obtain ⟨a, s', hclaim, hsettles⟩ := hcommits
    rw [hclaim] at hrun
    rw [service_step_ok hrun]
    exact hsettles

end Claims

/-! ### Completions and recovery -/

theorem Coherent.number_pos {r : Run} {attempts : List RunAttempt} (h : Coherent r attempts)
    (ha : a ∈ attempts) : 1 ≤ a.attemptNumber := by
  have hmem : a.attemptNumber ∈ attempts.map RunAttempt.attemptNumber := List.mem_map_of_mem ha
  rw [h.numbered, List.mem_range'_1] at hmem
  exact hmem.1

section Operations

variable [Externals] {s : Store} {i : Input}

/-- A worker's report of a failure raises because of the policy exactly when the time of the retry
is out of range. -/
theorem completeFailure_not_policy_iff (hreach : service.Reachable s) {runId attemptId : Uuid}
    {workerId code : String} (hop : i.op = .completeFailure runId attemptId workerId code) :
    (∀ e, (service.step s i).1 = .error e → ¬ PolicyError e) ↔
      ∀ r a, ActiveAttempt s i.call runId attemptId workerId r a →
        RetryInRange r a code i.call.now := by
  have hstep : ∀ e, (service.step s i).1 = .error e ↔
      (completeFailure i.call runId attemptId workerId code).run i.busy s = .error e := by
    intro e
    rw [service_step_fst_error]
    simp only [Input.run, hop]
    exact map_eq_error
  simp only [hstep]
  by_cases hactive : ∃ r a, ActiveAttempt s i.call runId attemptId workerId r a
  · obtain ⟨r, a, hactive⟩ := hactive
    have hrun : ∀ e, (completeFailure i.call runId attemptId workerId code).run i.busy s = .error e
        ↔ (scheduleRetryOrFinalize i.call r a code false).run i.busy s = .error e := by
      intro e
      simp only [completeFailure, bind_eq, run_bind, run_activeAttempt_some hactive,
        ok_bind, pure_eq, run_done]
      cases (scheduleRetryOrFinalize i.call r a code false).run i.busy s <;> simp
    simp only [hrun]
    constructor
    · intro hnot r' a' hactive'
      cases hactive.run_eq.symm.trans hactive'.run_eq
      cases hactive.attempt_eq.symm.trans hactive'.attempt_eq
      by_contra hrange
      obtain ⟨message, herror⟩ := scheduleRetryOrFinalize_overflow i.busy s false hrange
      exact hnot _ herror (.overflow message)
    · intro hrange
      obtain ⟨hmem, hid⟩ := mem_of_get? hactive.attempt_eq
      have hbelongs : a ∈ s.attemptsOf r.id :=
        mem_select.mpr ⟨hmem, beq_iff_eq.mpr hactive.belongs⟩
      have hget : s.runs.get? r.id = some r :=
        get?_eq_some_iff.mpr ⟨(mem_of_get? hactive.run_eq).1, rfl⟩
      have hc := reachable_coherent hreach hget
      obtain ⟨policy, hpolicy, -⟩ := hc.budget (List.ne_nil_of_mem hbelongs)
      exact scheduleRetryOrFinalize_raises hpolicy (hc.number_pos hbelongs) (hrange r a hactive)
  · have hnone : (completeFailure i.call runId attemptId workerId code).run i.busy s
        = .ok (false, s) := by
      simp only [completeFailure, bind_eq, run_bind,
        run_activeAttempt_none fun r a h => hactive ⟨r, a, h⟩, ok_bind]
      rfl
    constructor
    · exact fun _ r a h => absurd ⟨r, a, h⟩ hactive
    · intro _ e herror
      rw [hnone] at herror
      exact absurd herror (by simp)

end Operations

/-! ### Recovery -/

/-- The open attempt of the run can be settled: its latency fits the column, and if it is retried,
the time of the retry exists. -/
def RecoverableInRange (s : Store) (now : Timestamp) (r : Run) : Prop :=
  ∀ a, latestOpen (s.attemptsOf r.id) = some a →
    fitsInt4 (millisecondsBetween now a.startedAt) = true
      ∧ RetryInRange r a ExecutionErrorCode.executionLeaseExpired.value now

/-- The ids a call draws for the two events and the message of a run are new. -/
structure Unused (s : Store) (c : Call) (k : Uuid) : Prop where
  event : ∀ index < 2, s.events.get? (c.eventId k index) = none
  outbox : s.outbox.get? (c.outboxId k) = none

/-- A call draws different ids for the rows of the runs `ks`. -/
structure DrawsDistinct (c : Call) (ks : List Uuid) : Prop where
  event : ∀ k ∈ ks, ∀ k' ∈ ks, ∀ n < 2, ∀ n' < 2, c.eventId k n = c.eventId k' n' →
    k = k' ∧ n = n'
  outbox : ∀ k ∈ ks, ∀ k' ∈ ks, c.outboxId k = c.outboxId k' → k = k'

section Settling

variable {busy : Lock → Bool} {s s' : Store} {c : Call} {r : Run} {a : RunAttempt} {code : String}
  {recovery : Bool} {policy : RetryPolicy} {k k' : Uuid} {ks : List Uuid} {w : Write}

/-- Settling one run leaves the ids of the others unused. -/
theorem Unused.write (hdraws : DrawsDistinct c ks) (hk : k ∈ ks) (hk' : k' ∈ ks) (hne : k' ≠ k)
    (hw : SettlesRun c k w) (h : Writes.apply w s = .ok s') (hs : Unused s c k') :
    Unused s' c k' := by
  cases applied h with
  | insertEvent e hins =>
    obtain ⟨index, hindex, hid⟩ := hw
    refine ⟨fun n hn => ?_, hs.outbox⟩
    have hget := get?_insert hins (c.eventId k' n)
    have hother : ¬ e.id = c.eventId k' n := fun heq =>
      hne (hdraws.event k' hk' k hk n hn index hindex (heq.symm.trans hid)).1
    exact hget.trans ((if_neg hother).trans (hs.event n hn))
  | insertOutbox e hins =>
    refine ⟨hs.event, ?_⟩
    have hget := get?_insert hins (c.outboxId k')
    have hother : ¬ e.id = c.outboxId k' := fun heq =>
      hne (hdraws.outbox k' hk' k hk (heq.symm.trans hw.1))
    exact hget.trans ((if_neg hother).trans hs.outbox)
  | updateOutbox _ _ => exact hw.elim
  | _ => exact ⟨hs.event, hs.outbox⟩

/-- What the end of attempt `a` of run `r` relies on. -/
structure Settleable (s : Store) (r : Run) (a : RunAttempt) : Prop where
  jobs : JobsRecorded none s
  row : ∃ r' ∈ s.runs.rows, r'.id = r.id ∧ r'.workKind = r.workKind
  attempt : s.hasAttempt a.id = true

theorem Settleable.write (hs : Settleable s r a) (h : Writes.apply w s = .ok s')
    (hw : SettlesRun c k w) : Settleable s' r a := by
  refine ⟨hs.jobs.write (noJob_of_executes hw.executes) h, ?_, ?_⟩
  · obtain ⟨r1, hr1, hid, hkind⟩ := hs.row
    obtain ⟨r2, hr2, hid', hkind'⟩ := run_kept h hr1
    exact ⟨r2, hr2, hid'.trans hid, hkind'.trans hkind⟩
  · have hattempt := hs.attempt
    unfold Store.hasAttempt at hattempt ⊢
    cases applied h with
    | insertAttempt a hins => exact hw.elim
    | updateAttempt id sets =>
      rw [get?_update]
      split
      · rw [Option.isSome_map]
        exact hattempt
      · exact hattempt
    | _ => exact hattempt

/-- The last event of a run is recorded, and the evaluation it may be the job of. -/
theorem endRun_commits (hdraws : DrawsDistinct c ks) (hk : r.id ∈ ks) (hs : Settleable s r a)
    (hfresh : ∀ n < 2, s.events.get? (c.eventId r.id n) = none) (sets : List RunSet)
    (kind : EventType) (metadata : Metadata) :
    Commits busy ((exec (.insertEvent (newEvent c r.id 0 r.id (some a.id) kind metadata))).bind
      fun _ => finalizeEvaluationJob c (assignAll RunSet.assign sets r)) s fun _ _ => True := by
  have hid : (assignAll RunSet.assign sets r).id = r.id :=
    congrArg Prod.fst (assignAll_keeps RunSet.ident_assign sets r)
  have hkind : (assignAll RunSet.assign sets r).workKind = r.workKind :=
    assignAll_keeps workKind_assign sets r
  have hrun : s.hasRun r.id = true := by
    obtain ⟨r', hr', hid', -⟩ := hs.row
    exact hasRun_iff.mpr ⟨r', hr', hid'⟩
  obtain ⟨s1, h1⟩ := insertEvent_ok (e := newEvent c r.id 0 r.id (some a.id) kind metadata) hrun
    (by exact hs.attempt) (hfresh 0 (by decide))
  refine (commits_bind _ _).mpr ((commits_exec _).mpr ⟨s1, h1, ?_⟩)
  have hsettles : SettlesRun c r.id (.insertEvent (newEvent c r.id 0 r.id (some a.id) kind
      metadata)) := ⟨0, by decide, rfl⟩
  have hs1 := hs.write h1 hsettles
  refine finalizeEvaluationJob_commits hs1.jobs ?_ ?_
  · rw [hid, hkind]
    exact hs1.row
  · obtain ⟨t, hins, rfl, -⟩ := apply_insertEvent h1
    have hget := get?_insert hins (c.eventId r.id 1)
    have hother : ¬ c.eventId r.id 0 = c.eventId r.id 1 := fun heq =>
      absurd (hdraws.event _ hk _ hk 0 (by decide) 1 (by decide) heq).2 (by decide)
    rw [hid]
    exact hget.trans ((if_neg hother).trans (hfresh 1 (by decide)))

theorem insertOutbox_ok {e : OutboxEvent} (hfresh : s.outbox.get? e.id = none) :
    ∃ t, Writes.apply (Write.insertOutbox e) s = .ok { s with outbox := t } := by
  refine insert?_of_fresh ?_ fun t => { s with outbox := t }
  intro b hb
  exact beq_eq_false_iff_ne.mpr (get?_eq_none_iff.mp hfresh b hb)

/-- **A failed attempt whose numbers are in range is settled.** -/
theorem scheduleRetryOrFinalize_commits (hdraws : DrawsDistinct c ks) (hk : r.id ∈ ks)
    (hs : Settleable s r a) (hunused : Unused s c r.id)
    (hpolicy : RetryPolicy.fromSnapshot r.policySnapshot = .ok policy)
    (hnumber : 1 ≤ a.attemptNumber)
    (hlatency : fitsInt4 (millisecondsBetween c.now a.startedAt) = true)
    (hrange : RetryInRange r a code c.now) :
    Commits busy (scheduleRetryOrFinalize c r a code recovery) s fun _ _ => True := by
  have hfits : (finishFailedAttempt a c.now code).all AttemptSet.fits = true := by
    simp [finishFailedAttempt, AttemptSet.fits, hlatency]
  have h1 : ∃ t, Writes.apply (Write.updateAttempt a.id (finishFailedAttempt a c.now code)) s
      = .ok { s with attempts := t } := by
    simp only [writes_apply, Write.apply, hfits, if_true]
    exact ⟨_, rfl⟩
  obtain ⟨t1, h1⟩ := h1
  have hs1 : Settleable { s with attempts := t1 } r a := hs.write (c := c) (k := r.id) h1 trivial
  have hupdate : ∀ sets, ∃ t, Writes.apply (Write.updateRun r.id sets) { s with attempts := t1 }
      = .ok { s with attempts := t1, runs := t } := fun sets => ⟨_, rfl⟩
  simp only [scheduleRetryOrFinalize, hpolicy, bind_eq, commits_bind, commits_ofExcept,
    Except.ok.injEq, exists_eq_left']
  split
  · rename_i hretry
    obtain ⟨delay, hdelay, hone⟩ := policy.delayAfterAttempt_ok hnumber
    obtain ⟨time, htime⟩ := (Timestamp.addSeconds_ok_of_nonneg (le_trans zero_le_one hone)).mpr
      (hrange policy delay hpolicy hretry.1 hretry.2 hdelay)
    simp only [hdelay, htime, commits_bind, commits_ofExcept, commits_exec,
      Except.ok.injEq, exists_eq_left']
    obtain ⟨t2, h2⟩ := hupdate (retrySets code time)
    have hs2 := hs1.write (c := c) (k := r.id) h2 trivial
    obtain ⟨r', hr', hid', -⟩ := hs2.row
    obtain ⟨s3, h3⟩ := insertEvent_ok (s := { s with attempts := t1, runs := t2 })
      (e := newEvent c r.id 0 r.id (some a.id) .runRetryScheduled _)
      (hasRun_iff.mpr ⟨r', hr', hid'⟩) (by exact hs2.attempt) (hunused.event 0 (by decide))
    exact ⟨_, h1, _, h2, s3, h3, trivial⟩
  · refine (commits_bind _ _).mpr ((commits_exec _).mpr ⟨_, h1, ?_⟩)
    split
    · obtain ⟨t2, h2⟩ := hupdate (endSets .deadLettered c.now code)
      have hs2 := hs1.write (c := c) (k := r.id) h2 trivial
      obtain ⟨t3, h3⟩ := insertOutbox_ok (s := { s with attempts := t1, runs := t2 })
        (e := deadLetterOutbox c r code) hunused.outbox
      have hs3 := hs2.write (c := c) (k := r.id) h3 ⟨rfl, rfl⟩
      refine (commits_bind _ _).mpr ((commits_exec _).mpr ⟨_, h2, ?_⟩)
      refine (commits_bind _ _).mpr ((commits_exec _).mpr ⟨_, h3, ?_⟩)
      exact endRun_commits hdraws hk hs3 hunused.event _ _ _
    · obtain ⟨t2, h2⟩ := hupdate (endSets .failed c.now code)
      have hs2 := hs1.write (c := c) (k := r.id) h2 trivial
      refine (commits_bind _ _).mpr ((commits_exec _).mpr ⟨_, h2, ?_⟩)
      exact endRun_commits hdraws hk hs2 hunused.event _ _ _

end Settling

/-- Settling a failed attempt whose numbers are out of range raises. -/
theorem scheduleRetryOrFinalize_inRange {busy : Lock → Bool} {s : Store} {c : Call} {r : Run}
    {code : String} {recovery : Bool} :
    Ensures busy (scheduleRetryOrFinalize c r a code recovery) s fun _ _ =>
      fitsInt4 (millisecondsBetween c.now a.startedAt) = true ∧ RetryInRange r a code c.now := by
  intro _ s' hrun
  constructor
  · have hfits : ∀ {s1 s2 : Store}, Writes.apply (Write.updateAttempt a.id
        (finishFailedAttempt a c.now code)) s1 = .ok s2 →
          fitsInt4 (millisecondsBetween c.now a.startedAt) = true := by
      intro s1 s2 h
      simpa [finishFailedAttempt, AttemptSet.fits] using (apply_updateAttempt h).1
    have hens : Ensures busy (scheduleRetryOrFinalize c r a code recovery) s fun _ _ =>
        fitsInt4 (millisecondsBetween c.now a.startedAt) = true := by
      simp only [scheduleRetryOrFinalize, bind_eq, ensures_bind, ensures_ofExcept]
      intro policy _
      split
      · simp only [ensures_bind, ensures_ofExcept, ensures_exec]
        exact fun _ _ _ _ s1 h1 _ _ _ _ => hfits h1
      · simp only [ensures_bind, ensures_exec]
        exact fun s1 h1 _ _ _ => hfits h1
    exact hens _ _ hrun
  · by_contra hrange
    obtain ⟨message, herror⟩ := scheduleRetryOrFinalize_overflow busy s recovery hrange
    rw [herror] at hrun
    exact absurd hrun (by simp)

section Batches

variable [Externals] {s s1 : Store} {i : Input} {busy : Lock → Bool} {c : Call} {r : Run}

omit [Externals] in
/-- Recovering a run whose numbers are out of range raises. -/
theorem recoverRun_inRange (hattempts : s1.attemptsOf r.id = s.attemptsOf r.id) :
    Ensures busy (recoverRun c r) s1 fun _ _ => RecoverableInRange s c.now r := by
  simp only [recoverRun, bind_eq, ensures_bind, ensures_latestOpenAttempt, hattempts]
  split
  · rename_i hnone
    exact (ensures_done ()).mpr fun a ha => absurd (hnone.symm.trans ha) (by simp)
  · rename_i a ha
    refine scheduleRetryOrFinalize_inRange.mono fun _ _ h a' ha' => ?_
    cases ha.symm.trans ha'
    exact h

/-- Recovering a run whose numbers are in range commits. -/
theorem recoverRun_commits (hreach : service.Reachable s) {ks : List Uuid}
    (hdraws : DrawsDistinct c ks) (hk : r.id ∈ ks) (hget : s.runs.get? r.id = some r)
    (hjobs : JobsRecorded none s1)
    (hnoted : Noted (view s r.id) (view s1 r.id)) (hunused : Unused s1 c r.id)
    (hrange : RecoverableInRange s c.now r) :
    Commits busy (recoverRun c r) s1 fun _ _ => True := by
  have hattempts : s1.attemptsOf r.id = s.attemptsOf r.id := hnoted.attempts_eq
  simp only [recoverRun, bind_eq, commits_bind]
  rw [commits_of_run_ok (run_latestOpenAttempt _), hattempts]
  split
  · exact (commits_done ()).mpr trivial
  · rename_i a ha
    obtain ⟨hmem, -⟩ := latestOpen_eq_some ha
    have hc := reachable_coherent hreach hget
    obtain ⟨policy, hpolicy, -⟩ := hc.budget (List.ne_nil_of_mem hmem)
    obtain ⟨x, hx⟩ := hnoted.run_eq hget
    have hstored : a ∈ s1.attempts.rows := by
      rw [← hattempts] at hmem
      exact (mem_select.mp hmem).1
    have hs : Settleable s1 r a :=
      ⟨hjobs, ⟨_, (mem_of_get? hx).1, rfl, rfl⟩,
        Option.isSome_iff_exists.mpr ⟨a, get?_eq_some_iff.mpr ⟨hstored, rfl⟩⟩⟩
    obtain ⟨hlatency, hretry⟩ := hrange a ha
    exact scheduleRetryOrFinalize_commits hdraws hk hs hunused hpolicy (hc.number_pos hmem)
      hlatency hretry

variable {batchSize : ℕ}

/-- **Batches.** A loop over a batch commits, if its body settles the run it is given and commits
from every store in which the ids drawn for that run are still unused. -/
theorem batch_commits {f : Run → DbTx Unit} {clause : Run → Bool} {runs : List Run}
    (hreach : service.Reachable s) (hbatch : Batch s clause runs)
    (hdraws : DrawsDistinct i.call (runs.map Run.id)) (hunused : ∀ r ∈ runs, Unused s i.call r.id)
    (hsettles : ∀ r, (f r).OnlyWrites (SettlesRun i.call r.id))
    (heffect : ∀ r ∈ runs, ∀ s1, Noted (view s r.id) (view s1 r.id) →
      Ensures i.busy (f r) s1 fun _ s2 => EffectAt s i (.count 0) r.id s1 s2)
    (hbody : ∀ r ∈ runs, ∀ s1, JobsRecorded none s1 → Noted (view s r.id) (view s1 r.id) →
      Unused s1 i.call r.id → Commits i.busy (f r) s1 fun _ _ => True) :
    Commits i.busy (forEach runs f) s fun _ _ => True := by
  refine (Commits.forEach (I := fun done rest s1 =>
    BatchState s i (.count 0) runs done rest s1
      ∧ JobsRecorded none s1 ∧ ∀ r ∈ rest, Unused s1 i.call r.id) ?_ _ [] s
    ⟨.init noted_absorbs, reachable_jobsRecorded hreach, hunused⟩).mono fun _ _ _ => trivial
  rintro done r rest s1 ⟨hstate, hjobs, hrest⟩
  obtain ⟨hmem, hfresh, hnoted⟩ := hstate.next hbatch.nodup
  have hframe : Ensures i.busy (f r) s1 fun _ s2 =>
      JobsRecorded none s2 ∧ ∀ r' ∈ rest, Unused s2 i.call r'.id := by
    refine (hsettles r).preserves (P := fun s' =>
      JobsRecorded none s' ∧ ∀ r' ∈ rest, Unused s' i.call r'.id) ?_ s1
      ⟨hjobs, fun r' hr' => hrest r' (List.mem_cons_of_mem _ hr')⟩
    rintro w s2 s3 hw happly ⟨hjobs2, hrest2⟩
    refine ⟨hjobs2.write (noJob_of_executes hw.executes) happly, fun r' hr' => ?_⟩
    have hmem' : r' ∈ runs := by
      rw [hstate.split]
      exact List.mem_append_right _ (List.mem_cons_of_mem _ hr')
    refine (hrest2 r' hr').write hdraws (List.mem_map_of_mem hmem) (List.mem_map_of_mem hmem') ?_
      hw happly
    have hnodup := hbatch.nodup
    rw [hstate.split, List.map_append, List.map_cons, List.nodup_append] at hnodup
    intro heq
    exact (List.nodup_cons.mp hnodup.2.1).1 (heq ▸ List.mem_map_of_mem hr')
  have hcommits := hbody r hmem s1 hjobs hnoted (hrest r List.mem_cons_self)
  refine ((hcommits.and_ensures (heffect r hmem s1 hnoted)).and_ensures hframe).mono ?_
  rintro _ s2 ⟨⟨-, heffects⟩, hafter⟩
  exact ⟨hstate.step noted_absorbs hfresh heffects.1 heffects.2, hafter⟩

omit [Externals] in
/-- A recovered batch has all its numbers in range. -/
theorem recoverBatch_inRange (hop : i.op = .recoverExpiredLeases batchSize) :
    Ensures i.busy (forEach (expiredBatch i batchSize s) (recoverRun i.call)) s
      fun _ _ => ∀ r ∈ expiredBatch i batchSize s, RecoverableInRange s i.call.now r := by
  have hbatch := expiredBatch_batch i batchSize s
  have hall : Ensures i.busy (forEach (expiredBatch i batchSize s) (recoverRun i.call)) s
      fun _ s' => AllEffects i (.count 0) s s'
        ∧ ∀ r ∈ expiredBatch i batchSize s, RecoverableInRange s i.call.now r := by
    refine batch_effects (Q := fun r _ => RecoverableInRange s i.call.now r)
      (fun _ _ _ _ h => h) hbatch ?_
    intro r hr s1 hnoted
    exact (recoverRun_effectAt hop (hbatch.selected r hr) (hbatch.stored r hr) hnoted).and
      (recoverRun_inRange hnoted.attempts_eq)
  exact hall.mono fun _ _ h => h.2

/-- **A batch is recovered exactly when the numbers of all its runs are in range.** -/
theorem recoverExpiredLeases_commits_iff (hreach : service.Reachable s)
    (hop : i.op = .recoverExpiredLeases batchSize)
    (hdraws : DrawsDistinct i.call ((expiredBatch i batchSize s).map Run.id))
    (hunused : ∀ r ∈ expiredBatch i batchSize s, Unused s i.call r.id) :
    (service.step s i).1.isOk = true ↔
      ∀ r ∈ expiredBatch i batchSize s, RecoverableInRange s i.call.now r := by
  have hrun := run_recover (s := s) hop
  constructor
  · exact step_of_ensures hrun (recoverBatch_inRange hop)
  · intro hrange
    have hbatch := expiredBatch_batch i batchSize s
    refine step_of_commits hrun (batch_commits hreach hbatch hdraws hunused
      (recoverRun_settlesRun i.call) (fun r hr s1 hnoted => ?_) fun r hr s1 hjobs hnoted hnew => ?_)
    · exact recoverRun_effectAt hop (hbatch.selected r hr) (hbatch.stored r hr) hnoted
    · exact recoverRun_commits hreach hdraws (List.mem_map_of_mem hr) (hbatch.stored r hr) hjobs
        hnoted hnew (hrange r hr)

/-- One run whose numbers are out of range rolls the whole batch back. -/
theorem recoverExpiredLeases_rolls_back (hop : i.op = .recoverExpiredLeases batchSize)
    (hr : r ∈ expiredBatch i batchSize s) (hrange : ¬ RecoverableInRange s i.call.now r) :
    (∃ e, (service.step s i).1 = .error e) ∧ (service.step s i).2 = s := by
  rcases service_step_cases s i with ⟨answer, s', hrun, -⟩ | ⟨e, -, hstep⟩
  · rw [run_recover hop, map_eq_ok] at hrun
    obtain ⟨p, hloop, -⟩ := hrun
    exact absurd (recoverBatch_inRange hop p.1 p.2 hloop r hr) hrange
  · rw [hstep]
    exact ⟨⟨e, rfl⟩, rfl⟩

end Batches

/-! ### Main result -/

/-- **What the check of a stored policy at claim time is worth.** On every reachable store: a
claim of a queued run under quota starts an attempt or fails the run exactly when its numbers are
in range; a reported failure raises no exception of the policy exactly when the time of the retry
is in range; a recovery batch is handled exactly when this holds of all its runs, and otherwise
nothing of it is. -/
theorem stored_policy_validation [Externals] {s : Store} (hs : service.Reachable s) (i : Input) :
    (∀ svc workerId r, i.op = .claim svc r.id workerId → s.runs.get? r.id = some r →
      r.executionStatus = .queued → ¬ runningQuotaFull svc.quotas s r → FreshIds s i.call r.id →
      (ClaimSettles r.id (service.step s i).1 (service.step s i).2
        ↔ ClaimInRange svc s r i.call.now))
    ∧ (∀ runId attemptId workerId code, i.op = .completeFailure runId attemptId workerId code →
      ((∀ e, (service.step s i).1 = .error e → ¬ PolicyError e) ↔
        ∀ r a, ActiveAttempt s i.call runId attemptId workerId r a →
          RetryInRange r a code i.call.now))
    ∧ ∀ batchSize, i.op = .recoverExpiredLeases batchSize →
      (DrawsDistinct i.call ((expiredBatch i batchSize s).map Run.id) →
        (∀ r ∈ expiredBatch i batchSize s, Unused s i.call r.id) →
        ((service.step s i).1.isOk = true ↔
          ∀ r ∈ expiredBatch i batchSize s, RecoverableInRange s i.call.now r))
      ∧ ∀ r ∈ expiredBatch i batchSize s, ¬ RecoverableInRange s i.call.now r →
        (∃ e, (service.step s i).1 = .error e) ∧ (service.step s i).2 = s := by
  refine ⟨?_, ?_, ?_⟩
  · exact fun svc workerId r hop hget hqueued hquota hfresh =>
      claimSettles_iff hs hop hget hqueued hquota hfresh
  · exact fun runId attemptId workerId code hop => completeFailure_not_policy_iff hs hop
  · intro batchSize hop
    exact ⟨recoverExpiredLeases_commits_iff hs hop, fun r hr =>
      recoverExpiredLeases_rolls_back hop hr⟩

/-- The leases of three runs expire, each with numbers of its own: their batch is recovered. -/
theorem stored_policy_validation_sample :
    let submit n tenant policy :=
      sampleInput 0 n (.submit sampleRunService tenant "key" [] policy none)
    let s := sampleService.after
      [submit 1 "first" [("max_attempts", .int 1)],
        submit 2 "second" [("initial_backoff_seconds", .int 30), ("max_backoff_seconds", .int 90)],
        submit 3 "third" [("max_attempts", .int 5)],
        sampleClaim 1 4 1, sampleClaim 2 5 2, sampleClaim 3 6 3]
    let i := sampleInput 200 7 (.recoverExpiredLeases 100)
    (expiredBatch i 100 s).map Run.id = [sampleUuid 1, sampleUuid 2, sampleUuid 3]
      ∧ (∀ r ∈ expiredBatch i 100 s, RecoverableInRange s i.call.now r)
      ∧ (sampleService.step s i).2.runs.rows.map Run.executionStatus
        = [.deadLettered, .retryScheduled, .retryScheduled] := by
  intro submit s i
  have hreach : sampleService.Reachable s := ⟨_, rfl⟩
  have hbatch : (expiredBatch i 100 s).map Run.id = [sampleUuid 1, sampleUuid 2, sampleUuid 3] := by
    decide +kernel
  have hnew : ∀ k ∈ [sampleUuid 1, sampleUuid 2, sampleUuid 3],
      (∀ index < 2, s.events.get? (i.call.eventId k index) = none)
        ∧ s.outbox.get? (i.call.outboxId k) = none := by
    decide +kernel
  have hok : (sampleService.step s i).1.isOk = true := by
    decide +kernel
  have hafter : (sampleService.step s i).2.runs.rows.map Run.executionStatus
      = [.deadLettered, .retryScheduled, .retryScheduled] := by
    decide +kernel
  clear_value s
  have hdraws : DrawsDistinct i.call ((expiredBatch i 100 s).map Run.id) := by
    rw [hbatch]
    exact ⟨by decide +kernel, by decide +kernel⟩
  have hunused : ∀ r ∈ expiredBatch i 100 s, Unused s i.call r.id := by
    intro r hr
    obtain ⟨hevent, houtbox⟩ := hnew r.id (hbatch ▸ List.mem_map_of_mem hr)
    exact ⟨hevent, houtbox⟩
  exact ⟨hbatch, (((@stored_policy_validation sampleExternals s hreach i).2.2 100 rfl).1 hdraws
    hunused).mp hok, hafter⟩

/-- An integer beyond the float range makes the claim raise, and a delay beyond the range of
`timedelta` makes a recovery batch raise, which leaves the healthy run of another tenant with its
expired lease. -/
theorem unchecked_numbers_raise :
    let claimed := sampleService.step
      (sampleService.after [sampleSubmit 0 1 [("max_backoff_seconds", .int (10 ^ 400))]])
      (sampleClaim 1 2 1)
    let running := sampleService.after
      [sampleSubmit 0 1 [("initial_backoff_seconds", .int (10 ^ 20)),
          ("max_backoff_seconds", .int (10 ^ 20))],
        sampleInput 0 2 (.submit sampleRunService "other" "key" [] [] none),
        sampleClaim 1 3 1, sampleClaim 1 4 2]
    let recovered := sampleService.step running (sampleInput 200 5 (.recoverExpiredLeases 100))
    raised claimed.1 = some (.overflowError "int too large to convert to float")
      ∧ claimed.2.runs.rows.map Run.executionStatus = [.queued]
      ∧ running.runs.rows.map (leaseExpired (sampleTime 200)) = [true, true]
      ∧ raised recovered.1 = some (.overflowError "days out of range")
      ∧ recovered.2.runs.rows.map (leaseExpired (sampleTime 200)) = [true, true] := by
  decide +kernel

end AgentRuntime.Lifecycle
