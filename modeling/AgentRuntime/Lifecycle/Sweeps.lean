import AgentRuntime.Lib.Binary64Exact
import AgentRuntime.Lifecycle.PolicyRange

/-!
# What the sweeps do with running and scheduled runs

In a reachable store the columns that the two schedulers select by are set exactly where they are
needed, so every running run is found once its lease has expired and every scheduled one once it is
due. Scheduling then queues its whole batch. Recovery settles its batch exactly if the numbers of
all its runs are in range; the latency of an attempt that started 25 days ago is not.

* `scheduleDueRetries_commits`: scheduling does not raise;
* `RecoveredOnceExpired`, `reachable_recovers`: running runs;
* `RequeuedOnceDue`, `reachable_requeues`: scheduled runs;
* `late_run_stays`: a recovery that comes too late.
-/

namespace AgentRuntime.Lifecycle

open Lib Domain Database Application

/-! ### Scheduling commits -/

section Scheduling

variable {s : Store} {i : Input} {r : Run} {busy : Lock → Bool} {c : Call} {batchSize : ℕ}

theorem requeueRun_commits (hrun : s.hasRun r.id = true) (hunused : Unused s c r.id) :
    Tx.Commits busy (requeueRun c r) s fun _ _ => True := by
  obtain ⟨t1, h1⟩ : ∃ t, Writes.apply (Write.updateRun r.id requeueSets) s
      = .ok { s with runs := t } := ⟨_, rfl⟩
  obtain ⟨t2, h2⟩ := insertOutbox_ok (s := { s with runs := t1 }) (e := queuedOutbox c r.id
    [("trace_context", .obj r.traceContext), ("reason", .str "retry_due")]) hunused.outbox
  have hrun1 : Store.hasRun { s with runs := t1, outbox := t2 } r.id = true := by
    obtain ⟨r', hr', hid'⟩ := hasRun_iff.mp hrun
    obtain ⟨r1, hr1, hid1, -⟩ := run_kept h1 hr'
    exact hasRun_iff.mpr ⟨r1, hr1, hid1.trans hid'⟩
  obtain ⟨s3, h3⟩ := insertEvent_ok (s := { s with runs := t1, outbox := t2 })
    (e := newEvent c r.id 0 r.id none .runRetryQueued [("scheduled_at", .time c.now)])
    hrun1 rfl (hunused.event 0 (by decide))
  simp only [requeueRun, Tx.bind_eq, Tx.commits_bind, Tx.commits_exec]
  exact ⟨_, h1, _, h2, s3, h3, trivial⟩

/-- **A scheduling call with new ids commits.** -/
theorem scheduleDueRetries_commits [Externals] (hreach : service.Reachable s)
    (hop : i.op = .scheduleDueRetries batchSize)
    (hdraws : DrawsDistinct i.call ((dueBatch i batchSize s).map Run.id))
    (hunused : ∀ r ∈ dueBatch i batchSize s, Unused s i.call r.id) :
    (service.step s i).1.isOk = true := by
  have hbatch := dueBatch_batch i batchSize s
  refine step_of_commits (run_schedule hop) (batch_commits hreach hbatch hdraws hunused
    (requeueRun_settlesRun i.call) (fun r hr s1 hnoted => ?_) fun r hr s1 _ hnoted hnew => ?_)
  · obtain ⟨x, hx⟩ := hnoted.run_eq (hbatch.stored r hr)
    exact requeueRun_effectAt hop (hbatch.selected r hr) hx
  · obtain ⟨x, hx⟩ := hnoted.run_eq (hbatch.stored r hr)
    exact requeueRun_commits (hasRun_iff.mpr ⟨_, (Table.mem_of_get? hx).1, rfl⟩) hnew

end Scheduling

/-! ### Running and scheduled runs of a reachable store -/

/-- **A running run is found once its lease has expired, and settled if its batch is in range.** It
has a lease that ends and exactly one open attempt; every recovery call after the end selects it,
unless the row is locked or the batch is full. A call that has selected it ends the lease if it
commits; with new ids it does exactly if the numbers of all runs of the batch are in range, and it
raises and leaves everything as it was if those of one are not. -/
structure RecoveredOnceExpired [Externals] (s : Store) (r : Run) : Prop where
  expiry : ∃ t, r.executionLeaseExpiresAt = some t ∧
    ∀ now, leaseExpired now r = true ↔ t ≤ now
  attempt : ∃ a, latestOpen (s.attemptsOf r.id) = some a ∧
    ∀ b ∈ s.attemptsOf r.id, b.finishedAt = none ↔ b = a
  selected : ∀ (i : Input) (batchSize : ℕ), leaseExpired i.call.now r = true →
    i.busy (.run r.id) = false →
    (s.runs.select (leaseExpired i.call.now)).length ≤ batchSize → r ∈ expiredBatch i batchSize s
  committed : ∀ (i : Input) (batchSize : ℕ), i.op = .recoverExpiredLeases batchSize →
    r ∈ expiredBatch i batchSize s → (service.step s i).1.isOk = true →
    StatusIs (· ≠ some .running) r.id (service.step s i).2
  processed : ∀ (i : Input) (batchSize : ℕ), i.op = .recoverExpiredLeases batchSize →
    r ∈ expiredBatch i batchSize s →
    DrawsDistinct i.call ((expiredBatch i batchSize s).map Run.id) →
    (∀ x ∈ expiredBatch i batchSize s, Unused s i.call x.id) →
    (StatusIs (· ≠ some .running) r.id (service.step s i).2
      ↔ ∀ x ∈ expiredBatch i batchSize s, RecoverableInRange s i.call.now x)
  rolledBack : ∀ (i : Input) (batchSize : ℕ), i.op = .recoverExpiredLeases batchSize →
    r ∈ expiredBatch i batchSize s →
    (∃ x ∈ expiredBatch i batchSize s, ¬ RecoverableInRange s i.call.now x) →
    (∃ e, (service.step s i).1 = .error e) ∧ (service.step s i).2 = s

/-- **A scheduled run is found and queued once it is due.** A call that has selected it queues it if
it commits, and with new ids it does. -/
structure RequeuedOnceDue [Externals] (s : Store) (r : Run) : Prop where
  due : ∃ t, r.nextAttemptAt = some t ∧ ∀ now, retryDue now r = true ↔ t ≤ now
  selected : ∀ (i : Input) (batchSize : ℕ), retryDue i.call.now r = true →
    i.busy (.run r.id) = false →
    (s.runs.select (retryDue i.call.now)).length ≤ batchSize → r ∈ dueBatch i batchSize s
  committed : ∀ (i : Input) (batchSize : ℕ), i.op = .scheduleDueRetries batchSize →
    r ∈ dueBatch i batchSize s → (service.step s i).1.isOk = true →
    StatusIs (· = some .queued) r.id (service.step s i).2
  processed : ∀ (i : Input) (batchSize : ℕ), i.op = .scheduleDueRetries batchSize →
    r ∈ dueBatch i batchSize s →
    DrawsDistinct i.call ((dueBatch i batchSize s).map Run.id) →
    (∀ x ∈ dueBatch i batchSize s, Unused s i.call x.id) →
    (service.step s i).1.isOk = true ∧ StatusIs (· = some .queued) r.id (service.step s i).2

section Reachable

variable [Externals] {s : Store} {r : Run}

theorem reachable_recovers (hreach : service.Reachable s) (hr : r ∈ s.runs.rows)
    (hrunning : r.executionStatus = .running) : RecoveredOnceExpired s r := by
  have hget : s.runs.get? r.id = some r := Table.get?_eq_some_iff.mpr ⟨hr, rfl⟩
  have hcoherent := reachable_coherent hreach hget
  refine ⟨?expiry, hcoherent.latestOpen_eq hrunning, fun i batchSize => mem_batch hget,
    fun i batchSize => recoverExpiredLeases_leaves hreach, ?processed, ?rolledBack⟩
  case expiry =>
    obtain ⟨t, ht⟩ := Option.isSome_iff_exists.mp (hcoherent.expiry.mpr hrunning)
    exact ⟨t, ht, fun now => by simp [leaseExpired, hrunning, ht]⟩
  case processed =>
    intro i batchSize hop hmem hdraws hunused
    rw [← recoverExpiredLeases_commits_iff hreach hop hdraws hunused]
    refine ⟨fun hstatus => ?_, recoverExpiredLeases_leaves hreach hop hmem⟩
    -- a call that raises leaves the run running
    rcases service_step_cases s i with ⟨answer, s', -, hstep⟩ | ⟨e, -, hstep⟩
    · rw [hstep]
      rfl
    · rw [hstep, StatusIs, view_run, hget, Option.map_some, hrunning] at hstatus
      exact absurd rfl hstatus
  case rolledBack =>
    rintro i batchSize hop - ⟨x, hx, hrange⟩
    exact recoverExpiredLeases_rolls_back hop hx hrange

theorem reachable_requeues (hreach : service.Reachable s) (hr : r ∈ s.runs.rows)
    (hscheduled : r.executionStatus = .retryScheduled) : RequeuedOnceDue s r := by
  have hget : s.runs.get? r.id = some r := Table.get?_eq_some_iff.mpr ⟨hr, rfl⟩
  have hcoherent := reachable_coherent hreach hget
  refine ⟨?_, fun i batchSize => mem_batch hget, fun i batchSize => scheduleDueRetries_queues, ?_⟩
  · obtain ⟨t, ht⟩ := Option.isSome_iff_exists.mp (hcoherent.next.mpr hscheduled)
    exact ⟨t, ht, fun now => by simp [retryDue, hscheduled, ht]⟩
  · intro i batchSize hop hmem hdraws hunused
    have hok := scheduleDueRetries_commits hreach hop hdraws hunused
    exact ⟨hok, scheduleDueRetries_queues hop hmem hok⟩

end Reachable

/-! ### Recovering too late -/

/-- A latency in milliseconds is at least what its whole seconds make. -/
theorem le_millisecondsBetween {t t' : Timestamp} {seconds : ℕ}
    (h : t'.micros + 1000000 * seconds ≤ t.micros) (hsmall : 1000 * seconds < 2 ^ 53) :
    1000 * (seconds : ℤ) ≤ millisecondsBetween t t' := by
  have hexact : (seconds : ℚ) ≤ ((t.micros : ℤ) - t'.micros : ℤ) / 1000000 := by
    have hle : 1000000 * (seconds : ℤ) ≤ (t.micros : ℤ) - t'.micros := by omega
    have hle' : 1000000 * (seconds : ℚ) ≤ ((t.micros : ℤ) - t'.micros : ℤ) := by exact_mod_cast hle
    rw [le_div_iff₀ (by norm_num)]
    linarith
  have hseconds := natCast_le_roundBinary64 (by omega) hexact
  have hmillis : ((1000 * seconds : ℕ) : ℚ)
      ≤ roundBinary64 (((t.micros : ℤ) - t'.micros : ℤ) / 1000000) * 1000 := by
    rw [Nat.cast_mul, Nat.cast_ofNat]
    linarith
  have hround := natCast_le_roundBinary64 hsmall hmillis
  unfold millisecondsBetween
  rw [truncate_eq_floor (le_trans (Nat.cast_nonneg _) hround), Int.le_floor]
  exact_mod_cast hround

/-- **An attempt that started 25 days ago cannot be recovered**: its latency does not fit the
column. -/
theorem late_not_recoverable {s : Store} {r : Run} {a : RunAttempt} {now : Timestamp}
    (hopen : latestOpen (s.attemptsOf r.id) = some a)
    (hlate : a.startedAt.micros + 1000000 * (25 * 86400) ≤ now.micros) :
    ¬ RecoverableInRange s now r := by
  intro hrange
  have hfits := (hrange a hopen).1
  have hle := le_millisecondsBetween hlate (by norm_num)
  unfold fitsInt4 at hfits
  rw [decide_eq_true_eq] at hfits
  omega

/-- From then on every recovery call that finds the run raises and changes nothing. -/
theorem late_run_stays [Externals] {s : Store} (hreach : service.Reachable s) {r : Run}
    (hr : r ∈ s.runs.rows) (hrunning : r.executionStatus = .running) {late : Timestamp}
    (hexpired : leaseExpired late r = true)
    (hlate : ∀ a ∈ latestOpen (s.attemptsOf r.id),
      a.startedAt.micros + 1000000 * (25 * 86400) ≤ late.micros)
    {i : Input} {batchSize : ℕ} (hop : i.op = .recoverExpiredLeases batchSize)
    (hnow : late ≤ i.call.now) (hfree : i.busy (.run r.id) = false)
    (hroom : (s.runs.select (leaseExpired i.call.now)).length ≤ batchSize) :
    r ∈ expiredBatch i batchSize s
      ∧ (∃ e, (service.step s i).1 = .error e) ∧ (service.step s i).2 = s := by
  have hrecovers := reachable_recovers hreach hr hrunning
  obtain ⟨t, -, hends⟩ := hrecovers.expiry
  obtain ⟨a, hopen, -⟩ := hrecovers.attempt
  have hselected := hrecovers.selected i batchSize
    ((hends _).mpr (((hends _).mp hexpired).trans hnow)) hfree hroom
  exact ⟨hselected, hrecovers.rolledBack i batchSize hop hselected
    ⟨r, hselected, late_not_recoverable hopen ((hlate a hopen).trans hnow)⟩⟩

end AgentRuntime.Lifecycle
