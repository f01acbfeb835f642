import AgentRuntime.Lib.Least
import AgentRuntime.Security.Envelope

/-!
# Purging the audit trail

`purge_expired_audit_events` deletes the rows before the cutoff in batches, each in a transaction of
its own, and reports what it did. Between two batches other transactions may add rows; none of them
is before the cutoff.

* `purgeBatch`, `purgeLoop`, `purgeExpiredAuditEvents`: the purge;
* `Purged`: what a sequence of batches took and left, with `Purged.cons` for one batch more;
* `purgeLoop_purged`: the loop ends, and what it took, left and reports;
* `purge_truthful_iff`: when `stopped_early` says whether expired rows are left.
-/

namespace AgentRuntime.Security

open Lib Domain

/-! ### The purge -/

/-- The settings a purge reads. -/
structure PurgeSettings where
  auditRetentionDays : Option ℕ
  auditPurgeBatchSize : ℕ

/-- `PurgeReport`. -/
structure PurgeReport where
  dryRun : Bool
  cutoff : Timestamp
  retentionDays : ℕ
  batchSize : ℕ
  eligible : ℕ
  deleted : ℕ
  batches : List ℕ
  stoppedEarly : Bool
  deriving DecidableEq

/-- `resolve_cutoff(settings, now=now)`. -/
def resolveCutoff (settings : PurgeSettings) (now : Timestamp) : Except PyError Timestamp :=
  match settings.auditRetentionDays with
  | none => .error (.retentionDisabledError
      "Audit retention is disabled; set APP_AUDIT_RETENTION_DAYS to enable it.")
  | some days => now.addSeconds (-(86400 * days))

/-- `created_at < :cutoff`. -/
def isExpired (cutoff : Timestamp) (e : SecurityAuditEvent) : Bool := decide (e.createdAt < cutoff)

/-- `count_expired`. -/
def countExpired (cutoff : Timestamp) (rows : List SecurityAuditEvent) : ℕ :=
  rows.countP (isExpired cutoff)

/-- `purge_batch`: how many rows were deleted, and the rows that stay. -/
def purgeBatch (cutoff : Timestamp) (batchSize : ℕ) (rows : List SecurityAuditEvent) :
    ℕ × List SecurityAuditEvent :=
  ((least (isExpired cutoff) SecurityAuditEvent.createdAt batchSize rows).length,
    withoutLeast (isExpired cutoff) SecurityAuditEvent.createdAt batchSize rows)

/-- The `while` loop with its `else`. Before the batch `batches` the rows `arrivals batches` have
been added. `none` is a loop that has not ended within `fuel` rounds. -/
def purgeLoop (cutoff : Timestamp) (batchSize : ℕ) (maxBatches : Option ℤ)
    (arrivals : ℕ → List SecurityAuditEvent) :
    ℕ → ℕ → PurgeReport → List SecurityAuditEvent → Option (PurgeReport × List SecurityAuditEvent)
  | 0, _, _, _ => none
  | fuel + 1, batches, report, rows =>
    if maxBatches.all fun limit => decide ((batches : ℤ) < limit) then
      let (removed, kept) := purgeBatch cutoff batchSize (rows ++ arrivals batches)
      if removed = 0 then some (report, kept)
      else purgeLoop cutoff batchSize maxBatches arrivals fuel (batches + 1)
        { report with
          deleted := report.deleted + removed
          batches := report.batches ++ [removed] } kept
    else some ({ report with stoppedEarly := true }, rows)

/-- The report before anything is deleted. -/
def openingReport (settings : PurgeSettings) (dryRun : Bool) (cutoff : Timestamp) (eligible : ℕ) :
    PurgeReport where
  dryRun := dryRun
  cutoff := cutoff
  retentionDays := settings.auditRetentionDays.getD 0
  batchSize := settings.auditPurgeBatchSize
  eligible := eligible
  deleted := 0
  batches := []
  stoppedEarly := false

/-- `purge_expired_audit_events`. -/
def purgeExpiredAuditEvents (fuel : ℕ) (settings : PurgeSettings) (dryRun : Bool)
    (maxBatches : Option ℤ) (now : Timestamp) (arrivals : ℕ → List SecurityAuditEvent)
    (rows : List SecurityAuditEvent) :
    Except PyError (Option (PurgeReport × List SecurityAuditEvent)) := do
  let cutoff ← resolveCutoff settings now
  let eligible := countExpired cutoff rows
  let report := openingReport settings dryRun cutoff eligible
  if dryRun ∨ eligible = 0 then return some (report, rows)
  return purgeLoop cutoff settings.auditPurgeBatchSize maxBatches arrivals fuel 0 report rows

/-! ### What batches take and leave -/

variable {cutoff : Timestamp} {batchSize : ℕ} {rows arrived kept : List SecurityAuditEvent}
  {batches : List (List SecurityAuditEvent)}

/-- `batches` were taken one after the other from `rows`, while `arrived` was added, and `kept` is
left: only expired rows are taken, oldest first, and every batch but the last is full. -/
structure Purged (cutoff : Timestamp) (batchSize : ℕ) (rows arrived : List SecurityAuditEvent)
    (batches : List (List SecurityAuditEvent)) (kept : List SecurityAuditEvent) : Prop where
  perm : (rows ++ arrived).Perm (batches.flatten ++ kept)
  sublist : kept.Sublist (rows ++ arrived)
  arrived_fresh : ∀ e ∈ arrived, isExpired cutoff e = false
  expired : ∀ e ∈ batches.flatten, isExpired cutoff e = true
  oldest_first : batches.flatten.Pairwise fun d e => d.createdAt ≤ e.createdAt
  oldest : ∀ d ∈ batches.flatten, ∀ e ∈ kept, isExpired cutoff e = true →
    d.createdAt ≤ e.createdAt
  size : ∀ batch ∈ batches, 1 ≤ batch.length ∧ batch.length ≤ batchSize
  full : ∀ batch ∈ batches.dropLast, batch.length = batchSize

theorem Purged.nil (harrived : ∀ e ∈ arrived, isExpired cutoff e = false)
    (hperm : kept.Perm (rows ++ arrived)) (hsub : kept.Sublist (rows ++ arrived)) :
    Purged cutoff batchSize rows arrived [] kept where
  perm := hperm.symm
  sublist := hsub
  arrived_fresh := harrived
  expired := by simp
  oldest_first := List.Pairwise.nil
  oldest := by simp
  size := by simp
  full := by simp

/-- The rows a batch takes. -/
def batchRows (cutoff : Timestamp) (batchSize : ℕ) (rows : List SecurityAuditEvent) :
    List SecurityAuditEvent :=
  (least (isExpired cutoff) SecurityAuditEvent.createdAt batchSize rows).map Prod.fst

theorem purgeBatch_fst : (purgeBatch cutoff batchSize rows).1
    = (batchRows cutoff batchSize rows).length := by
  unfold purgeBatch batchRows
  rw [List.length_map]

theorem length_batchRows : (batchRows cutoff batchSize rows).length
    = min batchSize (countExpired cutoff rows) := by
  unfold batchRows countExpired
  rw [List.length_map, length_least]

theorem perm_purgeBatch : rows.Perm
    (batchRows cutoff batchSize rows ++ (purgeBatch cutoff batchSize rows).2) := perm_least

theorem countExpired_purgeBatch : countExpired cutoff (purgeBatch cutoff batchSize rows).2
    = countExpired cutoff rows - batchSize := countP_withoutLeast

theorem isExpired_of_mem_batchRows {e : SecurityAuditEvent}
    (h : e ∈ batchRows cutoff batchSize rows) : isExpired cutoff e = true := by
  obtain ⟨r, hr, rfl⟩ := List.mem_map.mp h
  exact (mem_of_mem_least hr).2

variable {fresh : List SecurityAuditEvent}

theorem countExpired_append_fresh (h : ∀ e ∈ fresh, isExpired cutoff e = false) :
    countExpired cutoff (rows ++ fresh) = countExpired cutoff rows := by
  have hnone : fresh.countP (isExpired cutoff) = 0 :=
    List.countP_eq_zero.mpr fun e he => by simp [h e he]
  unfold countExpired
  rw [List.countP_append, hnone, Nat.add_zero]

/-- **One batch more** in front of a sequence of batches. -/
theorem Purged.cons (hfresh : ∀ e ∈ fresh, isExpired cutoff e = false)
    (hne : (batchRows cutoff batchSize (rows ++ fresh)).length ≠ 0)
    (h : Purged cutoff batchSize (purgeBatch cutoff batchSize (rows ++ fresh)).2 arrived batches
      kept) :
    Purged cutoff batchSize rows (fresh ++ arrived)
      (batchRows cutoff batchSize (rows ++ fresh) :: batches) kept := by
  set gone := batchRows cutoff batchSize (rows ++ fresh) with hgone
  set left := (purgeBatch cutoff batchSize (rows ++ fresh)).2 with hleft
  -- an expired row that is there after the batch was there before it
  have hold : ∀ e, e ∈ left ++ arrived → isExpired cutoff e = true → e ∈ left := by
    intro e he hexpired
    rcases List.mem_append.mp he with hleft | harrived
    · exact hleft
    · rw [h.arrived_fresh e harrived] at hexpired
      cases hexpired
  have hlater : ∀ e ∈ batches.flatten, e ∈ left := fun e he =>
    hold e (h.perm.mem_iff.mpr (List.mem_append_left _ he)) (h.expired e he)
  have hbefore : ∀ d ∈ gone, ∀ e ∈ left, isExpired cutoff e = true → d.createdAt ≤ e.createdAt :=
    fun d hd e he hexpired => key_le_of_mem_least hd he hexpired
  refine ⟨?perm, ?sublist, ?arrived, ?expired, ?first, ?oldest, ?size, ?full⟩
  case perm =>
    have hbatch : (rows ++ fresh).Perm (gone ++ left) := perm_purgeBatch
    calc (rows ++ (fresh ++ arrived)).Perm ((gone ++ left) ++ arrived) := by
          rw [← List.append_assoc]
          exact hbatch.append_right arrived
      _ = gone ++ (left ++ arrived) := List.append_assoc _ _ _
      List.Perm _ (gone ++ (batches.flatten ++ kept)) := h.perm.append_left gone
      _ = (gone :: batches).flatten ++ kept := by rw [List.flatten_cons, List.append_assoc]
  case sublist =>
    have hsub : left.Sublist (rows ++ fresh) := withoutLeast_sublist
    rw [← List.append_assoc]
    exact h.sublist.trans (hsub.append_right arrived)
  case arrived =>
    intro e he
    rcases List.mem_append.mp he with hnow | hthen
    · exact hfresh e hnow
    · exact h.arrived_fresh e hthen
  case expired =>
    intro e he
    rw [List.flatten_cons, List.mem_append] at he
    exact he.elim isExpired_of_mem_batchRows (h.expired e)
  case first =>
    rw [List.flatten_cons, List.pairwise_append]
    refine ⟨least_sorted, h.oldest_first, fun d hd e he => ?_⟩
    exact hbefore d hd e (hlater e he) (h.expired e he)
  case oldest =>
    intro d hd e he hexpired
    rw [List.flatten_cons, List.mem_append] at hd
    rcases hd with hgone | hflat
    · exact hbefore d hgone e (hold e (h.sublist.subset he) hexpired) hexpired
    · exact h.oldest d hflat e he hexpired
  case size =>
    intro batch hbatch
    rcases List.mem_cons.mp hbatch with rfl | hmem
    · rw [hgone, length_batchRows] at hne ⊢
      omega
    · exact h.size batch hmem
  case full =>
    cases batches with
    | nil => simp
    | cons next others =>
      intro batch hbatch
      rw [List.dropLast_cons_cons, List.mem_cons] at hbatch
      rcases hbatch with rfl | hmem
      · -- rows are left for another batch, so this one is full
        obtain ⟨e, he⟩ := List.exists_mem_of_length_pos (h.size next List.mem_cons_self).1
        have hflat : e ∈ (next :: others).flatten := by
          rw [List.flatten_cons]
          exact List.mem_append_left _ he
        have hpos : 0 < countExpired cutoff left :=
          List.countP_pos_iff.mpr ⟨e, hlater e hflat, h.expired e hflat⟩
        rw [hleft, countExpired_purgeBatch] at hpos
        rw [hgone, length_batchRows]
        omega
      · exact h.full batch hmem

/-! ### The loop -/

/-- How many batches `expired` rows fill, the last one perhaps in part. -/
def batchesFor (expired batchSize : ℕ) : ℕ := (expired + batchSize - 1) / batchSize

theorem batchesFor_zero (hsize : 1 ≤ batchSize) : batchesFor 0 batchSize = 0 := by
  unfold batchesFor
  exact Nat.div_eq_of_lt (by omega)

theorem batchesFor_step {n : ℕ} (hsize : 1 ≤ batchSize) (hn : 0 < n) :
    batchesFor n batchSize = batchesFor (n - batchSize) batchSize + 1 := by
  unfold batchesFor
  have hnext : n + batchSize - 1 = (n - 1) + batchSize := by omega
  rw [hnext, Nat.add_div_right _ (by omega)]
  by_cases hmore : batchSize ≤ n
  · have hrest : n - batchSize + batchSize - 1 = n - 1 := by omega
    rw [hrest]
  · have hlast : n - batchSize = 0 := by omega
    rw [hlast, Nat.div_eq_of_lt (by omega), Nat.div_eq_of_lt (by omega)]

/-- Batches that cannot take all the rows leave some. -/
theorem lt_batchesFor_iff {n m : ℕ} (hsize : 1 ≤ batchSize) :
    m < batchesFor n batchSize ↔ batchSize * m < n := by
  unfold batchesFor
  rw [Nat.lt_iff_add_one_le, Nat.le_div_iff_mul_le hsize, Nat.succ_mul, Nat.mul_comm m]
  omega

/-- The cap is not above `n`. -/
def capWithin (maxBatches : Option ℤ) (n : ℕ) : Bool :=
  maxBatches.any fun limit => decide (limit ≤ (n : ℤ))

/-- How many of `n` expired rows are left from the batch `i` on. -/
def leftOver (maxBatches : Option ℤ) (batchSize i n : ℕ) : ℕ :=
  match maxBatches with
  | none => 0
  | some limit => n - batchSize * (limit - i).toNat

theorem leftOver_zero (maxBatches : Option ℤ) (i : ℕ) : leftOver maxBatches batchSize i 0 = 0 := by
  cases maxBatches <;> simp [leftOver]

variable {maxBatches : Option ℤ}

/-- One batch more before the cap is reached. -/
theorem leftOver_step {i : ℕ} (n : ℕ)
    (hcap : (maxBatches.all fun limit => decide ((i : ℤ) < limit)) = true) :
    leftOver maxBatches batchSize (i + 1) (n - batchSize) = leftOver maxBatches batchSize i n := by
  cases maxBatches with
  | none => rfl
  | some limit =>
    have hlt : (i : ℤ) < limit := by simpa using hcap
    have hrounds : (limit - i).toNat = (limit - (i + 1 : ℕ)).toNat + 1 := by omega
    show n - batchSize - batchSize * (limit - (i + 1 : ℕ)).toNat
      = n - batchSize * (limit - i).toNat
    rw [hrounds, Nat.mul_succ]
    omega

/-- The report after batches of these sizes. -/
def PurgeReport.after (report : PurgeReport) (sizes : List ℕ) (stopped : Bool) : PurgeReport :=
  { report with
    deleted := report.deleted + sizes.sum
    batches := report.batches ++ sizes
    stoppedEarly := report.stoppedEarly || stopped }

variable {arrivals : ℕ → List SecurityAuditEvent}

/-- These rows arrived, if the rounds from `i` on were one for each batch, and perhaps a last one. -/
def Arrived (arrivals : ℕ → List SecurityAuditEvent) (i batches : ℕ)
    (arrived : List SecurityAuditEvent) : Prop :=
  ∃ rounds, batches ≤ rounds ∧ rounds ≤ batches + 1
    ∧ arrived = (List.range' i rounds).flatMap arrivals

/-- **The loop ends**, has taken and left what `Purged` says, and reports it; `stopped_early` is
the comparison of the cap with the number of batches there are. -/
theorem purgeLoop_purged (maxBatches : Option ℤ) (hsize : 1 ≤ batchSize)
    (harrivals : ∀ i, ∀ e ∈ arrivals i, isExpired cutoff e = false) (fuel i : ℕ)
    (report : PurgeReport) (rows : List SecurityAuditEvent)
    (hfuel : countExpired cutoff rows < fuel) :
    ∃ arrived batches kept,
      purgeLoop cutoff batchSize maxBatches arrivals fuel i report rows
        = some (report.after (batches.map List.length)
            (capWithin maxBatches (i + batchesFor (countExpired cutoff rows) batchSize)), kept)
      ∧ Purged cutoff batchSize rows arrived batches kept
      ∧ Arrived arrivals i batches.length arrived
      ∧ countExpired cutoff kept = leftOver maxBatches batchSize i (countExpired cutoff rows) := by
  induction fuel generalizing i report rows with
  | zero => omega
  | succ fuel ih =>
    unfold purgeLoop
    by_cases hcap : (maxBatches.all fun limit => decide ((i : ℤ) < limit)) = true
    · have hcount : countExpired cutoff (rows ++ arrivals i) = countExpired cutoff rows :=
        countExpired_append_fresh (harrivals i)
      rw [if_pos hcap]
      dsimp only
      rw [purgeBatch_fst]
      by_cases hempty : (batchRows cutoff batchSize (rows ++ arrivals i)).length = 0
      · -- nothing was expired: the loop breaks
        have hzero : countExpired cutoff rows = 0 := by
          rw [length_batchRows, hcount] at hempty
          omega
        have hopen : capWithin maxBatches i = false := by
          unfold capWithin
          cases maxBatches with
          | none => rfl
          | some limit =>
            have hlt : (i : ℤ) < limit := by simpa using hcap
            simpa using hlt
        have hperm : (rows ++ arrivals i).Perm
            (purgeBatch cutoff batchSize (rows ++ arrivals i)).2 := by
          have hsplit : (rows ++ arrivals i).Perm (batchRows cutoff batchSize (rows ++ arrivals i)
              ++ (purgeBatch cutoff batchSize (rows ++ arrivals i)).2) := perm_purgeBatch
          rwa [List.length_eq_zero_iff.mp hempty, List.nil_append] at hsplit
        rw [if_pos hempty]
        refine ⟨arrivals i, [], _, ?_, Purged.nil (harrivals i) hperm.symm withoutLeast_sublist,
          ⟨1, by simp, by simp, by simp⟩, ?_⟩
        · rw [hzero, batchesFor_zero hsize, Nat.add_zero, hopen]
          simp [PurgeReport.after]
        · rw [countExpired_purgeBatch, hcount, hzero, leftOver_zero, Nat.zero_sub]
      · have hpos : 0 < countExpired cutoff rows := by
          rw [length_batchRows, hcount] at hempty
          omega
        have hrest : countExpired cutoff (purgeBatch cutoff batchSize (rows ++ arrivals i)).2
            = countExpired cutoff rows - batchSize := by
          rw [countExpired_purgeBatch, hcount]
        rw [if_neg hempty]
        obtain ⟨_, batches, kept, hloop, hpurged, ⟨rounds, hlow, hhigh, rfl⟩, hleft⟩ := ih (i + 1)
          { report with
            deleted := report.deleted + (batchRows cutoff batchSize (rows ++ arrivals i)).length
            batches := report.batches
              ++ [(batchRows cutoff batchSize (rows ++ arrivals i)).length] }
          (purgeBatch cutoff batchSize (rows ++ arrivals i)).2 (by omega)
        refine ⟨arrivals i ++ _, _ :: batches, kept, ?_, hpurged.cons (harrivals i) hempty,
          ⟨rounds + 1, by simpa using hlow, by simpa using hhigh, by simp [List.range'_succ]⟩, ?_⟩
        · have hbatches : i + 1 + batchesFor (countExpired cutoff rows - batchSize) batchSize
              = i + batchesFor (countExpired cutoff rows) batchSize := by
            rw [batchesFor_step hsize hpos]
            omega
          rw [hloop, hrest, hbatches]
          simp [PurgeReport.after, Nat.add_assoc]
        · rw [hleft, hrest, leftOver_step _ hcap]
    · -- the cap is reached: the `else` branch
      obtain ⟨limit, rfl, hlimit⟩ : ∃ limit, maxBatches = some limit ∧ limit ≤ (i : ℤ) := by
        cases maxBatches with
        | none => exact absurd rfl hcap
        | some limit => exact ⟨limit, rfl, by simpa using hcap⟩
      rw [if_neg hcap]
      refine ⟨[], [], rows, ?_, Purged.nil (by simp) (by simp) (by simp),
        ⟨0, by simp, by simp, by simp⟩, ?_⟩
      · have hwithin : capWithin (some limit)
            (i + batchesFor (countExpired cutoff rows) batchSize) = true := by
          simp only [capWithin, Option.any_some, decide_eq_true_eq]
          omega
        rw [hwithin]
        simp [PurgeReport.after]
      · have hrounds : (limit - (i : ℤ)).toNat = 0 := by omega
        show countExpired cutoff rows
          = countExpired cutoff rows - batchSize * (limit - (i : ℤ)).toNat
        rw [hrounds, Nat.mul_zero, Nat.sub_zero]

/-- More fuel changes nothing. -/
theorem purgeLoop_more {fuel : ℕ} (more i : ℕ) {report : PurgeReport}
    {rows : List SecurityAuditEvent} {result : PurgeReport × List SecurityAuditEvent}
    (h : purgeLoop cutoff batchSize maxBatches arrivals fuel i report rows = some result) :
    purgeLoop cutoff batchSize maxBatches arrivals (fuel + more) i report rows = some result := by
  induction fuel generalizing i report rows with
  | zero => cases h
  | succ fuel ih =>
    rw [Nat.succ_add]
    unfold purgeLoop at h ⊢
    split_ifs at h ⊢ with hcap
    · dsimp only at h ⊢
      split_ifs at h ⊢ with hempty
      · exact h
      · exact ih _ h
    · exact h

/-! ### The report -/

/-- The cap is reached with rows left, unless it is the number of batches they fill. -/
theorem capWithin_iff_leftOver {n : ℕ} (maxBatches : Option ℤ) (hsize : 1 ≤ batchSize)
    (hn : 0 < n) :
    (capWithin maxBatches (batchesFor n batchSize) = true
        ↔ 0 < leftOver maxBatches batchSize 0 n)
      ↔ maxBatches ≠ some ((batchesFor n batchSize : ℕ) : ℤ) := by
  have hbatches : 0 < batchesFor n batchSize := by
    rw [batchesFor_step hsize hn]
    omega
  cases maxBatches with
  | none => simp [capWithin, leftOver]
  | some limit =>
    have hleft : 0 < leftOver (some limit) batchSize 0 n
        ↔ limit.toNat < batchesFor n batchSize := by
      rw [lt_batchesFor_iff hsize]
      show 0 < n - batchSize * (limit - (0 : ℕ)).toNat ↔ _
      rw [Nat.cast_zero, sub_zero]
      omega
    rw [hleft, ne_eq, Option.some.injEq]
    simp only [capWithin, Option.any_some, decide_eq_true_eq]
    omega

theorem mem_expired_iff : (∃ e ∈ rows, e.createdAt < cutoff) ↔ 0 < countExpired cutoff rows := by
  unfold countExpired isExpired
  rw [List.countP_pos_iff]
  simp

/-- **When the report is truthful.** A purge that is no dry run ends, for every content of the
trail, every cap and whatever fresh rows arrive before its rounds, one for each batch and perhaps a
last one that finds nothing. It takes only expired rows, oldest first, in batches that are full
except for the last, and reports their sizes; without a cap nothing expired is left. But `stopped_early` tells whether expired rows are left if and only if there were none to
begin with or the cap is not the number of batches they fill. -/
theorem purge_truthful_iff (settings : PurgeSettings) (hsize : 1 ≤ settings.auditPurgeBatchSize)
    (now cutoff : Timestamp) (hcutoff : resolveCutoff settings now = .ok cutoff)
    (maxBatches : Option ℤ) (arrivals : ℕ → List SecurityAuditEvent)
    (harrivals : ∀ i, ∀ e ∈ arrivals i, cutoff ≤ e.createdAt) (rows : List SecurityAuditEvent) :
    ∃ report arrived batches kept,
      (∀ fuel, countExpired cutoff rows < fuel →
        purgeExpiredAuditEvents fuel settings false maxBatches now arrivals rows
          = .ok (some (report, kept)))
      ∧ Purged cutoff settings.auditPurgeBatchSize rows arrived batches kept
      ∧ Arrived arrivals 0 batches.length arrived
      ∧ report.batches = batches.map List.length ∧ report.deleted = report.batches.sum
      ∧ (maxBatches = none → ¬ ∃ e ∈ kept, e.createdAt < cutoff)
      ∧ ((report.stoppedEarly = true ↔ ∃ e ∈ kept, e.createdAt < cutoff) ↔
          countExpired cutoff rows = 0 ∨ maxBatches
            ≠ some ((batchesFor (countExpired cutoff rows) settings.auditPurgeBatchSize : ℕ) : ℤ))
    := by
  have hfresh : ∀ i, ∀ e ∈ arrivals i, isExpired cutoff e = false := fun i e he =>
    decide_eq_false (not_lt.mpr (harrivals i e he))
  by_cases hnone : countExpired cutoff rows = 0
  · -- nothing is eligible: the report is returned as it was made
    refine ⟨openingReport settings false cutoff 0, [], [], rows, ?_,
      Purged.nil (by simp) (by simp) (by simp), ⟨0, by simp, by simp, by simp⟩, rfl, rfl, ?_, ?_⟩
    · intro fuel hfuel
      unfold purgeExpiredAuditEvents
      rw [hcutoff]
      dsimp only [bind, Except.bind]
      rw [if_pos (.inr hnone), hnone]
      rfl
    · intro _
      rw [mem_expired_iff]
      omega
    · rw [mem_expired_iff]
      simp [hnone, openingReport]
  · obtain ⟨arrived, batches, kept, hloop, hpurged, harrived, hleft⟩ :=
      purgeLoop_purged maxBatches hsize hfresh (countExpired cutoff rows + 1) 0
        (openingReport settings false cutoff (countExpired cutoff rows)) rows (Nat.lt_succ_self _)
    rw [Nat.zero_add] at hloop
    refine ⟨(openingReport settings false cutoff (countExpired cutoff rows)).after
        (batches.map List.length) (capWithin maxBatches
          (batchesFor (countExpired cutoff rows) settings.auditPurgeBatchSize)),
      arrived, batches, kept, fun fuel hfuel => ?run, hpurged, harrived, List.nil_append _, ?deleted,
      ?uncapped, ?stopped⟩
    case run =>
      obtain ⟨more, rfl⟩ := Nat.exists_eq_add_of_le (Nat.succ_le_of_lt hfuel)
      unfold purgeExpiredAuditEvents
      rw [hcutoff]
      dsimp only [bind, Except.bind]
      rw [if_neg (by simpa using hnone), purgeLoop_more more 0 hloop]
      rfl
    case deleted =>
      simp [PurgeReport.after, openingReport]
    case uncapped =>
      rintro rfl
      rw [mem_expired_iff, hleft]
      exact lt_irrefl 0
    case stopped =>
      rw [mem_expired_iff, hleft, or_iff_right hnone,
        ← capWithin_iff_leftOver maxBatches hsize (Nat.pos_of_ne_zero hnone)]
      simp [PurgeReport.after, openingReport]

/-- A row of the samples below. -/
def auditRow (id : Uuid) (createdAt : Timestamp) : SecurityAuditEvent :=
  ⟨id, createdAt, "AUTHENTICATION", "ALLOWED", "OK", none, none⟩

/-- A day, in microseconds after `datetime.min`. -/
def dayStart (n : ℕ) (h : 86400000000 * n ≤ datetimeMax) : Timestamp := ⟨86400000000 * n, h⟩

/-- Two expired rows in one batch of two with a cap of one batch: everything is deleted, and the
report says that the purge stopped early. -/
theorem full_cap_reported_early :
    let settings : PurgeSettings := ⟨some 30, 2⟩
    let now := dayStart 40 (by decide)
    let rows := [auditRow ⟨1⟩ (dayStart 0 (by decide)), auditRow ⟨2⟩ (dayStart 1 (by decide))]
    ∃ report, purgeExpiredAuditEvents 3 settings false (some 1) now (fun _ => []) rows
        = .ok (some (report, []))
      ∧ report.deleted = report.eligible ∧ report.stoppedEarly = true := by
  refine ⟨⟨false, dayStart 10 (by decide), 30, 2, 2, 2, [2], true⟩, ?_, rfl, rfl⟩
  decide +kernel

/-- With a cap of two batches the same purge is reported as it was. -/
theorem purge_truthful_two_batches :
    let settings : PurgeSettings := ⟨some 30, 2⟩
    let now := dayStart 40 (by decide)
    let rows := [auditRow ⟨1⟩ (dayStart 0 (by decide)), auditRow ⟨2⟩ (dayStart 1 (by decide))]
    ∃ report kept, purgeExpiredAuditEvents 3 settings false (some 2) now (fun _ => []) rows
        = .ok (some (report, kept))
      ∧ (report.stoppedEarly = true ↔ ∃ e ∈ kept, e.createdAt < dayStart 10 (by decide)) := by
  intro settings now rows
  have hcutoff : resolveCutoff settings now = .ok (dayStart 10 (by decide)) := by decide +kernel
  obtain ⟨report, -, -, kept, hrun, -, -, -, -, -, hstopped⟩ :=
    purge_truthful_iff settings (by decide) now _ hcutoff (some 2) (fun _ => []) (by simp) rows
  exact ⟨report, kept, hrun 3 (by decide +kernel), hstopped.mpr (.inr (by decide +kernel))⟩

end AgentRuntime.Security
