import AgentRuntime.Concurrency.System
import AgentRuntime.Lib.Discipline
import AgentRuntime.Lifecycle.View

/-!
# What the holder of a lock can rely on

Who holds a run row finds the row and its attempts unchanged; who holds the advisory lock of a quota
scope finds its counter unchanged and its number of active and of running runs no larger; who holds an
index entry finds it still unused. Rows and the columns runs were accepted with stay in any case.

* `Scope`, `Watch`: the scopes of the quotas and the statuses they count;
* `RunsFrame`, `AttemptsFrame`, `EvaluationsFrame`, `QuotasFrame`, `KeepsFree`: the guarantees, table
  by table;
* `LegalRun`, `LegalUpdate`: the insertions and updates of runs that disturb no such guarantee.
-/

namespace AgentRuntime.Concurrency

open Lib Table Domain Database Lifecycle

/-! ### Scopes -/

/-- Whom a quota belongs to. -/
inductive Scope where
  | principal (name : String)
  | tenant (name : String)
  deriving DecidableEq, Repr

namespace Scope

/-- The text the scope is locked and charged under. -/
def text : Scope → String
  | .principal name => principalScope name
  | .tenant name => tenantScope name

/-- The runs that count for the scope. -/
def covers : Scope → Run → Bool
  | .principal name => ofPrincipal name
  | .tenant name => ofTenant name

theorem text_injective {k k' : Scope} (h : k.text = k'.text) : k = k' := by
  have hchars := congrArg String.toList h
  cases k with
  | principal p =>
    cases k' with
    | principal p' =>
      simp only [text, principalScope, String.toList_append, List.append_cancel_left_eq,
        String.toList_inj] at hchars
      rw [hchars]
    | tenant t' => simp [text, principalScope, tenantScope] at hchars
  | tenant t =>
    cases k' with
    | principal p' => simp [text, principalScope, tenantScope] at hchars
    | tenant t' =>
      simp only [text, tenantScope, String.toList_append, List.append_cancel_left_eq,
        String.toList_inj] at hchars
      rw [hchars]

end Scope

/-- The scopes a run is locked under. -/
def scopes (r : Run) : List Scope :=
  [.principal (orElseText r.principalId r.clientId), .tenant r.clientId]

/-- The stored principal is the one the run is locked under. -/
def Attributed (r : Run) : Prop := r.principalId = some (orElseText r.principalId r.clientId)

theorem mem_scopes_iff {r : Run} (h : Attributed r) {k : Scope} :
    k ∈ scopes r ↔ k.covers r = true := by
  unfold Attributed at h
  simp only [scopes, List.mem_cons, List.not_mem_nil, or_false]
  cases k with
  | principal name =>
    simp only [Scope.covers, ofPrincipal, beq_iff_eq, Scope.principal.injEq, reduceCtorEq, or_false]
    constructor
    · rintro rfl
      exact h
    · intro hname
      rw [hname] at h ⊢
      exact Option.some.inj h
  | tenant name =>
    simp only [Scope.covers, ofTenant, beq_iff_eq, reduceCtorEq, Scope.tenant.injEq, false_or]
    exact eq_comm

/-- What a quota counts. -/
inductive Watch where
  | active
  | running
  deriving DecidableEq, Repr

def Watch.statuses : Watch → List ExecutionStatus
  | .active => activeStatuses
  | .running => [.running]

/-- The limit of a scope. -/
def bound (limits : QuotaLimits) : Watch → Scope → ℤ
  | .active, .principal _ => limits.principalActive
  | .active, .tenant _ => limits.tenantActive
  | .running, .principal _ => limits.principalRunning
  | .running, .tenant _ => limits.tenantRunning

/-- The provider calls a scope may make in a window. -/
def calls (limits : QuotaLimits) : Scope → ℤ
  | .principal _ => limits.principalCalls
  | .tenant _ => limits.tenantCalls

/-- The runs of a scope that a quota counts. -/
def counted (t : Table Run) (w : Watch) (k : Scope) : ℕ :=
  (t.select fun r => k.covers r && decide (r.executionStatus ∈ w.statuses)).length

/-! ### Locks -/

/-- The run row is locked. -/
abbrev RunHeld (L : List (Hold Resource)) (id : Uuid) : Prop := (.lock (.run id), .exclusive) ∈ L

/-- The scope text is locked. -/
abbrev ScopeHeld (L : List (Hold Resource)) (scope : String) : Prop :=
  (.lock (.advisory scope), .exclusive) ∈ L

/-- The scopes of the run are locked and count fewer runs than they may, if all processes have
agreed on limits. -/
def Room (limits : Option QuotaLimits) (L : List (Hold Resource)) (t : Table Run) (w : Watch)
    (r : Run) : Prop :=
  ∀ k ∈ scopes r, ScopeHeld L k.text ∧ ∀ l ∈ limits, (counted t w k : ℤ) < bound l w k

/-! ### Index entries -/

section KeepsFree

variable {α κ : Type} [Row α κ] {keys : Row.Ident α → List UniqueKey}
  {L L' : List (Hold Resource)} {t t' t'' u u' : Table α} {a : α}

/-- Identities whose index entries are held stay unused. -/
def KeepsFree (keys : Row.Ident α → List UniqueKey) (L : List (Hold Resource))
    (t t' : Table α) : Prop :=
  ∀ i, entries (keys i) ⊆ L → t.FreeFor i → t'.FreeFor i

theorem KeepsFree.refl : KeepsFree keys L t t := fun _ _ h => h

theorem KeepsFree.trans (h : KeepsFree keys L t t') (h' : KeepsFree keys L t' t'') :
    KeepsFree keys L t t'' := fun i hi hfree => h' i hi (h i hi hfree)

theorem KeepsFree.anti (hsub : L ⊆ L') (h : KeepsFree keys L' t t') : KeepsFree keys L t t' :=
  fun i hi => h i (List.Subset.trans hi hsub)

/-- The same row can be inserted on both sides. -/
theorem KeepsFree.insert (h : KeepsFree keys L t t') (hkeys : entries (keys (Row.ident a)) ⊆ L)
    (hins : t.insert? a = some u) : ∃ u', t'.insert? a = some u' ∧ KeepsFree keys L u u' := by
  have hfree : t'.FreeFor (Row.ident a) := h _ hkeys (insert?_eq_some hins).2
  obtain ⟨u', hins'⟩ := insert?_isSome hfree
  refine ⟨u', hins', fun i hi hfree => ?_⟩
  rw [freeFor_insert hins] at hfree
  rw [freeFor_insert hins']
  exact ⟨h i hi hfree.1, hfree.2⟩

theorem KeepsFree.update [DecidableEq κ] (h : KeepsFree keys L t t') (k : κ) {f : α → α}
    (hf : Row.Keeps f) : KeepsFree keys L (t.update k f hf) (t'.update k f hf) := by
  intro i hi hfree
  rw [freeFor_update] at hfree ⊢
  exact h i hi hfree

theorem keepsFree_update [DecidableEq κ] (k : κ) {f : α → α} (hf : Row.Keeps f) :
    KeepsFree keys L t (t.update k f hf) := by
  intro i _ hfree
  rw [freeFor_update]
  exact hfree

/-- Who inserts a row takes its entries away from nobody who holds them. -/
theorem keepsFree_insert (hclash : ∀ i j, Row.clash i j = true → ∃ k ∈ keys i, k ∈ keys j)
    (hkeys : entries (keys (Row.ident a)) ⊆ L) (hapart : Apart L L')
    (hins : t.insert? a = some u) : KeepsFree keys L' t u := by
  intro i hi hfree
  rw [freeFor_insert hins]
  refine ⟨hfree, Bool.eq_false_iff.mpr fun hcl => ?_⟩
  obtain ⟨k, hk, hk'⟩ := hclash _ _ hcl
  have hL : ((.key k, .exclusive) : Hold Resource) ∈ L := hkeys (List.mem_map_of_mem hk)
  exact hapart.not_mem hL (hi (List.mem_map_of_mem hk'))

end KeepsFree

theorem runKeys_of_clash (i j : Row.Ident Run) (h : Row.clash i j = true) :
    ∃ k ∈ runKeys i, k ∈ runKeys j := by
  rcases Bool.or_eq_true_iff.mp h with hid | hrequest
  · exact ⟨.run i.1, by simp [runKeys], by simp [runKeys, beq_iff_eq.mp hid]⟩
  · refine ⟨.request i.2.1 i.2.2, by simp [runKeys], ?_⟩
    rw [beq_iff_eq.mp hrequest]
    simp [runKeys]

theorem attemptKeys_of_clash (i j : Row.Ident RunAttempt) (h : Row.clash i j = true) :
    ∃ k ∈ attemptKeys i, k ∈ attemptKeys j := by
  rcases Bool.or_eq_true_iff.mp h with hid | hnumber
  · exact ⟨.attempt i.1, by simp [attemptKeys], by simp [attemptKeys, beq_iff_eq.mp hid]⟩
  · refine ⟨.attemptNumber i.2.1 i.2.2, by simp [attemptKeys], ?_⟩
    rw [beq_iff_eq.mp hnumber]
    simp [attemptKeys]

theorem eventKeys_of_clash (i j : Row.Ident RunEvent) (h : Row.clash i j = true) :
    ∃ k ∈ eventKeys i, k ∈ eventKeys j := by
  have hij : i = j := eq_of_beq (α := Uuid) h
  exact ⟨.event i, by simp [eventKeys], by simp [eventKeys, hij]⟩

theorem outboxKeys_of_clash (i j : Row.Ident OutboxEvent) (h : Row.clash i j = true) :
    ∃ k ∈ outboxKeys i, k ∈ outboxKeys j := by
  have hij : i = j := eq_of_beq (α := Uuid) h
  exact ⟨.outbox i, by simp [outboxKeys], by simp [outboxKeys, hij]⟩

theorem evaluationKeys_of_clash (i j : Row.Ident Evaluation) (h : Row.clash i j = true) :
    ∃ k ∈ evaluationKeys i, k ∈ evaluationKeys j := by
  rcases Bool.or_eq_true_iff.mp h with hid | hjob
  · exact ⟨.evaluation i.1, by simp [evaluationKeys],
      by simp [evaluationKeys, (beq_iff_eq.mp hid : i.1 = j.1)]⟩
  · obtain ⟨hsome, heq⟩ := Bool.and_eq_true_iff.mp hjob
    obtain ⟨job, hi⟩ := Option.isSome_iff_exists.mp hsome
    have hj : j.2 = some job := by rw [← hi]; exact (beq_iff_eq.mp heq).symm
    exact ⟨.evaluationJob job, by simp [evaluationKeys, hi], by simp [evaluationKeys, hj]⟩

/-! ### Runs -/

/-- How a run may change: not in the columns it was accepted with, and not at all if it is held. -/
def RunKept (L : List (Hold Resource)) (id : Uuid) (r r' : Run) : Prop :=
  accepted r' = accepted r ∧ (RunHeld L id → r' = r)

/-- What the holder of `L` can rely on among the runs. -/
structure RunsFrame (L : List (Hold Resource)) (t t' : Table Run) : Prop where
  stays : t.Stays (RunKept L) t'
  counts : ∀ {k : Scope}, ScopeHeld L k.text → ∀ w, counted t' w k ≤ counted t w k
  free : KeepsFree runKeys L t t'

namespace RunsFrame

variable {L L' : List (Hold Resource)} {t t' t'' u : Table Run} {r : Run} {id : Uuid}

theorem kept_refl (id : Uuid) (r : Run) : RunKept L id r r := ⟨rfl, fun _ => rfl⟩

theorem refl : RunsFrame L t t := ⟨.refl kept_refl, fun _ _ => le_rfl, .refl⟩

theorem trans (h : RunsFrame L t t') (h' : RunsFrame L t' t'') : RunsFrame L t t'' where
  stays := h.stays.trans
    (fun h1 h2 => ⟨h2.1.trans h1.1, fun hL => (h2.2 hL).trans (h1.2 hL)⟩) h'.stays
  counts hL w := (h'.counts hL w).trans (h.counts hL w)
  free := h.free.trans h'.free

theorem anti (hsub : L ⊆ L') (h : RunsFrame L' t t') : RunsFrame L t t' where
  stays := h.stays.mono fun hkept => ⟨hkept.1, fun hL => hkept.2 (hsub hL)⟩
  counts hL := h.counts (hsub hL)
  free := h.free.anti hsub

/-- A locked row is the same on both sides. -/
theorem held (h : RunsFrame L t t') (hL : RunHeld L id) (hget : t.get? id = some r) :
    t'.get? id = some r := by
  obtain ⟨r', hget', -, hheld⟩ := h.stays _ _ hget
  rw [hget', hheld hL]

theorem insert (h : RunsFrame L t t') (hkeys : entries (runKeys (Row.ident r)) ⊆ L)
    (hins : t.insert? r = some u) : ∃ u', t'.insert? r = some u' ∧ RunsFrame L u u' := by
  obtain ⟨u', hins', hfree⟩ := h.free.insert hkeys hins
  refine ⟨u', hins', h.stays.insert kept_refl hins hins', ?_, hfree⟩
  intro k hL w
  simp only [counted, length_select_insert hins, length_select_insert hins']
  exact Nat.add_le_add_right (h.counts hL w) _

theorem update (h : RunsFrame L t t') (hL : RunHeld L id) (hget : t.get? id = some r)
    (sets : List RunSet) :
    RunsFrame L
      (t.update id (assignAll RunSet.assign sets) (assignAll_keeps RunSet.ident_assign sets))
      (t'.update id (assignAll RunSet.assign sets) (assignAll_keeps RunSet.ident_assign sets)) where
  stays := by
    refine h.stays.update _ fun _ _ hkept => ?_
    rw [hkept.2 hL]
    exact kept_refl _ _
  counts {k} hk w := by
    have hcount := length_select_update t id _ (assignAll_keeps RunSet.ident_assign sets)
      (fun r => k.covers r && decide (r.executionStatus ∈ w.statuses)) hget
    have hcount' := length_select_update t' id _ (assignAll_keeps RunSet.ident_assign sets)
      (fun r => k.covers r && decide (r.executionStatus ∈ w.statuses)) (h.held hL hget)
    have hle := h.counts hk w
    simp only [counted] at hle ⊢
    omega
  free := h.free.update id _

end RunsFrame

section RunWrites

variable {limits : Option QuotaLimits} {L L' : List (Hold Resource)} {t u : Table Run} {r : Run}
  {id : Uuid}

/-- A run that may be inserted: its scopes are locked and have room for it. -/
structure LegalRun (limits : Option QuotaLimits) (L : List (Hold Resource)) (t : Table Run) (r : Run) :
    Prop where
  keys : entries (runKeys (Row.ident r)) ⊆ L
  attributed : Attributed r
  room : ∀ w : Watch, r.executionStatus ∈ w.statuses → Room limits L t w r

/-- The update assigns a new execution status. -/
def SetsStatus (sets : List RunSet) : Prop := ∃ status, RunSet.executionStatus status ∈ sets

/-- A locked row that may be updated: its status is not terminal if it gets a new one, and a quota
counts it afterwards only if it did before or its scopes are locked and have room for it. -/
structure LegalUpdate (limits : Option QuotaLimits) (L : List (Hold Resource)) (t : Table Run)
    (id : Uuid) (sets : List RunSet) (r : Run) : Prop where
  stored : t.get? id = some r
  held : RunHeld L id
  live : SetsStatus sets → isTerminalExecutionStatus r.executionStatus = false
  room : ∀ w : Watch, (assignAll RunSet.assign sets r).executionStatus ∈ w.statuses →
    r.executionStatus ∈ w.statuses ∨ Room limits L t w r

/-- A scope that somebody else holds does not count a run for which its holder needed room. -/
theorem Room.not_covers {w : Watch} (h : Room limits L t w r) (hr : Attributed r)
    (hapart : Apart L L') {k : Scope} (hk : ScopeHeld L' k.text) : k.covers r = false := by
  refine Bool.eq_false_iff.mpr fun hcovers => ?_
  exact hapart.not_mem (h k ((mem_scopes_iff hr).mpr hcovers)).1 hk

theorem Room.frame {t' : Table Run} {w : Watch} (h : Room limits L t w r)
    (hframe : RunsFrame L t t') : Room limits L t' w r := by
  intro k hk
  obtain ⟨hheld, hlt⟩ := h k hk
  have hle := hframe.counts hheld w
  refine ⟨hheld, fun l hl => ?_⟩
  have hbound := hlt l hl
  omega

theorem Room.mono {w : Watch} (h : Room limits L t w r) (hsub : L ⊆ L') :
    Room limits L' t w r := fun k hk => ⟨hsub (h k hk).1, (h k hk).2⟩

theorem LegalRun.apart (h : LegalRun limits L t r) (hapart : Apart L L')
    (hins : t.insert? r = some u) : RunsFrame L' t u where
  stays := stays_insert RunsFrame.kept_refl hins
  counts {k} hk w := by
    have hnot : (k.covers r && decide (r.executionStatus ∈ w.statuses)) = false := by
      by_cases hw : r.executionStatus ∈ w.statuses
      · rw [(h.room w hw).not_covers h.attributed hapart hk, Bool.false_and]
      · rw [decide_eq_false hw, Bool.and_false]
    simp only [counted, length_select_insert hins, hnot]
    simp
  free := keepsFree_insert runKeys_of_clash h.keys hapart hins

theorem executionStatus_assignAll {sets : List RunSet} (h : ¬ SetsStatus sets) (r : Run) :
    (assignAll RunSet.assign sets r).executionStatus = r.executionStatus := by
  induction sets generalizing r with
  | nil => rfl
  | cons c cs ih =>
    have htail : ¬ SetsStatus cs := fun ⟨x, hx⟩ => h ⟨x, List.mem_cons_of_mem _ hx⟩
    rw [assignAll_cons, ih htail]
    cases c with
    | executionStatus v => exact absurd ⟨v, List.mem_cons_self⟩ h
    | _ => rfl

/-- How an update changes a count. -/
theorem counted_update (hget : t.get? id = some r) (sets : List RunSet) (w : Watch) (k : Scope) :
    counted (t.update id (assignAll RunSet.assign sets)
        (assignAll_keeps RunSet.ident_assign sets)) w k
        + (if k.covers r ∧ r.executionStatus ∈ w.statuses then 1 else 0)
      = counted t w k + if k.covers r ∧
          (assignAll RunSet.assign sets r).executionStatus ∈ w.statuses then 1 else 0 := by
  have hcovers : k.covers (assignAll RunSet.assign sets r) = k.covers r := by
    have haccepted := accepted_assignAll sets r
    cases k with
    | principal name =>
      simp only [Scope.covers, ofPrincipal]
      rw [show (assignAll RunSet.assign sets r).principalId = r.principalId from
        congrArg Accepted.principalId haccepted]
    | tenant name =>
      simp only [Scope.covers, ofTenant]
      rw [show (assignAll RunSet.assign sets r).clientId = r.clientId from
        congrArg Accepted.clientId haccepted]
  have hcount := length_select_update t id _ (assignAll_keeps RunSet.ident_assign sets)
    (fun r => k.covers r && decide (r.executionStatus ∈ w.statuses)) hget
  simpa only [counted, hcovers, Bool.and_eq_true, decide_eq_true_eq] using hcount

theorem LegalUpdate.apart {sets : List RunSet} (h : LegalUpdate limits L t id sets r)
    (hr : Attributed r) (hapart : Apart L L') :
    RunsFrame L' t (t.update id (assignAll RunSet.assign sets)
      (assignAll_keeps RunSet.ident_assign sets)) where
  stays := by
    refine stays_update _ RunsFrame.kept_refl fun {q} _ => ⟨accepted_assignAll sets q, ?_⟩
    exact fun hheld => absurd hheld (hapart.not_mem h.held)
  counts {k} hk w := by
    have hcount := counted_update h.stored sets w k
    by_cases hafter : (assignAll RunSet.assign sets r).executionStatus ∈ w.statuses
    · rcases h.room w hafter with hbefore | hroom
      · simp only [hbefore, hafter] at hcount
        omega
      · have hnot := hroom.not_covers hr hapart hk
        simp only [hnot, Bool.false_eq_true, false_and, if_false] at hcount
        omega
    · simp only [hafter, and_false, if_false] at hcount
      omega
  free := keepsFree_update id _

end RunWrites

/-! ### Attempts -/

/-- How an attempt may change: it stays with its run, and whole if the run is held. -/
def AttemptKept (L : List (Hold Resource)) (_ : Uuid) (a a' : RunAttempt) : Prop :=
  a'.runId = a.runId ∧ (RunHeld L a.runId → a' = a)

/-- What the holder of `L` can rely on among the attempts. -/
structure AttemptsFrame (L : List (Hold Resource)) (t t' : Table RunAttempt) : Prop where
  stays : t.Stays (AttemptKept L) t'
  free : KeepsFree attemptKeys L t t'

theorem runId_assignAll (sets : List AttemptSet) (a : RunAttempt) :
    (assignAll AttemptSet.assign sets a).runId = a.runId :=
  assignAll_keeps (fun c a => by cases c <;> rfl) sets a

namespace AttemptsFrame

variable {L L' : List (Hold Resource)} {t t' t'' u : Table RunAttempt} {a : RunAttempt} {id : Uuid}

theorem kept_refl (id : Uuid) (a : RunAttempt) : AttemptKept L id a a := ⟨rfl, fun _ => rfl⟩

theorem refl : AttemptsFrame L t t := ⟨.refl kept_refl, .refl⟩

theorem trans (h : AttemptsFrame L t t') (h' : AttemptsFrame L t' t'') :
    AttemptsFrame L t t'' where
  stays := by
    refine h.stays.trans (fun h1 h2 => ⟨h2.1.trans h1.1, fun hL => ?_⟩) h'.stays
    exact (h2.2 (by rw [h1.1]; exact hL)).trans (h1.2 hL)
  free := h.free.trans h'.free

theorem anti (hsub : L ⊆ L') (h : AttemptsFrame L' t t') : AttemptsFrame L t t' where
  stays := h.stays.mono fun hkept => ⟨hkept.1, fun hL => hkept.2 (hsub hL)⟩
  free := h.free.anti hsub

theorem held (h : AttemptsFrame L t t') (hL : RunHeld L a.runId) (hget : t.get? id = some a) :
    t'.get? id = some a := by
  obtain ⟨a', hget', -, hheld⟩ := h.stays _ _ hget
  rw [hget', hheld hL]

theorem insert (h : AttemptsFrame L t t') (hkeys : entries (attemptKeys (Row.ident a)) ⊆ L)
    (hins : t.insert? a = some u) : ∃ u', t'.insert? a = some u' ∧ AttemptsFrame L u u' := by
  obtain ⟨u', hins', hfree⟩ := h.free.insert hkeys hins
  exact ⟨u', hins', h.stays.insert kept_refl hins hins', hfree⟩

theorem update (h : AttemptsFrame L t t') (hL : RunHeld L a.runId) (hget : t.get? id = some a)
    (sets : List AttemptSet) :
    AttemptsFrame L
      (t.update id (assignAll AttemptSet.assign sets)
        (assignAll_keeps AttemptSet.ident_assign sets))
      (t'.update id (assignAll AttemptSet.assign sets)
        (assignAll_keeps AttemptSet.ident_assign sets)) where
  stays := by
    refine h.stays.update _ fun {b b'} hb _ hkept => ?_
    rw [hget] at hb
    rw [hkept.2 (Option.some.inj hb ▸ hL)]
    exact kept_refl _ _
  free := h.free.update id _

theorem insert_apart (hkeys : entries (attemptKeys (Row.ident a)) ⊆ L) (hapart : Apart L L')
    (hins : t.insert? a = some u) : AttemptsFrame L' t u :=
  ⟨stays_insert kept_refl hins, keepsFree_insert attemptKeys_of_clash hkeys hapart hins⟩

theorem update_apart (hL : RunHeld L a.runId) (hget : t.get? id = some a) (sets : List AttemptSet)
    (hapart : Apart L L') :
    AttemptsFrame L' t (t.update id (assignAll AttemptSet.assign sets)
      (assignAll_keeps AttemptSet.ident_assign sets)) where
  stays := by
    refine stays_update _ kept_refl fun {b} hb => ⟨runId_assignAll sets b, fun hheld => ?_⟩
    rw [hget] at hb
    rw [← Option.some.inj hb] at hheld
    exact absurd hheld (hapart.not_mem hL)
  free := keepsFree_update id _

end AttemptsFrame

/-! ### Evaluations -/

/-- How an evaluation may change: it stays with its source and its job. -/
def EvaluationKept (_ : Uuid) (e e' : Evaluation) : Prop :=
  e'.runId = e.runId ∧ e'.jobRunId = e.jobRunId

/-- What the holder of `L` can rely on among the evaluations. -/
structure EvaluationsFrame (L : List (Hold Resource)) (t t' : Table Evaluation) : Prop where
  stays : t.Stays EvaluationKept t'
  free : KeepsFree evaluationKeys L t t'

theorem evaluationKept_assignAll (sets : List EvaluationSet) (id : Uuid) (e : Evaluation) :
    EvaluationKept id e (assignAll EvaluationSet.assign sets e) :=
  ⟨assignAll_keeps (fun c e => by cases c <;> rfl) sets e,
    assignAll_keeps (fun c e => by cases c <;> rfl) sets e⟩

namespace EvaluationsFrame

variable {L L' : List (Hold Resource)} {t t' t'' u : Table Evaluation} {e : Evaluation} {id : Uuid}

theorem kept_refl (id : Uuid) (e : Evaluation) : EvaluationKept id e e := ⟨rfl, rfl⟩

theorem kept_trans {e e' e'' : Evaluation} (h : EvaluationKept id e e')
    (h' : EvaluationKept id e' e'') : EvaluationKept id e e'' :=
  ⟨h'.1.trans h.1, h'.2.trans h.2⟩

theorem refl : EvaluationsFrame L t t := ⟨.refl kept_refl, .refl⟩

theorem trans (h : EvaluationsFrame L t t') (h' : EvaluationsFrame L t' t'') :
    EvaluationsFrame L t t'' :=
  ⟨h.stays.trans kept_trans h'.stays, h.free.trans h'.free⟩

theorem anti (hsub : L ⊆ L') (h : EvaluationsFrame L' t t') : EvaluationsFrame L t t' :=
  ⟨h.stays, h.free.anti hsub⟩

theorem insert (h : EvaluationsFrame L t t') (hkeys : entries (evaluationKeys (Row.ident e)) ⊆ L)
    (hins : t.insert? e = some u) : ∃ u', t'.insert? e = some u' ∧ EvaluationsFrame L u u' := by
  obtain ⟨u', hins', hfree⟩ := h.free.insert hkeys hins
  exact ⟨u', hins', h.stays.insert kept_refl hins hins', hfree⟩

theorem update (h : EvaluationsFrame L t t') (id : Uuid) (sets : List EvaluationSet) :
    EvaluationsFrame L
      (t.update id (assignAll EvaluationSet.assign sets)
        (assignAll_keeps EvaluationSet.ident_assign sets))
      (t'.update id (assignAll EvaluationSet.assign sets)
        (assignAll_keeps EvaluationSet.ident_assign sets)) where
  stays := by
    refine h.stays.update _ fun {b b'} _ _ hkept => ?_
    obtain ⟨hrun, hjob⟩ := evaluationKept_assignAll sets id b
    obtain ⟨hrun', hjob'⟩ := evaluationKept_assignAll sets id b'
    exact ⟨by rw [hrun', hrun, hkept.1], by rw [hjob', hjob, hkept.2]⟩
  free := h.free.update id _

theorem insert_apart (hkeys : entries (evaluationKeys (Row.ident e)) ⊆ L) (hapart : Apart L L')
    (hins : t.insert? e = some u) : EvaluationsFrame L' t u :=
  ⟨stays_insert kept_refl hins, keepsFree_insert evaluationKeys_of_clash hkeys hapart hins⟩

theorem update_self (id : Uuid) (sets : List EvaluationSet) :
    EvaluationsFrame L t (t.update id (assignAll EvaluationSet.assign sets)
      (assignAll_keeps EvaluationSet.ident_assign sets)) :=
  ⟨stays_update _ kept_refl fun _ => evaluationKept_assignAll sets id _, keepsFree_update id _⟩

end EvaluationsFrame

/-! ### Rows of a scope -/

/-- The row of a scope that is held does not change. -/
def HeldRows {α κ : Type} [Row α κ] [DecidableEq κ] (scopeOf : κ → String)
    (L : List (Hold Resource)) (t t' : Table α) : Prop :=
  ∀ k, ScopeHeld L (scopeOf k) → t'.get? k = t.get? k

namespace HeldRows

variable {α κ : Type} [Row α κ] [DecidableEq κ] {scopeOf : κ → String}
  {L L' : List (Hold Resource)} {t t' u : Table α} {a : α}

theorem insert (hclash : ∀ i j : Row.Ident α, Row.clash i j = true → (Row.key i : κ) = Row.key j)
    (h : HeldRows scopeOf L t t') (hL : ScopeHeld L (scopeOf (Row.id a)))
    (hins : t.insert? a = some u) :
    ∃ u', t'.insert? a = some u' ∧ HeldRows scopeOf L u u' := by
  have hnone : t'.get? (Row.id a) = none := by
    rw [h _ hL]
    exact get?_insert_fresh hins
  have hfree : t'.FreeFor (Row.ident a) := by
    intro b hb
    refine Bool.eq_false_iff.mpr fun hcl => ?_
    exact get?_eq_none_iff.mp hnone b hb (hclash _ _ hcl)
  obtain ⟨u', hins'⟩ := insert?_isSome hfree
  refine ⟨u', hins', fun k hk => ?_⟩
  rw [get?_insert hins, get?_insert hins', h k hk]

theorem update (h : HeldRows scopeOf L t t') (k : κ) (f : α → α) (hf : Row.Keeps f) :
    HeldRows scopeOf L (t.update k f hf) (t'.update k f hf) := by
  intro k' hk
  rw [get?_update, get?_update, h k' hk]

theorem insert_apart (hL : ScopeHeld L (scopeOf (Row.id a))) (hapart : Apart L L')
    (hins : t.insert? a = some u) : HeldRows scopeOf L' t u := by
  intro k hk
  have hne : (Row.id a : κ) ≠ k := by
    rintro rfl
    exact hapart.not_mem hL hk
  rw [get?_insert hins, if_neg hne]

theorem update_apart {k : κ} (hL : ScopeHeld L (scopeOf k)) (hapart : Apart L L') (f : α → α)
    (hf : Row.Keeps f) : HeldRows scopeOf L' t (t.update k f hf) := by
  intro k' hk
  have hne : k' ≠ k := by
    rintro rfl
    exact hapart.not_mem hL hk
  rw [get?_update, if_neg hne]

end HeldRows

/-! ### Counters -/

/-- The counter of a scope that is held does not move. -/
def QuotasFrame (L : List (Hold Resource)) (t t' : Table ProviderQuota) : Prop :=
  ∀ scope, ScopeHeld L scope → t'.get? scope = t.get? scope

namespace QuotasFrame

variable {L L' : List (Hold Resource)} {t t' u : Table ProviderQuota} {q : ProviderQuota}

/-- A counter is the row of its scope. -/
theorem eq_heldRows : QuotasFrame L t t' = HeldRows (fun scope : String => scope) L t t' := rfl

theorem insert (h : QuotasFrame L t t') (hL : ScopeHeld L q.scope) (hins : t.insert? q = some u) :
    ∃ u', t'.insert? q = some u' ∧ QuotasFrame L u u' := by
  simp only [eq_heldRows] at h ⊢
  exact h.insert (fun _ _ hcl => eq_of_beq (α := String) hcl) hL hins

theorem update (h : QuotasFrame L t t') (scope : String) (f : ProviderQuota → ProviderQuota)
    (hf : ∀ q, Row.ident (f q) = (Row.ident q : Row.Ident ProviderQuota)) :
    QuotasFrame L (t.update scope f hf) (t'.update scope f hf) := by
  rw [eq_heldRows] at h ⊢
  exact h.update scope f hf

theorem insert_apart (hL : ScopeHeld L q.scope) (hapart : Apart L L') (hins : t.insert? q = some u) :
    QuotasFrame L' t u := by
  rw [eq_heldRows]
  exact .insert_apart hL hapart hins

theorem update_apart {scope : String} (hL : ScopeHeld L scope) (hapart : Apart L L')
    (f : ProviderQuota → ProviderQuota)
    (hf : ∀ q, Row.ident (f q) = (Row.ident q : Row.Ident ProviderQuota)) :
    QuotasFrame L' t (t.update scope f hf) := by
  rw [eq_heldRows]
  exact .update_apart hL hapart f hf

end QuotasFrame

end AgentRuntime.Concurrency
