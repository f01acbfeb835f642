import AgentRuntime.Concurrency.Executions
import AgentRuntime.Evaluation.RegressionRuns

/-!
# Every provider call is accounted for

Whatever the workers and the database do in between, a call reaches the registry only after a
transaction of its own has charged it to the principal and to the tenant of the run, found the attempt
open and the lease held; the charges of a scope never exceed its limit in any window; and an attempt
calls at most as often as its budget allows.

* `attempt_unique`: an attempt is inserted once, so it is executed once;
* `CommittedCharge`: the charge of a call;
* `provider_calls_accounted`: the accounts of the whole world.
-/

namespace AgentRuntime.Concurrency

open Lib Domain Application Database Lifecycle Execution Evaluation

/-! ### Inserted attempts -/

/-- The ids of the attempts that a write inserts. -/
def insertedAttempts : Write → List Uuid
  | .insertAttempt a => [a.id]
  | _ => []

theorem apply_attemptIds {w : Write} {s s' : Store} (h : Writes.apply w s = .ok s') :
    s'.attempts.rows.map RunAttempt.id = s.attempts.rows.map RunAttempt.id ++ insertedAttempts w := by
  cases applied h with
  | insertAttempt a hins =>
    dsimp only
    rw [(Table.insert?_eq_some hins).1, List.map_append]
    rfl
  | updateAttempt id sets =>
    rw [Table.update_rows, List.map_map]
    refine Eq.trans ?_ (List.append_nil _).symm
    refine List.map_congr_left fun a _ => ?_
    show RunAttempt.id (if Row.id a = id then assignAll AttemptSet.assign sets a else a) = a.id
    split
    · exact assignAll_keeps (fun c a => by cases c <;> rfl) sets a
    · rfl
  | _ => exact (List.append_nil _).symm

theorem insertedAttempts_nodup {ws : List Write} {s : Store}
    (h : applyAll ws Store.empty = .ok s) : (ws.flatMap insertedAttempts).Nodup := by
  have happends := applyAll_appends (f := fun s : Store => s.attempts.rows.map RunAttempt.id)
    (fun w s s' => apply_attemptIds) h
  have hids : s.attempts.rows.map RunAttempt.id = ws.flatMap insertedAttempts := happends
  rw [← hids]
  refine List.pairwise_map.mpr (s.attempts.unique.imp ?_)
  intro a b hclash hid
  have hsame : Row.clash (Row.ident a) (Row.ident b) = true := Row.clash_of_key _ _ hid
  rw [hsame] at hclash
  cases hclash

section

variable {c : Config Input Store Write Lock PyError Answer Resource} {order : List ℕ}

/-- **An attempt is inserted once.** -/
theorem attempt_unique (hlog : CommitLog Store.empty c order) {n n' : ℕ} {a a' : RunAttempt}
    (h : .insertAttempt a ∈ c.writes n) (h' : .insertAttempt a' ∈ c.writes n')
    (hid : a.id = a'.id) : n = n' :=
  (hlog.eq_of_not (fun _ _ hne => hne.symm) (insertedAttempts_nodup hlog.store)
    (List.mem_flatMap.mpr ⟨_, h, List.mem_singleton_self _⟩)
    (List.mem_flatMap.mpr ⟨_, h', List.mem_singleton_self _⟩) fun hne => hne hid).1

end

/-! ### The charge of a call -/

section Accounts

variable [Externals]

/-- **The charge of a call**: session `n` has committed a charge for the attempt. When it did, the
worker held the lease of the run, the attempt was open, and its writes raised the counters of both
scopes of the run. -/
def CommittedCharge (limits : QuotaLimits) (log : List (Event Input)) (x : Assigned) (n : ℕ) :
    Prop :=
  ∃ call busy answer ws run past e later held,
    (system.after log).outcome? n = some (chargeInput limits x call busy, answer, ws)
    ∧ log = past ++ e :: later
    ∧ applyAll ws (system.after past).store = .ok (system.after (past ++ [e])).store
    ∧ Charged limits call x.runId x.attemptId x.workerId run held ws
        (system.after (past ++ [e])).store
    ∧ ∀ k ∈ scopes run,
        n ∈ chargesIn (system.after log) k (currentWindow call.epoch limits.windowSeconds)

theorem verified (limits : QuotaLimits) :
    Verified locking (storeDiscipline (some limits)) request
      (fun i => ∀ l ∈ some limits, Uses l i) Post := request_obeys

theorem committedCharge {limits : QuotaLimits} {log : List (Event Input)} {x : Assigned} {n : ℕ}
    (huses : ∀ i, .start i ∈ log → Uses limits i) (hcharges : ChargesFor limits (system.after log) x n)
    (hdone : ((system.after log).outcome? n).isSome = true) : CommittedCharge limits log x n := by
  obtain ⟨call, busy, p, hp⟩ := hcharges
  obtain ⟨⟨i, answer, ws⟩, ho⟩ := Option.isSome_iff_exists.mp hdone
  have hsession := Config.outcome?_eq_some.mp ho
  rw [hp] at hsession
  cases hsession
  obtain ⟨past, e, later, held, hsplit, happly, hpost⟩ :=
    commit_moment (verified limits) (storeInv_empty _) log (by simpa using huses) ho
  obtain ⟨run, hcharged⟩ : ∃ run, Charged limits call x.runId x.attemptId x.workerId run held ws
      (system.after (past ++ [e])).store := hpost
  refine ⟨call, busy, answer, ws, run, past, e, later, held, ho, hsplit, happly, hcharged, ?_⟩
  intro k hk
  have hwrites : (system.after log).writes n = ws := by
    unfold Config.writes
    rw [ho]
    rfl
  have hpos : 0 < ws.countP (raises k (currentWindow call.epoch limits.windowSeconds)) := by
    rw [hcharged.countP hk]
    exact Nat.one_pos
  obtain ⟨w, hw, hraises⟩ := List.countP_pos_iff.mp hpos
  rw [mem_chargesIn, hwrites]
  exact List.any_eq_true.mpr ⟨w, hw, hraises⟩

/-- The step in which a transaction raises changes nothing. -/
theorem refused_unchanged {c : Config Input Store Write Lock PyError Answer Resource}
    {e : Event Input} {n : ℕ} {i : Input} {p : Stage Store Write Lock PyError Answer Resource}
    {err : PyError} (hbefore : c.sessions[n]? = some ⟨i, p⟩) (hopen : ∀ err', p ≠ .failed err')
    (hafter : (system.step c e).2.sessions[n]? = some ⟨i, .failed err⟩) :
    (system.step c e).2.store = c.store := by
  generalize hy : (⟨i, .failed err⟩ : Session Input Store Write Lock PyError Answer Resource) = y
    at hafter
  cases session_of_step hafter with
  | same hold =>
    rw [← hy, hbefore] at hold
    cases hold
    exact absurd rfl (hopen err)
  | @moved x he hx =>
    rw [he, interleaving_step_some hx]
    rcases advance_commits locking (c.free n) c.store x.stage with ⟨hstore, -⟩ | hcommit
    · exact hstore
    · obtain ⟨a, handler, held, ws, -, -, hstage⟩ := hcommit
      rw [hstage] at hy
      cases hy
  | cut hx => cases hy
  | fresh he hn => cases hy

/-- A granted claim has inserted the attempt. -/
theorem Granted.inserted {settings : ExecutorSettings} {limits : QuotaLimits}
    {log : List (Event Input)} {x : Assigned} (huses : ∀ i, .start i ∈ log → Uses limits i)
    (h : Granted settings (system.after log) x) :
    ∃ a, .insertAttempt a ∈ (system.after log).writes x.claim ∧ a.id = x.attemptId := by
  obtain ⟨svc, call, busy, result, work, ws, run, hclaim, hwork, hattempt, -, -⟩ := h
  obtain ⟨past, e, later, held, -, -, hpost⟩ :=
    commit_moment (verified limits) (storeInv_empty _) log (by simpa using huses) hclaim
  obtain ⟨result', hanswer, hpost, -⟩ : ∃ result', Answer.claim result = .claim result'
      ∧ ClaimPost call x.runId result' ws (system.after (past ++ [e])).store
      ∧ ∀ w ∈ ws, Works w := hpost
  cases hanswer
  obtain ⟨a, ha, hid, -⟩ := hpost.started work hwork
  refine ⟨a, ?_, hid.trans hattempt⟩
  unfold Config.writes
  rw [hclaim]
  exact ha

/-- **The accounts.** -/
structure Accounted (settings : ExecutorSettings) (limits : QuotaLimits) (w : World) : Prop where
  /-- Every call was charged before. -/
  charged : ∀ x ∈ w.executions, ∀ m ∈ x.made, CommittedCharge limits w.log x.toAssigned m.2
  /-- No two calls share a charge. -/
  own : ∀ (k k' : ℕ) x x' (j j' n : ℕ) q q', w.executions[k]? = some x →
    w.executions[k']? = some x' → x.made[j]? = some (q, n) → x'.made[j']? = some (q', n) →
      k = k' ∧ j = j'
  /-- No window of a scope has more charges than its limit. -/
  bounded : ∀ (k : Scope) window, ((chargesIn w.config k window).card : ℤ) ≤ max (calls limits k) 0
  /-- The committed state is what the committed transactions have written. -/
  commits : ∃ order, CommitLog Store.empty w.config order
  /-- A charge that raises leaves the state as it was. -/
  refused : ∀ past e later (n : ℕ) i p err, w.log = past ++ e :: later → IsCharge i →
    (system.after past).sessions[n]? = some ⟨i, p⟩ → (∀ err', p ≠ .failed err') →
    (system.after (past ++ [e])).sessions[n]? = some ⟨i, .failed err⟩ →
      (system.after (past ++ [e])).store = (system.after past).store
  /-- An attempt is executed once. -/
  once : ∀ (k k' : ℕ) x x', w.executions[k]? = some x → w.executions[k']? = some x' →
    x.attemptId = x'.attemptId → k = k'
  /-- An attempt calls at most as often as the budget of the run's kind allows. -/
  budget : ∀ x ∈ w.executions, ∃ run, w.config.store.runs.get? x.runId = some run
    ∧ x.made.length ≤ callBudget settings run.workKind

omit [Externals] in
theorem sessions_of_made {x : ChargedExecutor} {j n : ℕ} {q : ProviderRequest}
    (h : x.made[j]? = some (q, n)) : x.sessions[j]? = some n := by
  have hmap : (x.made.map Prod.snd)[j]? = some n := by
    rw [List.getElem?_map, h]
    rfl
  unfold ChargedExecutor.sessions
  rw [List.getElem?_append_left (List.getElem?_eq_some_iff.mp hmap).1]
  exact hmap

/-- **Provider calls.** In every interleaving of the database and of any number of executing attempts,
with one set of limits and a database clock that does not go back, all calls are accounted for. -/
theorem provider_calls_accounted [SchemaLibrary] (settings : ExecutorSettings)
    (limits : QuotaLimits) (clock : ℕ → ℤ) (happenings : List Happening)
    (huses : ∀ i, .database (.start i) ∈ happenings → Uses limits i)
    (hclock : Clocked clock ((executions settings limits).after happenings).log) :
    Accounted settings limits ((executions settings limits).after happenings) := by
  have h := tracked_after settings limits happenings huses
  obtain ⟨order, hlog⟩ := exists_commitLog request locking Store.empty
    ((executions settings limits).after happenings).log
  refine ⟨fun x hx m hm => ?_, fun k k' x x' j j' n q q' hx hx' hj hj' => ?_, ?_, ⟨order, hlog⟩,
    fun past e later n i p err _ _ hbefore hopen hafter => ?_, fun k k' x x' hx hx' heq => ?_,
    fun x hx => ?_⟩
  · have hcharges := h.charges x hx m.2 (List.mem_append_left _ (List.mem_map_of_mem hm))
    exact committedCharge h.uses hcharges (h.committed x hx m hm)
  · exact h.own k k' x x' j j' n hx hx' (sessions_of_made hj) (sessions_of_made hj')
  · exact (ledger_after limits clock _ h.uses hclock).bounded
  · rw [Machine.after_concat] at hafter ⊢
    exact refused_unchanged hbefore hopen hafter
  · obtain ⟨a, ha, hid⟩ := (h.granted x (List.mem_of_getElem? hx)).inserted h.uses
    obtain ⟨a', ha', hid'⟩ := (h.granted x' (List.mem_of_getElem? hx')).inserted h.uses
    refine h.claims k k' x x' hx hx' (attempt_unique hlog ha ha' ?_)
    rw [hid, hid', heq]
  · obtain ⟨svc, call, busy, result, work, ws, run, -, -, -, hrun, hbudget⟩ := h.granted x hx
    have hwithin := h.within x hx
    exact ⟨run, hrun, hbudget ▸ hwithin.made.trans hwithin.budget⟩

/-- Charges that all read the same time. -/
theorem clocked_const {now : ℤ} {events : List (Event Input)}
    (h : ∀ i, .start i ∈ events → IsCharge i → i.call.epoch = now) :
    Clocked (fun _ => now) events := by
  have hepoch {t n : ℕ} {i : Input} {p : Stage Store Write Lock PyError Answer Resource}
      (hx : (system.after (events.take t)).sessions[n]? = some ⟨i, p⟩) (hi : IsCharge i) :
      i.call.epoch = now :=
    h i (List.mem_of_mem_take
      (started_of_session request locking Store.empty (events.take t) n _ hx)) hi
  exact ⟨fun _ _ _ => le_rfl, fun t _ n i p hx hi _ => (hepoch hx hi).ge,
    fun t _ n i p hx hi _ => (hepoch hx hi).le⟩

end Accounts

/-! ### A sample -/

/-- The event starts no charge that reads another time. -/
def readsAt (now : ℤ) : Event Input → Bool
  | .start ⟨.charge _ _ _ _, call, _⟩ => decide (call.epoch = now)
  | _ => true

theorem epoch_of_readsAt {now : ℤ} {i : Input} (h : readsAt now (.start i) = true)
    (hi : IsCharge i) : i.call.epoch = now := by
  obtain ⟨op, call, busy⟩ := i
  obtain ⟨limits, runId, attemptId, workerId, hop⟩ := hi
  cases hop
  exact of_decide_eq_true h

def sampleExecutorSettings : ExecutorSettings := ⟨⟨10, 20⟩, 2048⟩

def sampleReply : Reply := ⟨.result [], 40, by norm_num, by decide +kernel⟩

def sampleJob : RegressionPayload :=
  letI := sampleSchemas
  ⟨[("dataset_id", .str "core"), ("version", .str "1"), ("cases", .arr [.obj [("case_id", .str "a"),
      ("input", .obj [("prompt", .str "go")]), ("rules", .arr [.obj answerRule])]])],
    (sampleRegression 0 0).baseline, (sampleRegression 0 0).candidate,
    (sampleRegression 0 0).gates⟩

/-- A regression and a run of another tenant are submitted and claimed. Their executions charge at
the same time; the regression then goes on to the call of its candidate. -/
def sampleCalls : List Happening :=
  (statements (sampleInput 0 1 (.submitRegression sampleRunService "tenant" "tenant" [] "key")) 0 11
      ++ statements (sampleClaim 1 2 1) 1 12
      ++ statements (sampleInput 1 3 (.submit sampleRunService "other" "key" [] [] none)) 2 11
      ++ statements (sampleClaim 1 4 3) 3 12).map .database
    ++ [.execute 1 sampleJob, .execute 3 sampleJob,
      .charge 0 (sampleCall 2 5) (fun _ => false) sampleReply,
      .charge 1 (sampleCall 2 6) (fun _ => false) sampleReply]
    ++ (List.replicate 15 [Event.step 4, .step 5]).flatten.map .database
    ++ [.charged 0 sampleReply "OSError", .charged 1 sampleReply "OSError", .replied 0 sampleReply,
      .charge 0 (sampleCall 2 7) (fun _ => false) sampleReply]
    ++ (List.replicate 15 (Event.step 6)).map .database ++ [.charged 0 sampleReply "OSError"]

/-- The calls of the sample, their charges, and the counter of the tenant of the regression. -/
theorem provider_calls_accounted_sample :
    let _ : SchemaLibrary := sampleSchemas
    let _ : Externals := sampleExternals
    let w := (executions sampleExecutorSettings QuotaLimits.default).after sampleCalls
    w.executions.map (fun x => x.made.length) = [2, 1]
      ∧ (∀ x ∈ w.executions, ∀ m ∈ x.made,
        CommittedCharge QuotaLimits.default w.log x.toAssigned m.2)
      ∧ (chargesIn w.config (.tenant "tenant") 0).card = 2 := by
  intro _ _ w
  have huses : ∀ i, .database (.start i) ∈ sampleCalls → Uses QuotaLimits.default i := by
    intro i hi
    simp only [sampleCalls, List.mem_append, List.mem_map, List.mem_cons, List.not_mem_nil,
      or_false, Happening.database.injEq, exists_eq_right, start_mem_statements, reduceCtorEq,
      List.mem_replicate, List.mem_flatten, and_false] at hi
    rcases hi with (((rfl | rfl) | rfl) | rfl) | ⟨l, ⟨-, rfl⟩, hl⟩
    · rfl
    · rfl
    · rfl
    · rfl
    · simp at hl
  have hreads : w.log.all (readsAt 2) = true := by decide +kernel
  have haccounts := provider_calls_accounted sampleExecutorSettings QuotaLimits.default _
    sampleCalls huses (clocked_const fun i hi => epoch_of_readsAt (List.all_eq_true.mp hreads _ hi))
  exact ⟨by decide +kernel, haccounts.charged, by decide +kernel⟩

end AgentRuntime.Concurrency
