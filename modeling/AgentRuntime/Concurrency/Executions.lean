import AgentRuntime.Concurrency.Ledger
import AgentRuntime.Evaluation.Regression

/-!
# Executing attempts

A worker whose claim was granted hands the work to `ResourceExecutor`, which asks the provider
registry at most as often as the budget of the run's kind allows and charges every call in a
transaction of its own first. The world is the database with all its sessions and the executions of
the workers, which go on among them: leases may expire, runs may be recovered and claimed again, also
by the same worker, while an older execution of the run still asks.

* `ChargedExecutor`: one execution, statement by statement;
* `executions`: the machine of the database and all executions;
* `Tracked`: every call of an execution has its own charge.
-/

namespace AgentRuntime.Concurrency

open Lib Domain Application Database Lifecycle Execution Evaluation

/-! ### One execution -/

/-- The settings of a worker that bound its provider calls. -/
structure ExecutorSettings extends RegressionSettings where
  providerMaxOutputTokens : ℤ

/-- `budget = settings.regression_provider_call_budget if work_kind == "regression" else 1`. -/
def callBudget (settings : ExecutorSettings) (kind : WorkKind) : ℕ :=
  if kind = .regression then settings.regressionProviderCallBudget else 1

/-- `b < a` for a limit `b` and a number of the policy. -/
def exceeds (a : PyFloat) (b : ℤ) : Bool :=
  match a with
  | .finite _ => (a.value?).any fun q => decide ((b : ℚ) < q)
  | .infinity => true
  | .negInfinity => false
  | .nan => false

/-- `min(policy.get("max_output_tokens", limit), limit)`; only numbers compare with one. -/
def outputTokens (limit : ℤ) (policy : JsonObject) : Except PyError Json :=
  match JsonObject.getD policy "max_output_tokens" (.int limit) with
  | .int n => .ok (.int (min n limit))
  | .bool b => .ok (if limit < b.toNat then .int limit else .bool b)
  | .float x => .ok (if exceeds x limit then .int limit else .float x)
  | _ => .error .typeError

/-- What the registry is called with. -/
def registryRequest (settings : ExecutorSettings) (q : ProviderRequest) :
    Except PyError ProviderRequest := do
  let tokens ← outputTokens settings.providerMaxOutputTokens q.policySnapshot
  pure { q with policySnapshot := JsonObject.set q.policySnapshot "max_output_tokens" tokens }

/-- `type(exc).__name__`. -/
def errorTypeName : PyError → String
  | .valueError _ => "ValueError"
  | .overflowError _ => "OverflowError"
  | .runtimeError _ => "RuntimeError"
  | .indexError => "IndexError"
  | .keyError => "KeyError"
  | .typeError => "TypeError"
  | .attributeError => "AttributeError"
  | .zeroDivisionError => "ZeroDivisionError"
  | .integrityError => "IntegrityError"
  | .dataError => "DBAPIError"
  | .runNotFoundError _ => "RunNotFoundError"
  | .runNotSucceededError _ => "RunNotSucceededError"
  | .idempotencyConflictError _ => "IdempotencyConflictError"
  | .quotaExceededError _ => "QuotaExceededError"
  | .invalidCursorError _ => "InvalidCursorError"
  | .keyDestroyedError _ => "KeyDestroyedError"
  | .retentionDisabledError _ => "RetentionDisabledError"
  | .invalidTag => "InvalidTag"
  | .binasciiError => "Error"
  | .jsonDecodeError => "JSONDecodeError"
  | .unicodeDecodeError => "UnicodeDecodeError"

/-- How a call ends that raises. -/
def callOutcome : PyError → CallOutcome
  | .quotaExceededError message => .quotaExceeded message
  | e => .failed (errorTypeName e)

/-- Where `ChargedExecutor.execute` stands. -/
inductive Phase where
  /-- Between two calls. -/
  | idle
  /-- The transaction of the charge is the given session. -/
  | charging (session : ℕ)
  /-- The registry works on the call. -/
  | calling
  deriving DecidableEq

/-- What an execution is for: the claim that session `claim` was granted. -/
structure Assigned where
  claim : ℕ
  runId : Uuid
  attemptId : Uuid
  workerId : String
  budget : ℕ

/-- An execution of `ResourceExecutor.execute`. `made` lists the calls that have reached the
registry, each with the session of its charge. -/
structure ChargedExecutor extends Assigned where
  program : Dialogue ProviderRequest Reply Unit
  calls : ℕ
  phase : Phase
  made : List (ProviderRequest × ℕ)

namespace ChargedExecutor

/-- The program goes on with a reply. -/
def answer (reply : Reply) (x : ChargedExecutor) : ChargedExecutor :=
  match x.program with
  | .ask _ next => { x with program := next reply, phase := .idle }
  | .done _ => x

/-- After the charge of the pending call: the call, or the exception. -/
def settle (settings : ExecutorSettings) (session : ℕ)
    (stage : Stage Store Write Lock PyError Answer Resource) (reply : Reply) (lost : String)
    (x : ChargedExecutor) : ChargedExecutor :=
  match x.program, stage with
  | .ask q _, .committed _ _ =>
    match registryRequest settings q with
    | .ok request =>
      { x with
        calls := x.calls + 1
        phase := .calling
        made := x.made ++ [(request, session)] }
    | .error e => { x with calls := x.calls + 1 }.answer { reply with outcome := callOutcome e }
  | .ask _ _, .failed e => x.answer { reply with outcome := callOutcome e }
  | .ask _ _, .aborted => x.answer { reply with outcome := .failed lost }
  | _, _ => x

/-- The sessions of the charges, the one that is still open last. -/
def sessions (x : ChargedExecutor) : List ℕ :=
  x.made.map Prod.snd ++
    match x.phase with
    | .charging n => [n]
    | _ => []

end ChargedExecutor

/-! ### The world -/

/-- The database, by all that has happened to it, and the executions of all workers. -/
structure World where
  log : List (Event Input)
  executions : List ChargedExecutor

/-- What happens next. `reply` is what the registry answers, or how long a call took that raised;
`lost` is the type of the exception if the connection of a charge broke. -/
inductive Happening where
  | database (e : Event Input)
  | execute (claim : ℕ) (job : RegressionPayload)
  | charge (k : ℕ) (call : Call) (busy : Lock → Bool) (reply : Reply)
  | charged (k : ℕ) (reply : Reply) (lost : String)
  | replied (k : ℕ) (reply : Reply)

section Machine

variable [Externals] [SchemaLibrary]

/-- The database of the world. -/
def World.config (w : World) : Config Input Store Write Lock PyError Answer Resource :=
  system.after w.log

/-- The provider calls of a unit of work: those of the regression runner, none for an evaluation,
one for an execution. -/
def executorProgram (settings : ExecutorSettings) (kind : WorkKind) (work : ClaimedWork)
    (job : RegressionPayload) : Dialogue ProviderRequest Reply Unit :=
  match kind with
  | .evaluation => .done ()
  | .regression =>
    (executeRegression Arithmetic.python settings.toRegressionSettings job).bind
      fun _ => .done ()
  | .execution => .ask ⟨work.provider, work.inputPayload, work.policySnapshot⟩ fun _ => .done ()

/-- The execution of a granted claim. The run is read first; `job` is what a stored regression
reads back as. -/
def executionOf (settings : ExecutorSettings)
    (c : Config Input Store Write Lock PyError Answer Resource) (claim : ℕ)
    (job : RegressionPayload) : Option ChargedExecutor :=
  match c.outcome? claim with
  | some (⟨.claim _ runId workerId, _, _⟩, .claim ⟨.claimed, _, some work⟩, _) =>
    (c.store.runs.get? runId).map fun run =>
      { claim := claim
        runId := runId
        attemptId := work.attemptId
        workerId := workerId
        budget := callBudget settings run.workKind
        program := executorProgram settings run.workKind work job
        calls := 0
        phase := .idle
        made := [] }
  | _ => none

/-- A worker executes a claim that it was granted, once. -/
def World.execute (settings : ExecutorSettings) (w : World) (claim : ℕ) (job : RegressionPayload) :
    World :=
  if w.executions.any fun x => x.claim == claim then w
  else { w with executions := w.executions ++ (executionOf settings w.config claim job).toList }

/-- The transaction of a charge. -/
def chargeInput (limits : QuotaLimits) (x : Assigned) (call : Call) (busy : Lock → Bool) :
    Input :=
  ⟨.charge limits x.runId x.attemptId x.workerId, call, busy⟩

/-- An execution that is about to call: a call beyond the budget raises, any other one is charged. -/
def World.charge (limits : QuotaLimits) (w : World) (k : ℕ) (call : Call) (busy : Lock → Bool)
    (reply : Reply) : World :=
  match w.executions[k]? with
  | some x =>
    match x.phase, x.program with
    | .idle, .ask _ _ =>
      if x.budget ≤ x.calls then
        { w with executions := w.executions.set k (x.answer { reply with
            outcome := .quotaExceeded "Job provider-call budget exceeded" }) }
      else
        { log := w.log ++ [.start (chargeInput limits x.toAssigned call busy)]
          executions := w.executions.set k
            { x with phase := .charging w.config.sessions.length } }
    | _, _ => w
  | none => w

/-- The charge of an execution has ended. -/
def World.charged (settings : ExecutorSettings) (w : World) (k : ℕ) (reply : Reply)
    (lost : String) : World :=
  match w.executions[k]? with
  | some x =>
    match x.phase with
    | .charging n =>
      match w.config.sessions[n]? with
      | some y => { w with executions := w.executions.set k (x.settle settings n y.stage
          reply lost) }
      | none => w
    | _ => w
  | none => w

/-- The registry has answered. -/
def World.replied (w : World) (k : ℕ) (reply : Reply) : World :=
  match w.executions[k]? with
  | some x =>
    match x.phase with
    | .calling => { w with executions := w.executions.set k (x.answer reply) }
    | _ => w
  | none => w

/-- The machine of the database and all executions. -/
def executions (settings : ExecutorSettings) (limits : QuotaLimits) :
    Machine World Happening Unit where
  init := ⟨[], []⟩
  step w
    | .database e => ((), { w with log := w.log ++ [e] })
    | .execute claim job => ((), w.execute settings claim job)
    | .charge k call busy reply => ((), w.charge limits k call busy reply)
    | .charged k reply lost => ((), w.charged settings k reply lost)
    | .replied k reply => ((), w.replied k reply)

end Machine

/-! ### One execution keeps its accounts -/

/-- No call without a charge, and no charge beyond the budget. -/
structure Within (x : ChargedExecutor) : Prop where
  made : x.made.length ≤ x.calls
  budget : x.calls ≤ x.budget
  charging : ∀ n, x.phase = .charging n → x.calls < x.budget

namespace ChargedExecutor

variable {x : ChargedExecutor} {reply : Reply} {settings : ExecutorSettings} {n : ℕ}
  {stage : Stage Store Write Lock PyError Answer Resource} {lost : String}

theorem answer_toAssigned : (x.answer reply).toAssigned = x.toAssigned := by
  unfold answer
  split
  · rfl
  · rfl

theorem answer_made : (x.answer reply).made = x.made := by
  unfold answer
  split
  · rfl
  · rfl

theorem answer_sessions : (x.answer reply).sessions <+: x.sessions := by
  unfold answer
  split
  · show x.made.map Prod.snd ++ [] <+: x.made.map Prod.snd ++ _
    rw [List.append_nil]
    exact List.prefix_append _ _
  · exact List.prefix_rfl

theorem within_answer (h : Within x) : Within (x.answer reply) := by
  unfold answer
  split
  · exact ⟨h.made, h.budget, fun n hn => by cases hn⟩
  · exact h

theorem settle_toAssigned :
    (x.settle settings n stage reply lost).toAssigned = x.toAssigned := by
  unfold settle
  split
  · split
    · rfl
    · exact answer_toAssigned
  · exact answer_toAssigned
  · exact answer_toAssigned
  · rfl

/-- A call takes the place of its charge. -/
theorem settle_sessions (hphase : x.phase = .charging n) :
    (x.settle settings n stage reply lost).sessions <+: x.sessions := by
  unfold settle
  split
  · split
    · unfold sessions
      rw [hphase, List.map_append, List.append_nil]
      exact List.prefix_rfl
    · exact answer_sessions (x := { x with calls := x.calls + 1 })
  · exact answer_sessions
  · exact answer_sessions
  · exact List.prefix_rfl

theorem settle_made {m : ProviderRequest × ℕ}
    (hm : m ∈ (x.settle settings n stage reply lost).made) :
    m ∈ x.made ∨ (m.2 = n ∧ stage.outcome?.isSome = true) := by
  unfold settle at hm
  split at hm
  · split at hm
    · rcases List.mem_append.mp hm with hold | hnew
      · exact .inl hold
      · rw [List.mem_singleton.mp hnew]
        exact .inr ⟨rfl, rfl⟩
    · rw [answer_made] at hm
      exact .inl hm
  · rw [answer_made] at hm
    exact .inl hm
  · rw [answer_made] at hm
    exact .inl hm
  · exact .inl hm

theorem within_settle (h : Within x) (hphase : x.phase = .charging n) :
    Within (x.settle settings n stage reply lost) := by
  have hlt := h.charging n hphase
  have hcounted : x.made.length ≤ x.calls + 1 := h.made.trans (Nat.le_succ _)
  unfold settle
  split
  · split
    · refine ⟨?_, hlt, fun m hm => by cases hm⟩
      rw [List.length_append]
      exact Nat.succ_le_succ h.made
    · rename_i q next _ _ hask _ _ _
      simp only [answer, hask]
      exact ⟨hcounted, hlt, fun m hm => by cases hm⟩
  · exact within_answer h
  · exact within_answer h
  · exact h

end ChargedExecutor

/-! ### All executions -/

section Tracked

variable [Externals] [SchemaLibrary]

/-- The claim that an execution is for was granted, and the budget is the one of the run's kind. -/
def Granted (settings : ExecutorSettings)
    (c : Config Input Store Write Lock PyError Answer Resource) (x : Assigned) : Prop :=
  ∃ svc call busy result work ws run,
    c.outcome? x.claim = some (⟨.claim svc x.runId x.workerId, call, busy⟩, .claim result, ws)
    ∧ result.work = some work ∧ work.attemptId = x.attemptId
    ∧ c.store.runs.get? x.runId = some run ∧ x.budget = callBudget settings run.workKind

/-- The session charges a call of the execution. -/
def ChargesFor (limits : QuotaLimits)
    (c : Config Input Store Write Lock PyError Answer Resource) (x : Assigned) (n : ℕ) : Prop :=
  ∃ call busy p, c.sessions[n]? = some ⟨chargeInput limits x call busy, p⟩

/-- **What is kept.** Every execution is for a claim of its own and keeps its accounts; its calls
have committed charges of their own. -/
structure Tracked (settings : ExecutorSettings) (limits : QuotaLimits) (w : World) : Prop where
  uses : ∀ i, .start i ∈ w.log → Uses limits i
  within : ∀ x ∈ w.executions, Within x
  granted : ∀ x ∈ w.executions, Granted settings w.config x.toAssigned
  charges : ∀ x ∈ w.executions, ∀ n ∈ x.sessions, ChargesFor limits w.config x.toAssigned n
  committed : ∀ x ∈ w.executions, ∀ m ∈ x.made, (w.config.outcome? m.2).isSome = true
  own : ∀ (k k' : ℕ) x x' (j j' n : ℕ), w.executions[k]? = some x →
    w.executions[k']? = some x' → x.sessions[j]? = some n → x'.sessions[j']? = some n →
      k = k' ∧ j = j'
  claims : ∀ (k k' : ℕ) x x', w.executions[k]? = some x → w.executions[k']? = some x' →
    x.claim = x'.claim → k = k'

variable {settings : ExecutorSettings} {limits : QuotaLimits} {w : World} {k : ℕ}
  {x x' : ChargedExecutor}

omit [SchemaLibrary] in
theorem World.config_concat (w : World) (e : Event Input) (xs : List ChargedExecutor) :
    World.config ⟨w.log ++ [e], xs⟩ = (system.step w.config e).2 :=
  Machine.after_concat _ w.log e

omit [SchemaLibrary] in
/-- The database goes on. -/
theorem Tracked.happens (h : Tracked settings limits w) {e : Event Input}
    (huses : ∀ i, e = .start i → Uses limits i) :
    Tracked settings limits ⟨w.log ++ [e], w.executions⟩ where
  uses i hi := by
    rcases List.mem_append.mp hi with hold | hnew
    · exact h.uses i hold
    · exact huses i (List.mem_singleton.mp hnew).symm
  within := h.within
  granted x hx := by
    obtain ⟨svc, call, busy, result, work, ws, run, hclaim, hwork, hattempt, hrun, hbudget⟩ :=
      h.granted x hx
    have hsound := sound (some limits) w.log (by simpa using h.uses)
    have hframe : Frame [] w.config.store (system.step w.config e).2.store :=
      hsound.frame_step request Store.empty e
    obtain ⟨run', hrun', hkept⟩ := hframe.runs.stays _ _ hrun
    have hkind : run'.workKind = run.workKind := congrArg Accepted.workKind hkept.1
    rw [World.config_concat]
    refine ⟨svc, call, busy, result, work, ws, run', ?_, hwork, hattempt, hrun', ?_⟩
    · exact outcome_persists request locking Store.empty e hclaim
    · rw [hkind]
      exact hbudget
  charges x hx n hn := by
    obtain ⟨call, busy, p, hp⟩ := h.charges x hx n hn
    obtain ⟨p', hp'⟩ := session_persists request locking Store.empty e hp
    rw [World.config_concat]
    exact ⟨call, busy, p', hp'⟩
  committed x hx m hm := by
    obtain ⟨o, ho⟩ := Option.isSome_iff_exists.mp (h.committed x hx m hm)
    rw [World.config_concat, outcome_persists request locking Store.empty e ho]
    rfl
  own := h.own
  claims := h.claims

omit [SchemaLibrary] in
/-- One execution goes on. Each of its charges is one that it had, or one that nobody has. -/
theorem Tracked.set (h : Tracked settings limits w) (hx : w.executions[k]? = some x)
    (hassigned : x'.toAssigned = x.toAssigned) (hwithin : Within x')
    (hcharges : ∀ n ∈ x'.sessions, ChargesFor limits w.config x.toAssigned n)
    (hcommitted : ∀ m ∈ x'.made, (w.config.outcome? m.2).isSome = true)
    (hown : ∀ (j n : ℕ), x'.sessions[j]? = some n → x.sessions[j]? = some n
      ∨ ((∀ y ∈ w.executions, n ∉ y.sessions) ∧ ∀ j' : ℕ, x'.sessions[j']? = some n → j' = j)) :
    Tracked settings limits ⟨w.log, w.executions.set k x'⟩ := by
  have hmem := List.mem_of_getElem? hx
  have hall {P : ChargedExecutor → Prop} (hold : ∀ y ∈ w.executions, P y) (hnew : P x') :
      ∀ y ∈ w.executions.set k x', P y := by
    intro y hy
    rcases List.mem_or_eq_of_mem_set hy with hy | rfl
    · exact hold y hy
    · exact hnew
  refine ⟨h.uses, hall h.within hwithin, hall h.granted ?_, hall h.charges ?_,
    hall h.committed hcommitted, ?_, ?_⟩
  · rw [hassigned]
    exact h.granted x hmem
  · rw [hassigned]
    exact hcharges
  · intro i i' y y' j j' n hy hy' hj hj'
    have hfresh {y : ChargedExecutor} {i j j' : ℕ} (hi : w.executions[i]? = some y)
        (hj : y.sessions[j]? = some n) (hj' : x'.sessions[j']? = some n) :
        x.sessions[j']? = some n := by
      rcases hown j' n hj' with hold | ⟨hnobody, -⟩
      · exact hold
      · exact absurd (List.mem_of_getElem? hj) (hnobody y (List.mem_of_getElem? hi))
    rcases getElem?_set_cases hx hy with ⟨rfl, rfl⟩ | ⟨-, hold⟩
    · rcases getElem?_set_cases hx hy' with ⟨rfl, rfl⟩ | ⟨-, hold'⟩
      · rcases hown j n hj with hn | ⟨-, honly⟩
        · exact ⟨rfl, (h.own _ _ _ _ _ _ n hx hx hn (hfresh hx hn hj')).2⟩
        · exact ⟨rfl, (honly j' hj').symm⟩
      · exact h.own _ _ _ _ _ _ n hx hold' (hfresh hold' hj' hj) hj'
    · rcases getElem?_set_cases hx hy' with ⟨rfl, rfl⟩ | ⟨-, hold'⟩
      · exact h.own _ _ _ _ _ _ n hold hx hj (hfresh hold hj hj')
      · exact h.own _ _ _ _ _ _ n hold hold' hj hj'
  · intro i i' y y' hy hy' heq
    have hclaim : x'.claim = x.claim := congrArg Assigned.claim hassigned
    rcases getElem?_set_cases hx hy with ⟨rfl, rfl⟩ | ⟨-, hold⟩
    · rcases getElem?_set_cases hx hy' with ⟨rfl, rfl⟩ | ⟨-, hold'⟩
      · rfl
      · exact h.claims _ _ _ _ hx hold' (hclaim.symm.trans heq)
    · rcases getElem?_set_cases hx hy' with ⟨rfl, rfl⟩ | ⟨-, hold'⟩
      · exact h.claims _ _ _ _ hold hx (heq.trans hclaim)
      · exact h.claims _ _ _ _ hold hold' heq

omit [SchemaLibrary] in
/-- One execution goes on without a new charge. -/
theorem Tracked.goesOn (h : Tracked settings limits w) (hx : w.executions[k]? = some x)
    (hassigned : x'.toAssigned = x.toAssigned) (hwithin : Within x')
    (hsessions : x'.sessions <+: x.sessions)
    (hmade : ∀ m ∈ x'.made, m ∈ x.made ∨ (w.config.outcome? m.2).isSome = true) :
    Tracked settings limits ⟨w.log, w.executions.set k x'⟩ := by
  have hmem := List.mem_of_getElem? hx
  refine h.set hx hassigned hwithin (fun n hn => ?_) (fun m hm => ?_) fun j n hj => .inl ?_
  · exact h.charges x hmem n (hsessions.subset hn)
  · rcases hmade m hm with hold | hdone
    · exact h.committed x hmem m hold
    · exact hdone
  · obtain ⟨rest, hrest⟩ := hsessions
    rw [← hrest, List.getElem?_append_left (List.getElem?_eq_some_iff.mp hj).1]
    exact hj

omit [SchemaLibrary] in
/-- A session that does not exist yet charges for nobody. -/
theorem Tracked.fresh (h : Tracked settings limits w) :
    ∀ y ∈ w.executions, w.config.sessions.length ∉ y.sessions := by
  intro y hy hn
  obtain ⟨call, busy, p, hp⟩ := h.charges y hy _ hn
  exact absurd (List.getElem?_eq_some_iff.mp hp).1 (lt_irrefl _)

omit [SchemaLibrary] in
/-- An execution starts to charge a call. -/
theorem Tracked.charging (h : Tracked settings limits w) (hx : w.executions[k]? = some x)
    (hphase : x.phase = .idle) (hbudget : x.calls < x.budget) (call : Call) (busy : Lock → Bool) :
    Tracked settings limits ⟨w.log ++ [.start (chargeInput limits x.toAssigned call busy)],
      w.executions.set k { x with phase := .charging w.config.sessions.length }⟩ := by
  have hmem := List.mem_of_getElem? hx
  have hstarted := h.happens (e := .start (chargeInput limits x.toAssigned call busy))
    fun i hi => by cases hi; rfl
  have hsessions : x.sessions = x.made.map Prod.snd := by
    unfold ChargedExecutor.sessions
    rw [hphase, List.append_nil]
  have hnew : ChargesFor limits (World.config
      ⟨w.log ++ [.start (chargeInput limits x.toAssigned call busy)], w.executions⟩)
      x.toAssigned w.config.sessions.length := by
    rw [World.config_concat]
    exact ⟨call, busy, _, List.getElem?_concat_length⟩
  have hnobody : w.config.sessions.length ∉ x.made.map Prod.snd := by
    rw [← hsessions]
    exact h.fresh x hmem
  refine hstarted.set hx rfl ?_ (fun n hn => ?_) (hstarted.committed x hmem) fun j n hj => ?_
  · have hwithin := h.within x hmem
    exact ⟨hwithin.made, hwithin.budget, fun _ _ => hbudget⟩
  · rcases List.mem_append.mp hn with hold | hlast
    · refine hstarted.charges x hmem n ?_
      rw [hsessions]
      exact hold
    · rw [List.mem_singleton.mp hlast]
      exact hnew
  · rcases getElem?_concat_cases hj with hold | ⟨rfl, rfl⟩
    · rw [hsessions]
      exact .inl hold
    · refine .inr ⟨h.fresh, fun j' hj' => ?_⟩
      rcases getElem?_concat_cases hj' with hold | ⟨hlast, -⟩
      · exact absurd (List.mem_of_getElem? hold) hnobody
      · exact hlast

omit [SchemaLibrary] in
/-- An execution starts that has not called yet, for a claim of its own. -/
theorem Tracked.add (h : Tracked settings limits w) (hwithin : Within x)
    (hgranted : Granted settings w.config x.toAssigned) (hsessions : x.sessions = [])
    (hmade : x.made = []) (hclaim : ∀ y ∈ w.executions, y.claim ≠ x.claim) :
    Tracked settings limits ⟨w.log, w.executions ++ [x]⟩ := by
  have hall {P : ChargedExecutor → Prop} (hold : ∀ y ∈ w.executions, P y) (hnew : P x) :
      ∀ y ∈ w.executions ++ [x], P y := by
    intro y hy
    rcases List.mem_append.mp hy with hy | hy
    · exact hold y hy
    · rw [List.mem_singleton.mp hy]
      exact hnew
  refine ⟨h.uses, hall h.within hwithin, hall h.granted hgranted, hall h.charges ?_,
    hall h.committed ?_, ?_, ?_⟩
  · rw [hsessions]
    exact fun n hn => absurd hn List.not_mem_nil
  · rw [hmade]
    exact fun m hm => absurd hm List.not_mem_nil
  · intro i i' y y' j j' n hy hy' hj hj'
    rcases getElem?_concat_cases hy with hold | ⟨-, rfl⟩
    · rcases getElem?_concat_cases hy' with hold' | ⟨-, rfl⟩
      · exact h.own _ _ _ _ _ _ n hold hold' hj hj'
      · rw [hsessions] at hj'
        cases hj'
    · rw [hsessions] at hj
      cases hj
  · intro i i' y y' hy hy' heq
    rcases getElem?_concat_cases hy with hold | ⟨hi, rfl⟩
    · rcases getElem?_concat_cases hy' with hold' | ⟨-, rfl⟩
      · exact h.claims _ _ _ _ hold hold' heq
      · exact absurd heq (hclaim y (List.mem_of_getElem? hold))
    · rcases getElem?_concat_cases hy' with hold' | ⟨hi', -⟩
      · exact absurd heq.symm (hclaim y' (List.mem_of_getElem? hold'))
      · rw [hi, hi']

/-- An execution of a granted claim starts. -/
theorem Tracked.execute (h : Tracked settings limits w) (claim : ℕ) (job : RegressionPayload) :
    Tracked settings limits (w.execute settings claim job) := by
  unfold World.execute
  split
  · exact h
  · rename_i hnone
    cases hnew : executionOf settings w.config claim job with
    | none =>
      rw [Option.toList_none, List.append_nil]
      exact h
    | some x =>
      unfold executionOf at hnew
      split at hnew
      case h_2 => cases hnew
      case h_1 svc runId workerId call busy result work ws hclaim =>
        obtain ⟨run, hrun, rfl⟩ := Option.map_eq_some_iff.mp hnew
        refine h.add ⟨le_rfl, Nat.zero_le _, fun _ hn => by cases hn⟩ ?_ rfl rfl ?_
        · exact ⟨_, _, _, _, _, _, run, hclaim, rfl, rfl, hrun, rfl⟩
        · intro y hy heq
          exact hnone (List.any_eq_true.mpr ⟨y, hy, beq_iff_eq.mpr heq⟩)

/-- **One step** of the world. -/
theorem Tracked.step (h : Tracked settings limits w) {e : Happening}
    (huses : ∀ i, e = .database (.start i) → Uses limits i) :
    Tracked settings limits ((executions settings limits).step w e).2 := by
  cases e with
  | database e => exact h.happens fun i hi => huses i (by rw [hi])
  | execute claim job => exact h.execute claim job
  | charge k call busy reply =>
    show Tracked settings limits (w.charge limits k call busy reply)
    unfold World.charge
    split
    · rename_i x hx
      have hmem := List.mem_of_getElem? hx
      split
      · rename_i hphase hask
        split
        · exact h.goesOn hx ChargedExecutor.answer_toAssigned
            (ChargedExecutor.within_answer (h.within x hmem)) ChargedExecutor.answer_sessions
            fun m hm => .inl (by rwa [ChargedExecutor.answer_made] at hm)
        · rename_i hbudget
          exact h.charging hx hphase (Nat.lt_of_not_le hbudget) call busy
      · exact h
    · exact h
  | charged k reply lost =>
    show Tracked settings limits (w.charged settings k reply lost)
    unfold World.charged
    split
    · rename_i x hx
      have hmem := List.mem_of_getElem? hx
      split
      · rename_i n hphase
        split
        · rename_i y hy
          refine h.goesOn hx ChargedExecutor.settle_toAssigned
            (ChargedExecutor.within_settle (h.within x hmem) hphase)
            (ChargedExecutor.settle_sessions hphase) fun m hm => ?_
          rcases ChargedExecutor.settle_made hm with hold | ⟨hn, hdone⟩
          · exact .inl hold
          · obtain ⟨o, ho⟩ := Option.isSome_iff_exists.mp hdone
            refine .inr ?_
            unfold Config.outcome?
            rw [hn, hy, Option.bind_some, ho]
            rfl
        · exact h
      · exact h
    · exact h
  | replied k reply =>
    show Tracked settings limits (w.replied k reply)
    unfold World.replied
    split
    · rename_i x hx
      split
      · exact h.goesOn hx ChargedExecutor.answer_toAssigned
          (ChargedExecutor.within_answer (h.within x (List.mem_of_getElem? hx)))
          ChargedExecutor.answer_sessions
          fun m hm => .inl (by rwa [ChargedExecutor.answer_made] at hm)
      · exact h
    · exact h

/-- **All runs** of the world. -/
theorem tracked_after (settings : ExecutorSettings) (limits : QuotaLimits)
    (happenings : List Happening)
    (huses : ∀ i, .database (.start i) ∈ happenings → Uses limits i) :
    Tracked settings limits ((executions settings limits).after happenings) := by
  induction happenings using List.reverseRecOn with
  | nil =>
    have hempty {x : ChargedExecutor} {k : ℕ} : ([] : List ChargedExecutor)[k]? ≠ some x := by
      simp
    exact ⟨fun _ hi => absurd hi List.not_mem_nil, fun _ hx => absurd hx List.not_mem_nil,
      fun _ hx => absurd hx List.not_mem_nil, fun _ hx => absurd hx List.not_mem_nil,
      fun _ hx => absurd hx List.not_mem_nil, fun _ _ _ _ _ _ _ hx => absurd hx hempty,
      fun _ _ _ _ hx => absurd hx hempty⟩
  | append_singleton happenings e ih =>
    rw [Machine.after_concat]
    refine (ih fun i hi => huses i (List.mem_append_left _ hi)).step ?_
    rintro i rfl
    exact huses i (by simp)

end Tracked

end AgentRuntime.Concurrency
