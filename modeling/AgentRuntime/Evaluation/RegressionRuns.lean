import AgentRuntime.Evaluation.Regression

/-!
# Runs of admitted regression jobs

Whatever the executor does, a run issues its calls in the order of the dataset, baseline first, and
stops early only when a call exceeds a quota. After the last call it still has to compare: the
change of the estimated cost is a quotient of two integers, and a job whose costs are too far apart
loses its report there.

* `Issued`: the calls of a run, with the replies they got;
* `runCases_issued`, `runRegression_issued`: the runner issues its calls like this;
* `CostInRange`: the costs whose comparison is a finite float;
* `regression_job_reports_iff`: exactly the jobs with such costs always end with a report or with
  an exceeded quota.
-/

namespace AgentRuntime.Evaluation

open Lib Domain

/-! ### Calls -/

/-- The executor ended a call with `QuotaExceededError`. -/
def Reply.OverQuota (reply : Reply) : Prop := ∃ message, reply.outcome = .quotaExceeded message

/-- The calls that were issued out of the expected ones, the first of them with the `n`-th reply:
all of them, or up to the first one over a quota. -/
inductive Issued (answers : ℕ → Reply) (n : ℕ) (expected : List ProviderRequest) :
    List ProviderRequest → Bool → Prop where
  | all (within : ∀ i < expected.length, ¬ (answers (n + i)).OverQuota) :
      Issued answers n expected expected false
  | upTo {i : ℕ} (inside : i < expected.length) (exceeded : (answers (n + i)).OverQuota)
      (within : ∀ j < i, ¬ (answers (n + j)).OverQuota) :
      Issued answers n expected (expected.take (i + 1)) true

/-- How a program ends: with `QuotaExceededError` if it was stopped, else as said. -/
def Ends {α : Type} (stopped : Bool) (out : Except PyError α) (P : Except PyError α → Prop) : Prop :=
  if stopped then ∃ message, out = .error (.quotaExceededError message) else P out

/-- The program issues the expected calls, the first of them with the `n`-th reply, and ends as said
unless a quota stops it. -/
def Runner.Issues {α : Type} (x : Runner α) (answers : ℕ → Reply) (n : ℕ)
    (expected : List ProviderRequest) (P : Except PyError α → Prop) : Prop :=
  ∃ stopped, Issued answers n expected (x.run answers n).1 stopped
    ∧ Ends stopped (x.run answers n).2 P

section Calls

variable {answers : ℕ → Reply} {n : ℕ} {first second calls : List ProviderRequest} {stopped : Bool}

theorem Issued.cons {request : ProviderRequest} (hfirst : ¬ (answers n).OverQuota)
    (h : Issued answers (n + 1) first calls stopped) :
    Issued answers n (request :: first) (request :: calls) stopped := by
  have hshift : ∀ i, n + 1 + i = n + (i + 1) := fun i => by omega
  cases h with
  | all hwithin =>
    refine .all fun i hi => ?_
    cases i with
    | zero => exact hfirst
    | succ i =>
      rw [← hshift]
      exact hwithin i (by simpa using hi)
  | @upTo i hinside hover hwithin =>
    refine .upTo (i := i + 1) (by simpa using hinside) (by rwa [← hshift]) fun j hj => ?_
    cases j with
    | zero => exact hfirst
    | succ j =>
      rw [← hshift]
      exact hwithin j (by omega)

theorem Issued.nil : Issued answers n [] [] false :=
  .all fun i hi => absurd hi (Nat.not_lt_zero i)

theorem Issued.of_not_stopped (h : Issued answers n first calls stopped) (hstopped : stopped = false) :
    calls = first ∧ ∀ i < first.length, ¬ (answers (n + i)).OverQuota := by
  cases h with
  | all hwithin => exact ⟨rfl, hwithin⟩
  | upTo _ _ _ => exact absurd hstopped (by simp)

theorem Issued.overQuota (h : Issued answers n first calls stopped) (hstopped : stopped = true) :
    ∃ i, (answers i).OverQuota := by
  cases h with
  | all _ => exact absurd hstopped (by simp)
  | @upTo i _ hover _ => exact ⟨n + i, hover⟩

/-- One part of a run after another that was not stopped. -/
theorem Issued.append (h1 : Issued answers n first first false)
    (h2 : Issued answers (n + first.length) second calls stopped) :
    Issued answers n (first ++ second) (first ++ calls) stopped := by
  have hfirst := (h1.of_not_stopped rfl).2
  -- a later index is one of the second part
  have hboth : ∀ k, (∀ j < k, ¬ (answers (n + first.length + j)).OverQuota) →
      ∀ j < first.length + k, ¬ (answers (n + j)).OverQuota := by
    intro k hk j hj
    by_cases hin : j < first.length
    · exact hfirst j hin
    · have := hk (j - first.length) (by omega)
      rwa [show n + first.length + (j - first.length) = n + j by omega] at this
  cases h2 with
  | all hwithin =>
    exact .all fun i hi => hboth _ hwithin i (by simpa using hi)
  | @upTo i hinside hover hwithin =>
    rw [show first ++ second.take (i + 1) = (first ++ second).take (first.length + i + 1) by
      rw [Nat.add_assoc, List.take_length_add_append]]
    refine .upTo (by rw [List.length_append]; omega) ?_ (hboth i hwithin)
    rwa [← Nat.add_assoc]

/-- A part that was stopped is the whole run. -/
theorem Issued.stopped_append (h : Issued answers n first calls true)
    (second : List ProviderRequest) : Issued answers n (first ++ second) calls true := by
  cases h with
  | @upTo i hinside hover hwithin =>
    have htake : first.take (i + 1) = (first ++ second).take (i + 1) := by
      rw [List.take_append_of_le_length (by omega)]
    rw [htake]
    exact .upTo (by rw [List.length_append]; omega) hover hwithin

/-- A program that calls nobody. -/
theorem Runner.issues_done {α : Type} {out : Except PyError α} {P : Except PyError α → Prop}
    (h : P out) : Runner.Issues (.done out) answers n [] P :=
  ⟨false, .nil, h⟩

/-- **One program after another** issues the calls of both. -/
theorem Runner.Issues.andThen {α β : Type} {x : Runner α} {f : α → Runner β} {Q : α → Prop}
    {P : Except PyError β → Prop}
    (hx : x.Issues answers n first fun out => ∃ a, out = .ok a ∧ Q a)
    (hf : ∀ a, Q a → (f a).Issues answers (n + first.length) second P) :
    (x.andThen f).Issues answers n (first ++ second) P := by
  obtain ⟨stopped, hissued, hends⟩ := hx
  unfold Runner.Issues Runner.andThen
  rw [Dialogue.run_bind]
  cases stopped with
  | true =>
    obtain ⟨message, herror⟩ := hends
    rw [herror]
    refine ⟨true, ?_, message, rfl⟩
    simpa using hissued.stopped_append second
  | false =>
    obtain ⟨a, hok, hQ⟩ := hends
    obtain ⟨hcalls, -⟩ := hissued.of_not_stopped rfl
    obtain ⟨stopped, hissued', hends'⟩ := hf a hQ
    rw [hcalls] at hissued ⊢
    rw [hok]
    exact ⟨stopped, hissued.append hissued', hends'⟩

end Calls

/-! ### One target -/

/-- What the results of a target have in common. -/
structure Measured (target : ProviderModelTarget) (count : ℕ) (results : List CaseResult) :
    Prop where
  length : results.length = count
  cost : ∀ r ∈ results, r.estimatedCostMicrousd = target.estimatedCostMicrousd
  latency : ∀ r ∈ results, 0 ≤ r.latencyMs ∧ r.latencyMs ≤ binary64Max

theorem Reply.latencyMs_mem (reply : Reply) : 0 ≤ reply.latencyMs ∧ reply.latencyMs ≤ binary64Max :=
  ⟨roundHalfEven_nonneg reply.elapsed_nonneg, roundHalfEven_le_of_le reply.elapsed_le⟩

section Runs

variable [SchemaLibrary] {answers : ℕ → Reply}

/-- A case has a result unless its call was over a quota. -/
theorem caseResult_cases (target : ProviderModelTarget) (case : RegressionCase) (reply : Reply) :
    (reply.OverQuota ∧ ∃ message, caseResult target case reply = .error (.quotaExceededError message))
      ∨ ¬ reply.OverQuota ∧ ∃ passed evidence, caseResult target case reply
        = .ok ⟨case.caseId, passed, reply.latencyMs, target.estimatedCostMicrousd, evidence⟩ := by
  unfold caseResult Reply.OverQuota
  cases houtcome : reply.outcome with
  | quotaExceeded message => exact .inl ⟨⟨message, rfl⟩, message, rfl⟩
  | failed errorType => exact .inr ⟨by simp, false, .errorType errorType, rfl⟩
  | result payload =>
    refine .inr ⟨by simp, ?_⟩
    dsimp only
    split
    · exact ⟨_, _, rfl⟩
    · exact ⟨_, _, rfl⟩

/-- **The loop over the cases** issues one call for each, and has a result for each unless it was
stopped. -/
theorem runCases_issued (target : ProviderModelTarget) (cases : List RegressionCase)
    (results : List CaseResult) (n : ℕ) :
    (runCases target cases results).Issues answers n (cases.map (targetRequest target)) fun out =>
      ∃ more, out = .ok (results ++ more) ∧ Measured target cases.length more := by
  induction cases generalizing results n with
  | nil =>
    exact Runner.issues_done ⟨[], by simp, rfl, by simp, by simp⟩
  | cons case cases ih =>
    rw [runCases, Runner.Issues, Dialogue.run_ask, List.map_cons]
    rcases caseResult_cases target case (answers n) with ⟨hover, message, herror⟩ | ⟨hwithin, hok⟩
    · rw [herror]
      exact ⟨true, .upTo (i := 0) (by simp) hover fun j hj => absurd hj (Nat.not_lt_zero j),
        message, rfl⟩
    · obtain ⟨passed, evidence, hresult⟩ := hok
      rw [hresult]
      obtain ⟨stopped, hissued, hends⟩ := ih (results ++ [⟨case.caseId, passed,
        (answers n).latencyMs, target.estimatedCostMicrousd, evidence⟩]) (n + 1)
      refine ⟨stopped, hissued.cons hwithin, ?_⟩
      cases stopped with
      | true => exact hends
      | false =>
        obtain ⟨more, hout, hmeasured⟩ := hends
        refine ⟨_ :: more, by rw [hout, List.append_assoc]; rfl, ?_, ?_, ?_⟩
        · simp [hmeasured.length]
        · exact List.forall_mem_cons.mpr ⟨rfl, hmeasured.cost⟩
        · exact List.forall_mem_cons.mpr ⟨(answers n).latencyMs_mem, hmeasured.latency⟩

end Runs

/-! ### Summaries and comparisons -/

theorem trueDivide_of_lt {a b : ℤ} (hb : b ≠ 0) (h : |(a : ℚ) / b| < binary64Limit) :
    Arithmetic.python.trueDivide a b = .ok (a / b) := by
  simp [Arithmetic.trueDivide, Arithmetic.python, hb, h]

theorem trueDivide_of_le {a b : ℤ} (hb : b ≠ 0) (h : binary64Limit ≤ |(a : ℚ) / b|) :
    Arithmetic.python.trueDivide a b
      = .error (.overflowError "integer division result too large for a float") := by
  simp [Arithmetic.trueDivide, Arithmetic.python, hb, not_lt.mpr h]

theorem binary64Max_lt_limit : (binary64Max : ℚ) < binary64Limit := by
  have hpow : (2 : ℚ) ^ 970 < 2 ^ 971 := pow_lt_pow_right₀ (by norm_num) (by norm_num)
  rw [binary64Max, binary64Limit, Int.cast_sub, Int.cast_pow, Int.cast_pow, Int.cast_ofNat]
  exact sub_lt_sub_left hpow _

theorem one_lt_binary64Limit : (1 : ℚ) < binary64Limit := by
  have hone : (1 : ℚ) < 2 ^ 970 := one_lt_pow₀ (by norm_num) (by norm_num)
  have hdouble : (2 : ℚ) ^ 970 * 2 = 2 ^ 971 := (pow_succ 2 970).symm
  have hpow : (2 : ℚ) ^ 971 ≤ 2 ^ 1024 := pow_le_pow_right₀ (by norm_num) (by norm_num)
  unfold binary64Limit
  generalize (2 : ℚ) ^ 970 = small, (2 : ℚ) ^ 971 = twice, (2 : ℚ) ^ 1024 = large at *
  linarith

variable {count : ℕ}

/-- An average of numbers between zero and a float is in the range of floats. -/
theorem average_lt_limit {total bound : ℤ} (hcount : 0 < count) (htotal : 0 ≤ total)
    (hle : total ≤ count * bound) (hbound : (bound : ℚ) < binary64Limit) :
    |(total : ℚ) / count| < binary64Limit := by
  have hpos : (0 : ℚ) < count := by exact_mod_cast hcount
  have htotal' : (0 : ℚ) ≤ total := by exact_mod_cast htotal
  have hle' : (total : ℚ) ≤ count * bound := by exact_mod_cast hle
  rw [abs_of_nonneg (div_nonneg htotal' hpos.le), div_lt_iff₀ hpos]
  nlinarith

variable {target : ProviderModelTarget} {results : List CaseResult}

theorem Measured.sum_latency (h : Measured target count results) :
    0 ≤ (results.map CaseResult.latencyMs).sum
      ∧ (results.map CaseResult.latencyMs).sum ≤ count * binary64Max := by
  obtain ⟨rfl, -, hlatency⟩ := h
  induction results with
  | nil => simp
  | cons r results ih =>
    obtain ⟨⟨hlow, hhigh⟩, hrest⟩ := List.forall_mem_cons.mp hlatency
    obtain ⟨hnonneg, hle⟩ := ih hrest
    rw [List.map_cons, List.sum_cons, List.length_cons]
    push_cast
    constructor <;> linarith

theorem Measured.sum_cost (h : Measured target count results) :
    (results.map CaseResult.estimatedCostMicrousd).sum = count * target.estimatedCostMicrousd := by
  obtain ⟨rfl, hcost, -⟩ := h
  rw [List.map_congr_left hcost, List.map_const', List.sum_replicate, nsmul_eq_mul]

/-- A target with results has a summary. -/
theorem summarize_ok (hcount : 0 < count) (h : Measured target count results) :
    ∃ summary, summarize .python results = .ok summary
      ∧ summary.estimatedCostMicrousd = count * target.estimatedCostMicrousd := by
  have hne : (results.length : ℤ) ≠ 0 := by
    rw [h.length]
    omega
  have hpassed : ((results.filter CaseResult.passed).length : ℤ) ≤ count * 1 := by
    have := List.length_filter_le CaseResult.passed results
    rw [h.length] at this
    omega
  have hrate := trueDivide_of_lt hne (by
    rw [h.length]
    exact_mod_cast average_lt_limit hcount (by positivity) hpassed (by simpa using one_lt_binary64Limit))
  have haverage := trueDivide_of_lt hne (by
    rw [h.length]
    exact_mod_cast average_lt_limit hcount h.sum_latency.1 h.sum_latency.2 binary64Max_lt_limit)
  simp only [summarize, hrate, haverage]
  exact ⟨_, rfl, h.sum_cost⟩

/-- The change of the cost is a finite float. -/
def CostInRange (baseline candidate : ℤ) : Prop :=
  baseline = 0 ∨ ((candidate - baseline : ℤ) : ℚ) < binary64Limit * baseline

theorem metricComparison_float (A : Arithmetic) (baseline candidate : ℚ) (allowed : Option ℚ) :
    ∃ compared, metricComparison A (.float baseline) (.float candidate) allowed = .ok compared := by
  unfold metricComparison percentDelta
  split
  · exact ⟨_, rfl⟩
  · exact ⟨_, rfl⟩

variable {baseline candidate : ℤ}

/-- The quotient of two totals over the same number of cases. -/
theorem abs_change_lt_iff (hcount : 0 < count) (hbaseline : 0 < baseline)
    (hcandidate : 0 ≤ candidate) :
    |((count * candidate - count * baseline : ℤ) : ℚ) / (count * baseline : ℤ)| < binary64Limit
      ↔ ((candidate - baseline : ℤ) : ℚ) < binary64Limit * baseline := by
  have hcount' : (0 : ℚ) < count := by exact_mod_cast hcount
  have hbaseline' : (0 : ℚ) < baseline := by exact_mod_cast hbaseline
  have hcandidate' : (0 : ℚ) ≤ candidate := by exact_mod_cast hcandidate
  have hquotient : ((count * candidate - count * baseline : ℤ) : ℚ) / (count * baseline : ℤ)
      = ((candidate - baseline : ℤ) : ℚ) / baseline := by
    push_cast
    field_simp
  rw [hquotient, abs_lt, ← div_lt_iff₀ hbaseline']
  refine ⟨fun h => h.2, fun h => ⟨?_, h⟩⟩
  -- the change is at least minus one
  have hlow : -1 ≤ ((candidate - baseline : ℤ) : ℚ) / baseline := by
    rw [le_div_iff₀ hbaseline']
    push_cast
    linarith
  have hone := one_lt_binary64Limit
  linarith

/-- **The comparison of the costs** is where a report can be lost. -/
theorem metricComparison_cost (hcount : 0 < count) (hbaseline : 0 ≤ baseline)
    (hcandidate : 0 ≤ candidate) (allowed : Option ℚ) :
    (CostInRange baseline candidate → ∃ compared, metricComparison .python (.int (count * baseline))
        (.int (count * candidate)) allowed = .ok compared)
      ∧ (¬ CostInRange baseline candidate → metricComparison .python (.int (count * baseline))
          (.int (count * candidate)) allowed
        = .error (.overflowError "integer division result too large for a float")) := by
  by_cases hzero : baseline = 0
  · subst hzero
    refine ⟨fun _ => ?_, fun h => absurd (.inl rfl) h⟩
    simp [metricComparison, percentDelta, Metric.value, pure, Except.pure, bind, Except.bind]
  · have hpos : 0 < baseline := by omega
    have htotal : (count * baseline : ℤ) ≠ 0 := by positivity
    have hvalue : ¬ (Metric.int (count * baseline)).value = 0 := by
      simpa [Metric.value] using ⟨hcount.ne', hzero⟩
    have hiff := abs_change_lt_iff hcount hpos hcandidate
    constructor
    · rintro (h | h)
      · exact absurd h hzero
      · have hok := trueDivide_of_lt htotal (hiff.mpr h)
        rw [metricComparison, percentDelta, if_neg hvalue, Arithmetic.relativeChange, hok]
        exact ⟨_, rfl⟩
    · intro h
      have hover := trueDivide_of_le htotal (not_lt.mp fun hlt => h (.inr (hiff.mp hlt)))
      rw [metricComparison, percentDelta, if_neg hvalue, Arithmetic.relativeChange, hover]
      rfl

variable {dataset : RegressionDataset}

/-- With the summaries of two targets the report is lost exactly when the costs are too far
apart. -/
theorem report_cases {baseline candidate : TargetResult} {gates : RegressionGates}
    (hcount : 0 < count) {b c : ℤ} (hb : 0 ≤ b) (hc : 0 ≤ c)
    (hbaseline : baseline.summary.estimatedCostMicrousd = count * b)
    (hcandidate : candidate.summary.estimatedCostMicrousd = count * c) :
    (CostInRange b c → ∃ r, report .python dataset baseline candidate gates = .ok r)
      ∧ (¬ CostInRange b c → report .python dataset baseline candidate gates
        = .error (.overflowError "integer division result too large for a float")) := by
  obtain ⟨latency, hlatency⟩ := metricComparison_float .python
    baseline.summary.averageLatencyMs candidate.summary.averageLatencyMs
    gates.maxLatencyRegressionPercent
  obtain ⟨hin, hout⟩ := metricComparison_cost hcount hb hc gates.maxCostRegressionPercent
  rw [← hbaseline, ← hcandidate] at hin hout
  constructor
  · intro h
    obtain ⟨cost, hcost⟩ := hin h
    simp only [report, comparison, hlatency, hcost]
    exact ⟨_, rfl⟩
  · intro h
    simp only [report, comparison, hlatency, hout h]
    rfl

/-! ### Whole runs -/

section Jobs

variable [SchemaLibrary] {answers : ℕ → Reply}

/-- **One target**: a call for each case, and a summary unless the run was stopped. -/
theorem runTarget_issued (dataset : RegressionDataset) (target : ProviderModelTarget) (n : ℕ) :
    (runTarget .python dataset target).Issues answers n (dataset.cases.map (targetRequest target))
      fun out => ∃ result, out = .ok result ∧ result.summary.estimatedCostMicrousd
        = dataset.cases.length * target.estimatedCostMicrousd := by
  have hcount : 0 < dataset.cases.length := List.length_pos_iff.mpr dataset.cases_ne
  have hcases : (runCases target dataset.cases []).Issues answers n
      (dataset.cases.map (targetRequest target))
      fun out => ∃ results, out = .ok results ∧ Measured target dataset.cases.length results :=
    runCases_issued target dataset.cases [] n
  rw [runTarget, ← List.append_nil (dataset.cases.map _)]
  refine hcases.andThen fun results hmeasured => Runner.issues_done ?_
  obtain ⟨summary, hsummary, hcost⟩ := summarize_ok hcount hmeasured
  rw [hsummary]
  exact ⟨_, rfl, hcost⟩

/-- The calls of a run: every case against the baseline, then every case against the candidate. -/
def expectedCalls (dataset : RegressionDataset) (baseline candidate : ProviderModelTarget) :
    List ProviderRequest :=
  dataset.cases.map (targetRequest baseline) ++ dataset.cases.map (targetRequest candidate)

variable (answers) in
/-- **A whole run.** -/
theorem runRegression_issued (dataset : RegressionDataset) (baseline candidate : ProviderModelTarget)
    (gates : RegressionGates) (n : ℕ) :
    (runRegression .python dataset baseline candidate gates).Issues answers n
      (expectedCalls dataset baseline candidate) fun out =>
        (CostInRange baseline.estimatedCostMicrousd candidate.estimatedCostMicrousd →
            ∃ r, out = .ok r)
          ∧ (¬ CostInRange baseline.estimatedCostMicrousd candidate.estimatedCostMicrousd →
            out = .error (.overflowError "integer division result too large for a float")) := by
  have hcount : 0 < dataset.cases.length := List.length_pos_iff.mpr dataset.cases_ne
  unfold runRegression expectedCalls
  refine (runTarget_issued dataset baseline n).andThen fun first hfirst => ?_
  rw [← List.append_nil (dataset.cases.map (targetRequest candidate))]
  refine (runTarget_issued dataset candidate _).andThen fun second hsecond => ?_
  exact Runner.issues_done
    (report_cases hcount baseline.cost_nonneg candidate.cost_nonneg hfirst hsecond)

/-! ### Admitted jobs -/

/-- A case of a request. -/
def EvaluationRegressionCaseRequest.case (c : EvaluationRegressionCaseRequest) : RegressionCase :=
  ⟨c.caseId, c.input, c.rules⟩

omit [SchemaLibrary] in
theorem objectList_map_obj (rules : List JsonObject) : objectList (rules.map .obj) = some rules := by
  induction rules with
  | nil => rfl
  | cons rule rules ih =>
    unfold objectList at ih ⊢
    rw [List.map_cons, List.mapM_cons, ih]
    rfl

/-- A case that was written out is read back. -/
theorem readCase_modelDump {caseIds : List String} {c : EvaluationRegressionCaseRequest}
    {read : RegressionCase} (h : readCase caseIds c.modelDump = .ok read) : read = c.case := by
  obtain ⟨caseId, input, rules, hid, hinput, hrules, hsafe⟩ := c
  obtain ⟨m, ms, rfl⟩ : ∃ m ms, input = m :: ms := List.exists_cons_of_length_pos hinput
  obtain ⟨r, rs, rfl⟩ : ∃ r rs, rules = r :: rs := List.exists_cons_of_length_pos hrules.1
  have hlist : objectList (.obj r :: rs.map .obj) = some (r :: rs) := objectList_map_obj (r :: rs)
  by_cases hblank : isBlank caseId = true
  · simp [readCase, EvaluationRegressionCaseRequest.modelDump, JsonObject.get?, hblank] at h
  · by_cases hseen : caseId ∈ caseIds
    · simp [readCase, EvaluationRegressionCaseRequest.modelDump, JsonObject.get?, hblank, hseen] at h
    · simp [readCase, EvaluationRegressionCaseRequest.modelDump, JsonObject.get?, hblank, hseen,
        hlist] at h
      exact h.symm

theorem readCases_modelDump {caseIds : List String} {cases : List EvaluationRegressionCaseRequest}
    {read : List RegressionCase}
    (h : readCases caseIds (cases.map EvaluationRegressionCaseRequest.modelDump) = .ok read) :
    read = cases.map EvaluationRegressionCaseRequest.case := by
  induction cases generalizing caseIds read with
  | nil => exact (Except.ok.inj h).symm
  | cons c cases ih =>
    rw [List.map_cons, readCases] at h
    cases hcase : readCase caseIds c.modelDump with
    | error e => simp [hcase, bind, Except.bind] at h
    | ok first =>
      rw [hcase] at h
      cases hrest : readCases (first.caseId :: caseIds)
          (cases.map EvaluationRegressionCaseRequest.modelDump) with
      | error e => simp [hrest, bind, Except.bind] at h
      | ok rest =>
        simp only [hrest, bind, Except.bind, pure, Except.pure] at h
        rw [← Except.ok.inj h, readCase_modelDump hcase, ih hrest, List.map_cons]

omit [SchemaLibrary] in
/-- The cases of a dataset are those of its mapping. -/
theorem fromMapping_ok {value : JsonObject}
    (h : RegressionDataset.fromMapping value = .ok dataset) :
    ∃ raws, JsonObject.get? value "cases" = some (.arr raws)
      ∧ readCases [] raws = .ok dataset.cases := by
  unfold RegressionDataset.fromMapping at h
  split at h
  · split at h
    · exact absurd h (by simp)
    split at h
    · split at h
      · exact absurd h (by simp)
      split at h
      · rename_i raw raws hget
        refine ⟨raw :: raws, hget, ?_⟩
        cases hcases : readCases [] (raw :: raws) with
        | error e => simp [hcases, bind, Except.bind] at h
        | ok cases =>
          simp only [hcases, bind, Except.bind] at h
          split at h
          · rw [← Except.ok.inj h]
          · exact absurd h (by simp)
      · exact absurd h (by simp)
    · exact absurd h (by simp)
  · exact absurd h (by simp)

theorem fromMapping_modelDump {request : EvaluationRegressionDatasetRequest}
    (h : RegressionDataset.fromMapping request.modelDump = .ok dataset) :
    dataset.cases = request.cases.map EvaluationRegressionCaseRequest.case := by
  obtain ⟨raws, hraws, hread⟩ := fromMapping_ok h
  obtain rfl : request.cases.map EvaluationRegressionCaseRequest.modelDump = raws :=
    Json.arr.inj (Option.some.inj hraws)
  exact readCases_modelDump hread

/-- The worker builds again what the endpoint built. -/
theorem admitRegression_ok {request : EvaluationRegressionRequest} {payload : RegressionPayload}
    (h : admitRegression request = .ok payload) :
    ∃ dataset baseline candidate,
      RegressionDataset.fromMapping request.dataset.modelDump = .ok dataset
        ∧ request.baseline.target = .ok baseline ∧ request.candidate.target = .ok candidate
        ∧ payload = ⟨request.dataset.modelDump, request.baseline, request.candidate, request.gates⟩ := by
  unfold admitRegression at h
  cases hdataset : RegressionDataset.fromMapping request.dataset.modelDump with
  | error e => simp [hdataset, bind, Except.bind] at h
  | ok dataset =>
    cases hbaseline : request.baseline.target with
    | error e => simp [hdataset, hbaseline, bind, Except.bind] at h
    | ok baseline =>
      cases hcandidate : request.candidate.target with
      | error e => simp [hdataset, hbaseline, hcandidate, bind, Except.bind] at h
      | ok candidate =>
        simp only [hdataset, hbaseline, hcandidate, bind, Except.bind, pure, Except.pure] at h
        exact ⟨dataset, baseline, candidate, rfl, rfl, rfl, (Except.ok.inj h).symm⟩

omit [SchemaLibrary] in
theorem target_ok {request : EvaluationRegressionTargetRequest} (h : request.target = .ok target) :
    target.provider = request.provider ∧ target.model = request.model
      ∧ target.estimatedCostMicrousd = request.estimatedCostMicrousd := by
  unfold EvaluationRegressionTargetRequest.target ProviderModelTarget.postInit at h
  split_ifs at h
  rw [← Except.ok.inj h]
  exact ⟨rfl, rfl, rfl⟩

/-- Whether a job has more cases than the worker is set up for. -/
def OverBudget (settings : RegressionSettings) (request : EvaluationRegressionRequest) : Prop :=
  request.dataset.cases.length > settings.regressionMaxCases
    ∨ 2 * request.dataset.cases.length > settings.regressionProviderCallBudget

/-- **Which admitted jobs always report.** An admitted job is rebuilt by the worker with the cases
of the request in their order. Over the budget of the worker it calls nobody and ends with
`QuotaExceededError`. Otherwise it issues one call for each case against the baseline and then
against the candidate, in order and up to the first one over a quota; and it ends with a report or
with `QuotaExceededError`, whatever the executor does, exactly when the change from the baseline
cost to the candidate cost is a finite float. -/
theorem regression_job_reports_iff (settings : RegressionSettings)
    {request : EvaluationRegressionRequest} {payload : RegressionPayload}
    (hadmitted : admitRegression request = .ok payload) :
    ∃ dataset baseline candidate, dataset.cases = request.dataset.cases.map (·.case)
      ∧ request.baseline.target = .ok baseline ∧ request.candidate.target = .ok candidate
      ∧ (OverBudget settings request → ∀ answers,
        (executeRegression .python settings payload).run answers 0
          = ([], .error (.quotaExceededError "Regression exceeds the server budget")))
      ∧ (¬ OverBudget settings request →
        (∀ answers, ∃ stopped, Issued answers 0 (expectedCalls dataset baseline candidate)
            ((executeRegression .python settings payload).run answers 0).1 stopped)
        ∧ ((∀ answers,
              (∃ r, ((executeRegression .python settings payload).run answers 0).2 = .ok r)
                ∨ ∃ message, ((executeRegression .python settings payload).run answers 0).2
                  = .error (.quotaExceededError message))
            ↔ CostInRange request.baseline.estimatedCostMicrousd
                request.candidate.estimatedCostMicrousd)) := by
  obtain ⟨dataset, baseline, candidate, hdataset, hbaseline, hcandidate, rfl⟩ :=
    admitRegression_ok hadmitted
  have hcases := fromMapping_modelDump hdataset
  have hlength : dataset.cases.length = request.dataset.cases.length := by
    rw [hcases, List.length_map]
  refine ⟨dataset, baseline, candidate, hcases, hbaseline, hcandidate, ?_, ?_⟩
  · intro hover answers
    have hexecute : executeRegression .python settings
        ⟨request.dataset.modelDump, request.baseline, request.candidate, request.gates⟩
          = .done (.error (.quotaExceededError "Regression exceeds the server budget")) := by
      simp only [executeRegression, hdataset, hlength]
      exact if_pos hover
    rw [hexecute]
    rfl
  · intro hwithin
    have hgates : ∃ gates, RegressionGates.postInit request.gates.maxQualityRegressionPoints
        request.gates.maxLatencyRegressionPercent request.gates.maxCostRegressionPercent
          = .ok gates :=
      ⟨_, dif_pos ⟨request.gates.quality_nonneg, request.gates.latency_nonneg,
        request.gates.cost_nonneg⟩⟩
    obtain ⟨gates, hgates⟩ := hgates
    have hexecute : executeRegression .python settings
        ⟨request.dataset.modelDump, request.baseline, request.candidate, request.gates⟩
          = runRegression .python dataset baseline candidate gates := by
      simp only [executeRegression, hdataset, hlength, hbaseline, hcandidate, hgates]
      exact if_neg hwithin
    rw [hexecute, ← (target_ok hbaseline).2.2, ← (target_ok hcandidate).2.2]
    refine ⟨fun answers => ?_, fun hall => ?_, fun hrange answers => ?_⟩
    · obtain ⟨stopped, hissued, -⟩ := runRegression_issued answers dataset baseline candidate gates 0
      exact ⟨stopped, hissued⟩
    · -- an executor that is never over a quota leads to the comparison
      let answers : ℕ → Reply := fun _ => ⟨.failed "", 0, le_refl 0, by decide +kernel⟩
      obtain ⟨stopped, hissued, hends⟩ :=
        runRegression_issued answers dataset baseline candidate gates 0
      by_contra hnot
      cases stopped with
      | true =>
        obtain ⟨i, message, hmessage⟩ := hissued.overQuota rfl
        exact absurd hmessage (by simp [answers])
      | false =>
        rcases hall answers with ⟨r, hr⟩ | ⟨message, hmessage⟩
        · exact absurd (hr.symm.trans (hends.2 hnot)) (by simp)
        · exact absurd (hmessage.symm.trans (hends.2 hnot)) (by simp)
    · obtain ⟨stopped, -, hends⟩ := runRegression_issued answers dataset baseline candidate gates 0
      cases stopped with
      | true => exact .inr hends
      | false => exact .inl (hends.1 hrange)

end Jobs

/-- One rule, which asks for an answer. -/
def answerRule : JsonObject := [("type", .str "non_empty"), ("path", .str "answer")]

/-- A job with one case and the given costs. -/
def sampleRegression (baseline candidate : ℕ) :
    letI := sampleSchemas
    EvaluationRegressionRequest :=
  letI := sampleSchemas
  { dataset := ⟨"core", "1", [⟨"a", [("prompt", .str "go")], [answerRule], by decide, by decide,
      by decide, by decide +kernel⟩], by decide, by decide, by simp⟩
    baseline := ⟨"deterministic", none, baseline, by decide, by simp, by positivity⟩
    candidate := ⟨"openai", none, candidate, by decide, by simp, by positivity⟩
    gates := ⟨0, none, none, le_refl 0, by simp, by simp⟩ }

/-- A job with costs of one and two always reports. -/
theorem regression_job_reports_sample :
    letI := sampleSchemas
    ∃ payload, admitRegression (sampleRegression 1 2) = .ok payload
      ∧ ∀ answers, (∃ r, ((executeRegression .python ⟨10, 20⟩ payload).run answers 0).2 = .ok r)
          ∨ ∃ message, ((executeRegression .python ⟨10, 20⟩ payload).run answers 0).2
            = .error (.quotaExceededError message) := by
  let := sampleSchemas
  cases hadmitted : admitRegression (sampleRegression 1 2) with
  | error e =>
    have hok : (admitRegression (sampleRegression 1 2)).isOk = true := by decide +kernel
    rw [hadmitted] at hok
    exact absurd hok Bool.false_ne_true
  | ok payload =>
    obtain ⟨_, _, _, -, -, -, -, hwithin⟩ := regression_job_reports_iff ⟨10, 20⟩ hadmitted
    exact ⟨payload, rfl, (hwithin (by simp [OverBudget, sampleRegression])).2.mpr
      (.inr (by decide +kernel))⟩

/-- A job with costs of one and `10 ^ 400` is admitted, makes its calls and loses its report. -/
theorem cost_overflow_loses_report :
    letI := sampleSchemas
    (admitRegression (sampleRegression 1 (10 ^ 400))).toOption.map (fun payload =>
        let out := (executeRegression .python ⟨10, 20⟩ payload).run
          (fun _ => ⟨.result [("answer", .str "ready")], 5, by decide, by decide +kernel⟩) 0
        (out.1.map ProviderRequest.provider, errorOf out.2))
      = some (["deterministic", "openai"],
        some (.overflowError "integer division result too large for a float")) := by
  decide +kernel

end AgentRuntime.Evaluation
