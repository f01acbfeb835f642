import AgentRuntime.Lifecycle.Simulation

/-!
# The backoff schedule

`delay_after_attempt` doubles the initial delay with every attempt, keeps the result between one
second and the policy's maximum, and stops counting at an exponent of twenty. With exact
arithmetic:

* **bounds**: a delay lies between `1` and `max 1 maxBackoffSeconds`;
* **growth**: delays never decrease and at most double from one attempt to the next;
* **the cap on the exponent**: below `maxAttempts`, which is at most twenty, the delay is the one
  without the cap;
* **real runs**: every `RUN_RETRY_SCHEDULED` event of a reachable store records a delay without
  the cap, for an attempt below the limit of the run's own policy (`reachable_retries_uncapped`).
-/

namespace AgentRuntime.Lifecycle

open Lib Domain Database Application

/-! ### Delays by exponent -/

/-- The initial delay doubled `exponent` times, kept between one second and the maximum. -/
def doubledDelay (p : RetryPolicy) (exponent : ℕ) : ℚ :=
  max 1 (min p.maxBackoffSeconds (p.initialBackoffSeconds * 2 ^ exponent))

/-- **The delay without the cap on the exponent.** -/
def uncappedDelay (p : RetryPolicy) (attemptNumber : ℕ) : ℚ :=
  max 1 (min p.maxBackoffSeconds (p.initialBackoffSeconds * 2 ^ (attemptNumber - 1)))

variable {p : RetryPolicy} {n m : ℕ}

theorem delayAfterAttempt_eq (h : 1 ≤ n) :
    p.delayAfterAttempt n = .ok (doubledDelay p (min (n - 1) 20)) :=
  if_neg (Nat.not_lt.mpr h)

variable {delay : ℚ}

theorem delayAfterAttempt_pos (h : p.delayAfterAttempt n = .ok delay) : 1 ≤ n := by
  by_contra hn
  have herror : p.delayAfterAttempt n
      = .error (.valueError "attempt_number must be at least 1") := if_pos (by omega)
  exact absurd (h.symm.trans herror) (by simp)

theorem one_le_doubledDelay (p : RetryPolicy) (k : ℕ) : 1 ≤ doubledDelay p k :=
  le_max_left _ _

/-- A larger exponent never gives a shorter delay. -/
theorem doubledDelay_mono (p : RetryPolicy) : Monotone (doubledDelay p) := by
  intro k l hkl
  have hpower : (2 : ℚ) ^ k ≤ 2 ^ l := pow_le_pow_right₀ (by norm_num) hkl
  have hproduct : p.initialBackoffSeconds * 2 ^ k ≤ p.initialBackoffSeconds * 2 ^ l :=
    mul_le_mul_of_nonneg_left hpower p.initial_pos.le
  exact max_le_max (le_refl 1) (min_le_min (le_refl _) hproduct)

/-- One more doubling at most doubles the delay: the two bounds only flatten it. -/
theorem doubledDelay_succ_le (p : RetryPolicy) (k : ℕ) :
    doubledDelay p (k + 1) ≤ 2 * doubledDelay p k := by
  have hone := one_le_doubledDelay p k
  have hinner : min p.maxBackoffSeconds (p.initialBackoffSeconds * 2 ^ k) ≤ doubledDelay p k :=
    le_max_right _ _
  have hmax : 0 < p.maxBackoffSeconds := p.initial_pos.trans_le p.initial_le_max
  refine max_le (by linarith) ?_
  rcases min_choice p.maxBackoffSeconds (p.initialBackoffSeconds * 2 ^ k) with hleft | hright
  · rw [hleft] at hinner
    have := min_le_left p.maxBackoffSeconds (p.initialBackoffSeconds * 2 ^ (k + 1))
    linarith
  · rw [hright] at hinner
    have hle := min_le_right p.maxBackoffSeconds (p.initialBackoffSeconds * 2 ^ (k + 1))
    have htwice : p.initialBackoffSeconds * 2 ^ (k + 1)
        = 2 * (p.initialBackoffSeconds * 2 ^ k) := by ring
    linarith

/-! ### Delays by attempt -/

/-- The exponent of an attempt grows by one or, from twenty on, not at all. -/
theorem exponent_succ (h : 1 ≤ n) :
    min (n + 1 - 1) 20 = min (n - 1) 20 ∨ min (n + 1 - 1) 20 = min (n - 1) 20 + 1 := by
  omega

theorem delay_bounds (h : p.delayAfterAttempt n = .ok delay) :
    1 ≤ delay ∧ delay ≤ max 1 p.maxBackoffSeconds := by
  rw [delayAfterAttempt_eq (delayAfterAttempt_pos h)] at h
  cases h
  exact ⟨one_le_doubledDelay p _, max_le_max le_rfl (min_le_left _ _)⟩

theorem delay_mono {delay delay' : ℚ} (hnm : n ≤ m) (h : p.delayAfterAttempt n = .ok delay)
    (h' : p.delayAfterAttempt m = .ok delay') : delay ≤ delay' := by
  have hn := delayAfterAttempt_pos h
  rw [delayAfterAttempt_eq hn] at h
  rw [delayAfterAttempt_eq (hn.trans hnm)] at h'
  cases h
  cases h'
  exact doubledDelay_mono p (by omega)

theorem delay_doubles {delay delay' : ℚ} (h : p.delayAfterAttempt n = .ok delay)
    (h' : p.delayAfterAttempt (n + 1) = .ok delay') : delay' ≤ 2 * delay := by
  have hn := delayAfterAttempt_pos h
  rw [delayAfterAttempt_eq hn] at h
  rw [delayAfterAttempt_eq (by omega)] at h'
  cases h
  cases h'
  rcases exponent_succ hn with hsame | hnext
  · rw [hsame]
    linarith [one_le_doubledDelay p (min (n - 1) 20)]
  · rw [hnext]
    exact doubledDelay_succ_le p _

/-- Below the limit of the policy the cap on the exponent is out of reach. -/
theorem delay_uncapped (h : 1 ≤ n) (hlimit : n < p.maxAttempts) :
    p.delayAfterAttempt n = .ok (uncappedDelay p n) := by
  have hexponent : min (n - 1) 20 = n - 1 := by
    have := p.maxAttempts_le
    omega
  rw [delayAfterAttempt_eq h, hexponent]
  rfl

/-! ### The delays of real runs -/

/-- The event records an uncapped delay under the policy stored as `snapshot?`: for an attempt
below the limit of that policy, with the next attempt due that long after some reading of the
clock. -/
structure RecordsUncapped (snapshot? : Option JsonObject) (e : RunEvent) : Prop where
  recorded : ∃ snapshot policy number now due,
    snapshot? = some snapshot
    ∧ RetryPolicy.fromSnapshot snapshot = .ok policy
    ∧ 1 ≤ number ∧ number < policy.maxAttempts
    ∧ ("attempt_number", MetaValue.number number) ∈ e.metadata
    ∧ ("delay_seconds", MetaValue.seconds (uncappedDelay policy number)) ∈ e.metadata
    ∧ Timestamp.addSeconds now (uncappedDelay policy number) = .ok due
    ∧ ("next_attempt_at", MetaValue.time due) ∈ e.metadata

/-- Every retry in the history of the run records an uncapped delay. -/
def RetriesUncapped (v : RunView) : Prop :=
  ∀ e ∈ v.events, e.eventType = .runRetryScheduled →
    RecordsUncapped (v.run.map Run.policySnapshot) e

variable {v v' : RunView} {s : Store} {i : Input} {answer : Answer}

theorem policySnapshot_setRun (v : RunView) (sets : List RunSet) :
    (v.setRun sets).run.map Run.policySnapshot = v.run.map Run.policySnapshot := by
  rw [RunView.setRun_run, Option.map_map]
  congr 1
  funext r
  exact congrArg Accepted.policySnapshot (accepted_assignAll sets r)

/-- A change of the view that keeps the policy and adds only harmless events. -/
theorem RetriesUncapped.grow (h : RetriesUncapped v)
    (hpolicy : v'.run.map Run.policySnapshot = v.run.map Run.policySnapshot)
    (hevents : ∀ e ∈ v'.events, e ∈ v.events ∨ (e.eventType = .runRetryScheduled →
      RecordsUncapped (v.run.map Run.policySnapshot) e)) : RetriesUncapped v' := by
  intro e he htype
  rw [hpolicy]
  rcases hevents e he with hold | hnew
  · exact h e hold htype
  · exact hnew htype

variable {e : RunEvent}

theorem RetriesUncapped.addEvent (h : RetriesUncapped v)
    (hnew : e.eventType = .runRetryScheduled → RecordsUncapped (v.run.map Run.policySnapshot) e) :
    RetriesUncapped (v.addEvent e) := by
  refine h.grow rfl fun x hx => ?_
  rcases List.mem_append.mp hx with hold | hlast
  · exact .inl hold
  · rw [List.mem_singleton.mp hlast]
    exact .inr hnew

theorem RetriesUncapped.addOther (h : RetriesUncapped v)
    (hother : e.eventType ≠ .runRetryScheduled) : RetriesUncapped (v.addEvent e) :=
  h.addEvent fun htype => absurd htype hother

theorem RetriesUncapped.setRun (h : RetriesUncapped v) (sets : List RunSet) :
    RetriesUncapped (v.setRun sets) :=
  h.grow (policySnapshot_setRun v sets) fun _ he => .inl he

theorem RetriesUncapped.note (h : RetriesUncapped v) (hnote : Note v v') :
    RetriesUncapped v' := by
  cases hnote with
  | evaluationStatus x => exact h.setRun _
  | remark e hrun he =>
    refine h.addOther fun htype => ?_
    rw [htype] at he
    exact absurd he (by decide)
  | delivery id sets => exact h

/-- A run without a row has no retries in its history. -/
theorem RetriesUncapped.of_none (h : RetriesUncapped v) (hnone : v.run = none) :
    ∀ e ∈ v.events, e.eventType ≠ .runRetryScheduled := by
  intro e he htype
  obtain ⟨snapshot, -, -, -, -, hsome, -⟩ := (h e he htype).recorded
  rw [hnone] at hsome
  exact absurd hsome (by simp)

/-- A failed attempt that is retried records the delay of its policy, which the cap does not
touch. -/
theorem records_of_retried {r : Run} {a : RunAttempt} {code : String} {recovery : Bool}
    {policy : RetryPolicy} {due : Timestamp}
    (hpolicy : RetryPolicy.fromSnapshot r.policySnapshot = .ok policy)
    (hbudget : a.attemptNumber < policy.maxAttempts)
    (hdelay : policy.delayAfterAttempt a.attemptNumber = .ok delay)
    (htime : i.call.now.addSeconds delay = .ok due) :
    RecordsUncapped (some r.policySnapshot)
      (newEvent i.call r.id 0 r.id (some a.id) .runRetryScheduled
        [("error_code", .text code), ("attempt_number", .number a.attemptNumber),
          ("next_attempt_at", .time due), ("delay_seconds", .seconds delay),
          ("recovery", .flag recovery)]) := by
  have hpos := delayAfterAttempt_pos hdelay
  have hvalue : delay = uncappedDelay policy a.attemptNumber :=
    Except.ok.inj (hdelay.symm.trans (delay_uncapped hpos hbudget))
  subst hvalue
  refine ⟨r.policySnapshot, policy, a.attemptNumber, i.call.now, due, rfl, hpolicy, hpos,
    hbudget, ?_, ?_, htime, ?_⟩
  all_goals simp [newEvent]

theorem RetriesUncapped.step (h : RetriesUncapped v) (hstep : RunStep s i answer v v') :
    RetriesUncapped v' := by
  cases hstep with
  | created hnone hevent =>
    intro e he htype
    rcases List.mem_append.mp he with hold | hlast
    · exact absurd htype (h.of_none hnone e hold)
    · rw [List.mem_singleton.mp hlast] at htype
      rcases hevent with hq | hq <;> exact absurd (hq.symm.trans htype) (by simp)
  | deferred => exact h.setRun _
  | rejected => exact h.setRun _
  | retried hfail hrun hpolicy hretry hbudget hdelay htime =>
    refine RetriesUncapped.addEvent (RetriesUncapped.setRun (v := v.setAttempt _ _) h _)
      fun _ => ?_
    rw [policySnapshot_setRun, RunView.setAttempt_run, hrun]
    exact records_of_retried hpolicy hbudget hdelay htime
  | _ => exact RetriesUncapped.addOther (h.setRun _) (by simp [newEvent])

theorem reachable_retries_uncapped [Externals] {s : Store} (h : service.Reachable s)
    (he : e ∈ s.events.rows) (htype : e.eventType = .runRetryScheduled) :
    RecordsUncapped ((s.runs.get? e.runId).map Run.policySnapshot) e := by
  have hview : RetriesUncapped (view s e.runId) :=
    reachable_views (fun _ he => absurd he List.not_mem_nil) (fun _ _ hv hn => hv.note hn)
      (fun _ _ _ _ _ hv hs => hv.step hs) h e.runId
  exact hview e (List.mem_filter.mpr ⟨he, beq_self_eq_true _⟩) htype

/-- **The backoff schedule.** Every accepted policy gives, for every attempt number from one on, a
delay between one second and its maximum; delays never decrease, at most double from one attempt
to the next, and below the limit of the policy they are those without the cap on the exponent. So
are all delays recorded in any run of the services. -/
theorem backoff_schedule [Externals] :
    (∀ (p : RetryPolicy) (n : ℕ), 1 ≤ n →
      ∃ delay delay', p.delayAfterAttempt n = .ok delay
        ∧ p.delayAfterAttempt (n + 1) = .ok delay'
        ∧ 1 ≤ delay ∧ delay ≤ max 1 p.maxBackoffSeconds
        ∧ delay' ≤ 2 * delay)
    ∧ (∀ (p : RetryPolicy) (n m : ℕ) (delay delay' : ℚ), n ≤ m →
      p.delayAfterAttempt n = .ok delay → p.delayAfterAttempt m = .ok delay' → delay ≤ delay')
    ∧ (∀ (p : RetryPolicy) (n : ℕ), 1 ≤ n → n < p.maxAttempts →
      p.delayAfterAttempt n = .ok (uncappedDelay p n))
    ∧ ∀ (inputs : List Input), ∀ e ∈ (service.after inputs).events.rows,
      e.eventType = .runRetryScheduled →
        RecordsUncapped (((service.after inputs).runs.get? e.runId).map Run.policySnapshot) e := by
  refine ⟨?_, ?_, ?_, ?_⟩
  · intro p n hn
    have hdelay := delayAfterAttempt_eq (p := p) hn
    have hnext := delayAfterAttempt_eq (p := p) (n := n + 1) (by omega)
    obtain ⟨hone, hmax⟩ := delay_bounds hdelay
    exact ⟨_, _, hdelay, hnext, hone, hmax, delay_doubles hdelay hnext⟩
  · intro p n m delay delay' hnm h h'
    exact delay_mono hnm h h'
  · intro p n hn hlimit
    exact delay_uncapped hn hlimit
  · intro inputs e he htype
    exact reachable_retries_uncapped ⟨inputs, rfl⟩ he htype

/-- Five attempts, two seconds at first and five at most. -/
def samplePolicy : RetryPolicy where
  maxAttempts := 5
  attemptTimeoutSeconds := 10
  initialBackoffSeconds := 2
  maxBackoffSeconds := 5
  providerOrder := ["deterministic"]
  one_le_maxAttempts := by decide
  maxAttempts_le := by decide
  timeout_pos := by decide
  initial_pos := by decide
  initial_le_max := by decide
  providers_ne := by decide
  providers_named := by decide

/-- The schedule of the sample policy, and the one delay a retried run records. -/
theorem backoff_schedule_sample :
    ([1, 2, 3, 4].map fun n => (samplePolicy.delayAfterAttempt n).toOption)
        = [some 2, some 4, some 5, some 5]
      ∧ samplePolicy.delayAfterAttempt 4 = .ok (uncappedDelay samplePolicy 4)
      ∧ ∃ e ∈ (sampleService.after sampleRetriedRun).events.rows,
        e.eventType = .runRetryScheduled
          ∧ RecordsUncapped (((sampleService.after sampleRetriedRun).runs.get? e.runId).map
              Run.policySnapshot) e := by
  obtain ⟨-, -, huncapped, hrecorded⟩ := @backoff_schedule sampleExternals
  have htypes : EventType.runRetryScheduled
      ∈ (sampleService.after sampleRetriedRun).events.rows.map RunEvent.eventType := by
    decide +kernel
  obtain ⟨e, he, htype⟩ := List.mem_map.mp htypes
  exact ⟨by decide +kernel, huncapped samplePolicy 4 (by decide) (by decide), e, he, htype,
    hrecorded sampleRetriedRun e he htype⟩

end AgentRuntime.Lifecycle
