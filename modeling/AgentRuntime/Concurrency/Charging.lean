import AgentRuntime.Concurrency.Workers

/-!
# Charges among others

The transaction that charges one provider call obeys the discipline. Under the locks of both scopes it
moves both counters into the current window and raises them by one, or it raises and commits nothing; the
lease and the attempt it has checked are as they were until it commits.

* `Opening`, `chargeOf`: the writes of a charge;
* `Charging`: what is known while the counters are opened;
* `Charged`, `chargeAttempt_follows`: how a charge ends.
-/

namespace AgentRuntime.Concurrency

open Lib Table Domain Application Database Lifecycle Execution

variable {α : Type} {limits : Option QuotaLimits}
  {Q : α → List (Hold Resource) → List Write → Store → Prop} {L : List (Hold Resource)}
  {ws : List Write} {v v' u : Store} {w : Write}

/-! ### Counters -/

/-- The write moves the counter of the scope into the window. -/
def Opening (k : Scope) (window : ℤ) (w : Write) : Prop :=
  w = .insertQuota ⟨k.text, window, 0⟩ ∨ w = .updateQuota k.text window 0

/-- The counter stands in the window and has room for one more call. -/
def Opened (quotas : QuotaLimits) (v : Store) (k : Scope) (window : ℤ) (used : ℕ) : Prop :=
  v.quotas.get? k.text = some ⟨k.text, window, used⟩ ∧ (used : ℤ) < calls quotas k

theorem Opened.frame {quotas : QuotaLimits} {k : Scope} {window : ℤ} {used : ℕ}
    (h : Opened quotas v k window used) (hheld : ScopeHeld L k.text) (hframe : Frame L v v') :
    Opened quotas v' k window used :=
  ⟨(hframe.quotas k.text hheld).trans h.1, h.2⟩

/-- An open attempt of a run, with everything locked that a charge needs. -/
structure Charging (window : ℤ) (run : Run) (attempt : RunAttempt) (L : List (Hold Resource))
    (ws : List Write) (v : Store) : Prop where
  stored : v.runs.get? run.id = some run
  held : Locked L (.run run.id)
  attemptStored : v.attempts.get? attempt.id = some attempt
  own : attempt.runId = run.id
  scopesHeld : ∀ k ∈ scopes run, ScopeHeld L k.text
  writes : ∀ w ∈ ws, ∃ k ∈ scopes run, Opening k window w

namespace Charging

variable {window : ℤ} {run : Run} {attempt : RunAttempt}

theorem frame (h : Charging window run attempt L ws v) (hframe : Frame L v v') :
    Charging window run attempt L ws v' :=
  { h with
    stored := hframe.runs.held h.held h.stored
    attemptStored := hframe.attempts.held (h.own ▸ h.held) h.attemptStored }

/-- A counter is no concern of the run and its attempt. -/
theorem opened (h : Charging window run attempt L ws v) {k : Scope} (hk : k ∈ scopes run)
    (hw : Opening k window w) (hruns : u.runs = v.runs) (hattempts : u.attempts = v.attempts) :
    Charging window run attempt (taken w ++ L) (ws ++ [w]) u where
  stored := by rw [hruns]; exact h.stored
  held := List.mem_append_right _ h.held
  attemptStored := by rw [hattempts]; exact h.attemptStored
  own := h.own
  scopesHeld k' hk' := List.mem_append_right _ (h.scopesHeld k' hk')
  writes w' hw' := by
    rcases List.mem_append.mp hw' with hw' | hw'
    · exact h.writes w' hw'
    · rw [List.mem_singleton.mp hw']
      exact ⟨k, hk, hw⟩

end Charging

/-- A write on a counter. -/
theorem follows_count {g : Unit → DbTx α} (htouched : touched w = [])
    (hlegal : ∀ v1, Frame L v v1 → Legal limits (taken w ++ L) v1 w)
    (hnext : ∀ v1 u, Frame L v v1 → Writes.apply w v1 = .ok u →
      Follows limits Q (g ()) (taken w ++ L) (ws ++ [w]) u) :
    Follows limits Q ((exec w).bind g) L ws v := by
  refine obeys_exec.mpr fun v1 h1 => ⟨asks_taken fun l m hl => ?_, fun u happly => ⟨?_, ?_⟩⟩
  · rw [htouched] at hl
    exact absurd hl (by simp)
  · exact hlegal v1 h1
  · exact hnext v1 u h1 happly

section Charge

variable {quotas : QuotaLimits} {window : ℤ} {run : Run} {attempt : RunAttempt} {k : Scope}

/-- **Opening a counter.** The counters of other scopes stay as they are. -/
theorem follows_openScope {g : ℕ → DbTx α} (h : Charging window run attempt L ws v)
    (hk : k ∈ scopes run)
    (hnext : ∀ L' ws' v' used, Charging window run attempt L' ws' v' →
      Opened quotas v' k window used →
      (∀ k' ≠ k, k' ∈ scopes run → v'.quotas.get? k'.text = v.quotas.get? k'.text) →
      Follows limits Q (g used) L' ws' v') :
    Follows limits Q ((openScope window k.text (calls quotas k)).bind g) L ws v := by
  have hheld := h.scopesHeld k hk
  have hsame {v1 : Store} (h1 : Frame L v v1) (k' : Scope) (hk' : k' ∈ scopes run) :
      v1.quotas.get? k'.text = v.quotas.get? k'.text := h1.quotas _ (h.scopesHeld k' hk')
  unfold openScope
  rw [Tx.bind_eq, Tx.bind_assoc]
  refine obeys_read.mpr fun v1 h1 => ?_
  split
  · rename_i hnone
    rw [Tx.bind_eq, Tx.bind_assoc]
    refine follows_count rfl (fun v2 h2 => ⟨List.mem_append_right _ hheld, rfl⟩)
      fun v2 u h2 happly => ?_
    obtain ⟨t, hins, rfl⟩ := insertOr_ok happly
    split
    · trivial
    rename_i hroom
    refine hnext _ _ _ 0 (((h.frame h1).frame h2).opened hk (.inl rfl) rfl rfl) ⟨?_, not_le.mp hroom⟩
      fun k' hne hk' => ?_
    · rw [get?_insert hins]
      exact if_pos rfl
    · rw [get?_insert hins]
      have htext : k.text ≠ k'.text := fun heq => hne (Scope.text_injective heq).symm
      exact (if_neg htext).trans (hsame (h1.trans h2) k' hk')
  · rename_i row hrow
    have hscope : row.scope = k.text := (mem_of_get? hrow).2
    split
    · rename_i hwindow
      rw [Tx.bind_eq, Tx.bind_assoc]
      refine follows_count rfl (fun v2 h2 => ⟨List.mem_append_right _ hheld, row, ?_,
        .inl ⟨hwindow, rfl⟩⟩) fun v2 u h2 happly => ?_
      · exact (h2.quotas _ hheld).trans hrow
      cases happly
      split
      · trivial
      rename_i hroom
      refine hnext _ _ _ 0 (((h.frame h1).frame h2).opened hk (.inr rfl) rfl rfl) ⟨?_, not_le.mp hroom⟩
        fun k' hne hk' => ?_
      · rw [get?_update, if_pos rfl, h2.quotas _ hheld, hrow, ← hscope]
        rfl
      · have htext : k'.text ≠ k.text := fun heq => hne (Scope.text_injective heq)
        rw [get?_update, if_neg htext]
        exact hsame (h1.trans h2) k' hk'
    · rename_i hwindow
      split
      · trivial
      rename_i hroom
      refine hnext _ _ v1 row.used (h.frame h1) ⟨?_, not_le.mp hroom⟩ fun k' _ hk' => hsame h1 k' hk'
      rw [not_not] at hwindow
      rw [hrow, ← hscope, ← hwindow]

/-- **Raising a counter** that is open. -/
theorem follows_raise {g : Unit → DbTx α} {used : ℕ} (hagrees : Agrees limits quotas)
    (hheld : ScopeHeld L k.text) (hopen : Opened quotas v k window used)
    (hnext : ∀ v1 u, Frame L v v1 → u.runs = v1.runs → u.attempts = v1.attempts →
      (∀ k' ≠ k, u.quotas.get? k'.text = v1.quotas.get? k'.text) →
      Follows limits Q (g ()) (taken (.updateQuota k.text window (used + 1)) ++ L)
        (ws ++ [.updateQuota k.text window (used + 1)]) u) :
    Follows limits Q ((exec (.updateQuota k.text window (used + 1))).bind g) L ws v := by
  refine follows_count rfl (fun v1 h1 => ⟨List.mem_append_right _ hheld, _,
    (hopen.frame hheld h1).1, .inr ⟨rfl, rfl, k, rfl, fun l hl => ?_⟩⟩) fun v1 u h1 happly => ?_
  · rw [hagrees l hl]
    exact_mod_cast hopen.2
  · cases happly
    refine hnext v1 _ h1 rfl rfl fun k' hne => ?_
    have htext : k'.text ≠ k.text := fun heq => hne (Scope.text_injective heq)
    rw [get?_update, if_neg htext]

/-! ### The charge of an attempt -/

/-- **How a charge ends**: the worker holds the lease of the run, the attempt is open, and beyond
opening them both counters have been raised by one in the current window. -/
structure Charged (quotas : QuotaLimits) (c : Call) (runId attemptId : Uuid) (workerId : String)
    (run : Run) (L : List (Hold Resource)) (ws : List Write) (v : Store) : Prop where
  stored : v.runs.get? runId = some run
  lease : ownsActiveLease run workerId c.now = true
  attempt : ∃ a, v.attempts.get? attemptId = some a ∧ a.runId = runId ∧ a.finishedAt = none
  scopesHeld : ∀ k ∈ scopes run, ScopeHeld L k.text
  writes : ∃ opens used1 used2,
    ws = opens ++ [.updateQuota (principalScope (orElseText run.principalId run.clientId))
        (currentWindow c.epoch quotas.windowSeconds) (used1 + 1),
      .updateQuota (tenantScope run.clientId)
        (currentWindow c.epoch quotas.windowSeconds) (used2 + 1)]
    ∧ ∀ w ∈ opens, ∃ k ∈ scopes run, Opening k (currentWindow c.epoch quotas.windowSeconds) w

/-- The counters of a run whose scopes are locked. -/
theorem follows_chargeProviderCall {c : Call} {workerId : String} (hagrees : Agrees limits quotas)
    (h : Charging (currentWindow c.epoch quotas.windowSeconds) run attempt L [] v)
    (hlease : ownsActiveLease run workerId c.now = true) (hopen : attempt.finishedAt = none) :
    Follows limits (fun _ => Charged quotas c run.id attempt.id workerId run)
      (chargeProviderCall c.epoch (orElseText run.principalId run.clientId) run.clientId quotas)
      L [] v := by
  have hprincipal : Scope.principal (orElseText run.principalId run.clientId) ∈ scopes run := by
    simp [scopes]
  have htenant : Scope.tenant run.clientId ∈ scopes run := by simp [scopes]
  refine follows_lockIdentity (.inr ⟨h.scopesHeld _ hprincipal, h.scopesHeld _ htenant⟩)
    fun L1 v1 hL1 h1 => ?_
  have hc1 : Charging (currentWindow c.epoch quotas.windowSeconds) run attempt L1 [] v1 :=
    { h.frame h1 with
      held := hL1.sub h.held
      scopesHeld := fun k hk => hL1.sub (h.scopesHeld k hk) }
  refine follows_openScope (k := .principal (orElseText run.principalId run.clientId)) hc1 hprincipal
    fun L2 ws2 v2 used1 hc2 hopened1 _ => ?_
  refine follows_openScope (k := .tenant run.clientId) hc2 htenant
    fun L3 ws3 v3 used2 hc3 hopened2 hsame => ?_
  have hopened3 : Opened quotas v3 (.principal (orElseText run.principalId run.clientId))
      (currentWindow c.epoch quotas.windowSeconds) used1 :=
    ⟨(hsame _ (by simp) hprincipal).trans hopened1.1, hopened1.2⟩
  refine follows_raise hagrees (hc3.scopesHeld _ hprincipal) hopened3
    fun v4 u4 h4 hruns4 hattempts4 hquotas4 => ?_
  have hopened4 : Opened quotas u4 (.tenant run.clientId)
      (currentWindow c.epoch quotas.windowSeconds) used2 :=
    ⟨(hquotas4 _ (by simp)).trans (hopened2.frame (hc3.scopesHeld _ htenant) h4).1, hopened2.2⟩
  rw [← Tx.bind_done (exec _)]
  refine follows_raise hagrees (List.mem_append_right _ (hc3.scopesHeld _ htenant)) hopened4
    fun v5 u5 h5 hruns5 hattempts5 _ v6 h6 => ?_
  have hc4 := hc3.frame h4
  have hheld := List.mem_append_right (taken (.updateQuota (principalScope (orElseText
    run.principalId run.clientId)) (currentWindow c.epoch quotas.windowSeconds) (used1 + 1))) hc3.held
  have hrun : u5.runs.get? run.id = some run := by
    rw [hruns5]
    exact h5.runs.held hheld (by rw [hruns4]; exact hc4.stored)
  have hattempt : u5.attempts.get? attempt.id = some attempt := by
    rw [hattempts5]
    exact h5.attempts.held (hc3.own ▸ hheld) (by rw [hattempts4]; exact hc4.attemptStored)
  refine ⟨h6.runs.held (List.mem_append_right _ hheld) hrun, hlease,
    ⟨attempt, h6.attempts.held (List.mem_append_right _ (hc3.own ▸ hheld)) hattempt, hc3.own, hopen⟩,
    fun k hk => ?_, ws3, used1, used2, List.append_assoc .., hc3.writes⟩
  exact List.mem_append_right _ (List.mem_append_right _ (hc3.scopesHeld k hk))

/-- **Charges.** -/
theorem chargeAttempt_follows {c : Call} {runId attemptId : Uuid} {workerId : String}
    (hagrees : Agrees limits quotas) :
    Follows limits (fun _ L ws v => ∃ run, Charged quotas c runId attemptId workerId run L ws v)
      (chargeAttempt quotas c runId attemptId workerId) [] [] v := by
  refine obeys_read.mpr fun v1 h1 => ?_
  split
  · trivial
  rename_i identity hidentity
  refine follows_lockAttached hidentity (fun L v2 => obeys_read.mpr fun v3 h3 => ?_) ?_
  · dsimp only
    split <;> trivial
  rintro L v2 run rfl hrun
  refine obeys_read.mpr fun v3 h3 => ?_
  split
  · rename_i hattempt
    cases hget : v3.attempts.get? attemptId with
    | none =>
      rw [hget] at hattempt
      exact absurd hattempt (by simp)
    | some attempt =>
      simp only [hget, Option.any_some, Bool.and_eq_true, beq_iff_eq,
        Option.isNone_iff_eq_none] at hattempt
      obtain rfl : attempt.id = attemptId := (mem_of_get? hget).2
      show Follows limits _ (if ownsActiveLease run workerId c.now then _ else _) L [] v3
      split
      · rename_i hlease
        refine (follows_chargeProviderCall hagrees ?_ hlease hattempt.2).mono
          fun _ _ _ _ hcharged => ⟨run, hcharged⟩
        exact ⟨(hrun.frame h3).stored, hrun.held, hget, hattempt.1, hrun.scopesHeld,
          fun w hw => absurd hw (by simp)⟩
      · trivial
  · trivial

end Charge

end AgentRuntime.Concurrency
