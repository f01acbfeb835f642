import AgentRuntime.Concurrency.Frames

/-!
# What the runtime's transactions may write

Which writes the runtime's transactions may issue, given the locks they hold, so that no holder of a
lock is disturbed and the quotas are kept: a run enters a scope, or starts to run in it, only under the
scope's lock and while there is room; a run or an attempt is changed only under the lock of the run's
row, and an ended run keeps its status; a counter moves only under the lock of its scope, by one and
within its limit.

* `Frame`, `Legal`, `StoreInv`: what holders rely on, what they may write, what always holds;
* `Legal.replay`, `Legal.apart`, `Legal.inv`: that these fit together.
-/

namespace AgentRuntime.Concurrency

open Lib Table Domain Database Lifecycle

/-- What the holder of `L` can rely on. -/
structure Frame (L : List (Hold Resource)) (s s' : Store) : Prop where
  runs : RunsFrame L s.runs s'.runs
  attempts : AttemptsFrame L s.attempts s'.attempts
  events : KeepsFree eventKeys L s.events s'.events
  outbox : KeepsFree outboxKeys L s.outbox s'.outbox
  evaluations : EvaluationsFrame L s.evaluations s'.evaluations
  quotas : QuotasFrame L s.quotas s'.quotas

/-- A counter may be opened in a new window, or raised by one within its limit. -/
def LegalCount (limits : Option QuotaLimits) (scope : String) (windowStart : ℤ) (used : ℕ)
    (row : ProviderQuota) : Prop :=
  (row.windowStart ≠ windowStart ∧ used = 0)
    ∨ (row.windowStart = windowStart ∧ used = row.used + 1
        ∧ ∃ k : Scope, k.text = scope ∧ ∀ l ∈ limits, (used : ℤ) ≤ calls l k)

/-- The run is stored and has ended. -/
def Ended (s : Store) (id : Uuid) : Prop :=
  ∃ r, s.runs.get? id = some r ∧ isTerminalExecutionStatus r.executionStatus = true

/-- What the holder of `L` may write. -/
def Legal (limits : Option QuotaLimits) (L : List (Hold Resource)) (s : Store) : Write → Prop
  | .insertRun r => LegalRun limits L s.runs r
  | .updateRun id sets => ∃ r, LegalUpdate limits L s.runs id sets r
  | .insertAttempt a => entries (attemptKeys (Row.ident a)) ⊆ L
  | .updateAttempt id _ => ∃ a, s.attempts.get? id = some a ∧ RunHeld L a.runId
  | .insertEvent e => entries (eventKeys (Row.ident e)) ⊆ L
  | .insertOutbox e => entries (outboxKeys (Row.ident e)) ⊆ L ∧ s.hasRun e.aggregateId = true
  | .updateOutbox _ _ => True
  | .insertEvaluation e =>
    entries (evaluationKeys (Row.ident e)) ⊆ L ∧ RunHeld L e.runId ∧ Ended s e.runId
  | .updateEvaluation _ _ => True
  | .insertQuota q => ScopeHeld L q.scope ∧ q.used = 0
  | .updateQuota scope windowStart used =>
    ScopeHeld L scope ∧
      ∃ row, s.quotas.get? scope = some row ∧ LegalCount limits scope windowStart used row

/-- What holds of every committed store. -/
structure StoreInv (limits : Option QuotaLimits) (s : Store) : Prop where
  attributed : ∀ r ∈ s.runs.rows, Attributed r
  bounded : ∀ l ∈ limits, ∀ w k, (counted s.runs w k : ℤ) ≤ max (bound l w k) 0
  spent : ∀ l ∈ limits, ∀ (k : Scope) row, s.quotas.get? k.text = some row →
    (row.used : ℤ) ≤ max (calls l k) 0
  delivers : ∀ e ∈ s.outbox.rows, s.hasRun e.aggregateId = true
  sources : ∀ e ∈ s.evaluations.rows, Ended s e.runId

variable {limits : Option QuotaLimits} {L L' : List (Hold Resource)} {s s' s'' u : Store} {w : Write}

/-! ### Frames -/

theorem Frame.refl (L : List (Hold Resource)) (s : Store) : Frame L s s :=
  ⟨.refl, .refl, .refl, .refl, .refl, fun _ _ => rfl⟩

theorem Frame.trans (h : Frame L s s') (h' : Frame L s' s'') : Frame L s s'' where
  runs := h.runs.trans h'.runs
  attempts := h.attempts.trans h'.attempts
  events := h.events.trans h'.events
  outbox := h.outbox.trans h'.outbox
  evaluations := h.evaluations.trans h'.evaluations
  quotas scope hscope := (h'.quotas scope hscope).trans (h.quotas scope hscope)

theorem Frame.anti (hsub : L ⊆ L') (h : Frame L' s s') : Frame L s s' where
  runs := h.runs.anti hsub
  attempts := h.attempts.anti hsub
  events := h.events.anti hsub
  outbox := h.outbox.anti hsub
  evaluations := h.evaluations.anti hsub
  quotas scope hscope := h.quotas scope (hsub hscope)

variable {id : Uuid}

theorem Frame.hasRun (h : Frame L s s') (hid : s.hasRun id = true) : s'.hasRun id = true := by
  obtain ⟨r, hr⟩ := Option.isSome_iff_exists.mp hid
  obtain ⟨r', hr', -⟩ := h.runs.stays _ _ hr
  exact Option.isSome_iff_exists.mpr ⟨r', hr'⟩

theorem Frame.hasAttempt (h : Frame L s s') (hid : s.hasAttempt id = true) :
    s'.hasAttempt id = true := by
  obtain ⟨a, ha⟩ := Option.isSome_iff_exists.mp hid
  obtain ⟨a', ha', -⟩ := h.attempts.stays _ _ ha
  exact Option.isSome_iff_exists.mpr ⟨a', ha'⟩

theorem Frame.ended (h : Frame L s s') (hheld : RunHeld L id) (hid : Ended s id) : Ended s' id := by
  obtain ⟨r, hr, hterminal⟩ := hid
  exact ⟨r, h.runs.held hheld hr, hterminal⟩

theorem all_mono {α : Type} {p q : α → Bool} {o : Option α} (h : ∀ a, p a = true → q a = true)
    (ho : o.all p = true) : o.all q = true := by
  cases o with
  | none => rfl
  | some a => exact h a ho

/-! ### Legal writes -/

theorem Legal.mono (hsub : L ⊆ L') (h : Legal limits L s w) : Legal limits L' s w := by
  cases w with
  | insertRun r =>
    exact ⟨List.Subset.trans h.keys hsub, h.attributed, fun w hw => (h.room w hw).mono hsub⟩
  | updateRun id sets =>
    obtain ⟨r, hr⟩ := h
    refine ⟨r, hr.stored, hsub hr.held, hr.live, fun w hw => ?_⟩
    exact (hr.room w hw).imp_right fun h => h.mono hsub
  | insertAttempt a => exact List.Subset.trans h hsub
  | updateAttempt id sets => exact h.imp fun a ha => ⟨ha.1, hsub ha.2⟩
  | insertEvent e => exact List.Subset.trans h hsub
  | insertOutbox e => exact ⟨List.Subset.trans h.1 hsub, h.2⟩
  | updateOutbox id sets => trivial
  | insertEvaluation e => exact ⟨List.Subset.trans h.1 hsub, hsub h.2.1, h.2.2⟩
  | updateEvaluation id sets => trivial
  | insertQuota q => exact ⟨hsub h.1, h.2⟩
  | updateQuota scope windowStart used => exact ⟨hsub h.1, h.2⟩

theorem Legal.frame (h : Legal limits L s w) (hframe : Frame L s s') : Legal limits L s' w := by
  cases w with
  | insertRun r =>
    exact ⟨h.keys, h.attributed, fun w hw => (h.room w hw).frame hframe.runs⟩
  | updateRun id sets =>
    obtain ⟨r, hr⟩ := h
    refine ⟨r, hframe.runs.held hr.held hr.stored, hr.held, hr.live, fun w hw => ?_⟩
    exact (hr.room w hw).imp_right fun h => h.frame hframe.runs
  | updateAttempt id sets =>
    obtain ⟨a, ha, hheld⟩ := h
    exact ⟨a, hframe.attempts.held hheld ha, hheld⟩
  | insertOutbox e => exact ⟨h.1, hframe.hasRun h.2⟩
  | updateOutbox id sets => trivial
  | insertEvaluation e => exact ⟨h.1, h.2.1, hframe.ended h.2.1 h.2.2⟩
  | updateEvaluation id sets => trivial
  | updateQuota scope windowStart used =>
    obtain ⟨hheld, row, hrow, hcount⟩ := h
    exact ⟨hheld, row, by rw [hframe.quotas scope hheld]; exact hrow, hcount⟩
  | _ => exact h

/-- **Replay.** A legal write can be repeated after others have moved. -/
theorem Legal.replay (h : Legal limits L s w) (hframe : Frame L s s')
    (happly : Writes.apply w s = .ok u) :
    ∃ u', Writes.apply w s' = .ok u' ∧ Frame L u u' := by
  cases applied happly with
  | insertRun r hins hsource =>
    obtain ⟨t', hins', hruns⟩ := hframe.runs.insert h.keys hins
    have hsource' := all_mono (fun _ => hframe.hasRun) hsource
    exact ⟨_, (Applied.insertRun r hins' hsource').apply, { hframe with runs := hruns }⟩
  | updateRun id sets =>
    obtain ⟨r, hr⟩ := h
    exact ⟨_, rfl, { hframe with runs := hframe.runs.update hr.held hr.stored sets }⟩
  | insertAttempt a hins hrun hfits =>
    obtain ⟨t', hins', hattempts⟩ := hframe.attempts.insert h hins
    have happly' := Applied.insertAttempt a hins' (hframe.hasRun hrun) hfits
    exact ⟨_, happly'.apply, { hframe with attempts := hattempts }⟩
  | updateAttempt id sets hfits =>
    obtain ⟨a, ha, hheld⟩ := h
    exact ⟨_, (Applied.updateAttempt id sets hfits).apply,
      { hframe with attempts := hframe.attempts.update hheld ha sets }⟩
  | insertEvent e hins hrun hattempt =>
    obtain ⟨t', hins', hevents⟩ := hframe.events.insert h hins
    have hattempt' := all_mono (fun _ => hframe.hasAttempt) hattempt
    have happly' := Applied.insertEvent e hins' (hframe.hasRun hrun) hattempt'
    exact ⟨_, happly'.apply, { hframe with events := hevents }⟩
  | insertOutbox e hins =>
    obtain ⟨t', hins', houtbox⟩ := hframe.outbox.insert h.1 hins
    exact ⟨_, (Applied.insertOutbox e hins').apply, { hframe with outbox := houtbox }⟩
  | updateOutbox id sets =>
    exact ⟨_, rfl, { hframe with
      outbox := hframe.outbox.update id (assignAll_keeps OutboxSet.ident_assign sets) }⟩
  | insertEvaluation e hins hrun hjob =>
    obtain ⟨t', hins', hevaluations⟩ := hframe.evaluations.insert h.1 hins
    have hjob' := all_mono (fun _ => hframe.hasRun) hjob
    have happly' := Applied.insertEvaluation e hins' (hframe.hasRun hrun) hjob'
    exact ⟨_, happly'.apply, { hframe with evaluations := hevaluations }⟩
  | updateEvaluation id sets =>
    exact ⟨_, rfl, { hframe with evaluations := hframe.evaluations.update id sets }⟩
  | insertQuota q hins =>
    obtain ⟨t', hins', hquotas⟩ := hframe.quotas.insert h.1 hins
    exact ⟨_, (Applied.insertQuota q hins').apply, { hframe with quotas := hquotas }⟩
  | updateQuota scope windowStart used =>
    exact ⟨_, rfl, { hframe with
      quotas := hframe.quotas.update scope (fun q => ⟨q.scope, windowStart, used⟩) fun _ => rfl }⟩

/-- **Apart.** A legal write disturbs nobody who holds other resources. -/
theorem Legal.apart (h : Legal limits L s w) (hinv : StoreInv limits s)
    (happly : Writes.apply w s = .ok u) (hapart : Apart L L') : Frame L' s u := by
  have hrefl := Frame.refl L' s
  cases applied happly with
  | insertRun r hins => exact { hrefl with runs := LegalRun.apart h hapart hins }
  | updateRun id sets =>
    obtain ⟨r, hr⟩ := h
    have hattributed := hinv.attributed r (mem_of_get? hr.stored).1
    exact { hrefl with runs := hr.apart hattributed hapart }
  | insertAttempt a hins => exact { hrefl with attempts := .insert_apart h hapart hins }
  | updateAttempt id sets =>
    obtain ⟨a, ha, hheld⟩ := h
    exact { hrefl with attempts := .update_apart hheld ha sets hapart }
  | insertEvent e hins =>
    exact { hrefl with events := keepsFree_insert eventKeys_of_clash h hapart hins }
  | insertOutbox e hins =>
    exact { hrefl with outbox := keepsFree_insert outboxKeys_of_clash h.1 hapart hins }
  | updateOutbox id sets =>
    exact { hrefl with outbox := keepsFree_update id (assignAll_keeps OutboxSet.ident_assign sets) }
  | insertEvaluation e hins => exact { hrefl with evaluations := .insert_apart h.1 hapart hins }
  | updateEvaluation id sets => exact { hrefl with evaluations := .update_self id sets }
  | insertQuota q hins => exact { hrefl with quotas := .insert_apart h.1 hapart hins }
  | updateQuota scope windowStart used =>
    exact { hrefl with
      quotas := .update_apart h.1 hapart (fun q => ⟨q.scope, windowStart, used⟩) fun _ => rfl }

/-! ### The invariant -/

variable {r : Run}

theorem attributed_assignAll (h : Attributed r) (sets : List RunSet) :
    Attributed (assignAll RunSet.assign sets r) := by
  have haccepted := accepted_assignAll sets r
  have hprincipal : (assignAll RunSet.assign sets r).principalId = r.principalId :=
    congrArg Accepted.principalId haccepted
  have hclient : (assignAll RunSet.assign sets r).clientId = r.clientId :=
    congrArg Accepted.clientId haccepted
  unfold Attributed
  rw [hprincipal, hclient]
  exact h

/-- A run that has ended has ended after the insertion of another. -/
theorem ended_insert {t : Table Run} (hins : s.runs.insert? r = some t) (h : Ended s id) :
    Ended { s with runs := t } id := by
  obtain ⟨q, hq, hterminal⟩ := h
  have hq' := get?_insert_of_some hins hq
  exact ⟨q, hq', hterminal⟩

/-- A run that has ended keeps its status. -/
theorem ended_update {sets : List RunSet} (h : LegalUpdate limits L s.runs id sets r) {id' : Uuid}
    (hended : Ended s id') :
    Ended { s with
      runs := s.runs.update id (assignAll RunSet.assign sets)
        (assignAll_keeps RunSet.ident_assign sets) } id' := by
  obtain ⟨q, hq, hterminal⟩ := hended
  refine stays_update (R := fun _ a b => isTerminalExecutionStatus a.executionStatus = true →
    isTerminalExecutionStatus b.executionStatus = true) (assignAll_keeps RunSet.ident_assign sets)
    (fun _ _ h => h) (fun {a} ha hterminal => ?_) _ _ hq |>.imp fun q' hq' => ⟨hq'.1, hq'.2 hterminal⟩
  rw [h.stored] at ha
  cases ha
  have hkeeps : ¬ SetsStatus sets := by
    intro hsets
    rw [h.live hsets] at hterminal
    exact absurd hterminal (by simp)
  rw [executionStatus_assignAll hkeeps]
  exact hterminal

/-- Inserting a run for which there is room keeps the invariant. -/
theorem StoreInv.insertRun (hinv : StoreInv limits s) {t : Table Run}
    (h : LegalRun limits L s.runs r) (hins : s.runs.insert? r = some t) :
    StoreInv limits { s with runs := t } where
  attributed q hq := by
    rw [(insert?_eq_some hins).1] at hq
    rcases List.mem_append.mp hq with hq | hq
    · exact hinv.attributed q hq
    · rw [List.mem_singleton.mp hq]
      exact h.attributed
  bounded l hl w k := by
    have hbound := hinv.bounded l hl w k
    have hcount := length_select_insert hins
      fun r => k.covers r && decide (r.executionStatus ∈ w.statuses)
    simp only [counted] at hbound ⊢
    by_cases hr : k.covers r = true ∧ r.executionStatus ∈ w.statuses
    · have hroom := (h.room w hr.2 k ((mem_scopes_iff h.attributed).mpr hr.1)).2 l hl
      simp only [counted] at hroom
      simp only [hr.1, hr.2, decide_true, Bool.and_self, if_true] at hcount
      omega
    · rw [← decide_eq_true_iff (p := r.executionStatus ∈ w.statuses), ← Bool.and_eq_true_iff] at hr
      rw [if_neg hr] at hcount
      omega
  spent := hinv.spent
  delivers e he := by
    obtain ⟨q, hq⟩ := Option.isSome_iff_exists.mp (hinv.delivers e he)
    obtain ⟨q', hq', -⟩ := stays_insert (R := fun _ _ _ => True) (fun _ _ => trivial) hins _ _ hq
    exact Option.isSome_iff_exists.mpr ⟨q', hq'⟩
  sources e he := ended_insert hins (hinv.sources e he)

theorem StoreInv.updateRun (hinv : StoreInv limits s) {sets : List RunSet}
    (h : LegalUpdate limits L s.runs id sets r) :
    StoreInv limits { s with
      runs := s.runs.update id (assignAll RunSet.assign sets)
        (assignAll_keeps RunSet.ident_assign sets) } where
  attributed q hq := by
    rw [update_rows, List.mem_map] at hq
    obtain ⟨q', hq', rfl⟩ := hq
    split
    · exact attributed_assignAll (hinv.attributed q' hq') sets
    · exact hinv.attributed q' hq'
  bounded l hl w k := by
    have hbound := hinv.bounded l hl w k
    have hcount := counted_update h.stored sets w k
    dsimp only
    by_cases hafter : k.covers r = true ∧
        (assignAll RunSet.assign sets r).executionStatus ∈ w.statuses
    · rcases h.room w hafter.2 with hbefore | hroom
      · rw [if_pos hafter, if_pos ⟨hafter.1, hbefore⟩] at hcount
        omega
      · have hattributed := hinv.attributed r (mem_of_get? h.stored).1
        have hlt := (hroom k ((mem_scopes_iff hattributed).mpr hafter.1)).2 l hl
        rw [if_pos hafter] at hcount
        omega
    · rw [if_neg hafter] at hcount
      omega
  spent := hinv.spent
  delivers e he := by
    obtain ⟨q, hq⟩ := Option.isSome_iff_exists.mp (hinv.delivers e he)
    refine Option.isSome_iff_exists.mpr ?_
    rw [get?_update, hq]
    split <;> exact ⟨_, rfl⟩
  sources e he := ended_update h (hinv.sources e he)

theorem StoreInv.insertQuota (hinv : StoreInv limits s) {q : ProviderQuota}
    {t : Table ProviderQuota} (hused : q.used = 0) (hins : s.quotas.insert? q = some t) :
    StoreInv limits { s with quotas := t } where
  attributed := hinv.attributed
  bounded := hinv.bounded
  spent l hl k row hrow := by
    rw [get?_insert hins] at hrow
    split at hrow
    · cases hrow
      rw [hused]
      exact le_max_right _ _
    · exact hinv.spent l hl k row hrow
  delivers := hinv.delivers
  sources := hinv.sources

theorem StoreInv.updateQuota (hinv : StoreInv limits s) {scope : String} {windowStart : ℤ}
    {used : ℕ} {row : ProviderQuota} (hcount : LegalCount limits scope windowStart used row) :
    StoreInv limits { s with
      quotas := s.quotas.update scope (fun q => ⟨q.scope, windowStart, used⟩) fun _ => rfl } where
  attributed := hinv.attributed
  bounded := hinv.bounded
  spent l hl k q hq := by
    rw [get?_update] at hq
    split at hq
    · rename_i hk
      obtain ⟨q', -, rfl⟩ := Option.map_eq_some_iff.mp hq
      rcases hcount with ⟨-, rfl⟩ | ⟨-, -, k', hk', hle⟩
      · exact le_max_right _ _
      · rw [← hk] at hk'
        rw [← Scope.text_injective hk']
        exact (hle l hl).trans (le_max_left _ _)
    · exact hinv.spent l hl k q hq
  delivers := hinv.delivers
  sources := hinv.sources

theorem Legal.inv (h : Legal limits L s w) (hinv : StoreInv limits s)
    (happly : Writes.apply w s = .ok u) : StoreInv limits u := by
  cases applied happly with
  | insertRun r hins => exact hinv.insertRun h hins
  | updateRun id sets =>
    obtain ⟨r, hr⟩ := h
    exact hinv.updateRun hr
  | insertOutbox e hins => exact { hinv with delivers := forall_insert hins hinv.delivers h.2 }
  | updateOutbox id sets =>
    have hkeeps := assignAll_keeps OutboxSet.ident_assign sets
    refine { hinv with delivers := forall_update hkeeps hinv.delivers fun o ho => ?_ }
    rw [assignAll_keeps aggregateId_assign sets o]
    exact ho
  | insertEvaluation e hins =>
    exact { hinv with sources := forall_insert hins hinv.sources h.2.2 }
  | updateEvaluation id sets =>
    have hkeeps := assignAll_keeps EvaluationSet.ident_assign sets
    refine { hinv with sources := forall_update hkeeps hinv.sources fun e he => ?_ }
    rw [(evaluationKept_assignAll sets id e).1]
    exact he
  | insertQuota q hins => exact hinv.insertQuota h.2 hins
  | updateQuota scope windowStart used =>
    obtain ⟨-, row, -, hcount⟩ := h
    exact hinv.updateQuota hcount
  | _ => exact { hinv with }

theorem storeInv_empty (limits : Option QuotaLimits) : StoreInv limits Store.empty where
  attributed r hr := absurd hr (by simp [Store.empty])
  bounded l _ w k := by simp [counted, Store.empty]
  spent l _ k row hrow := absurd hrow (by simp [Store.empty])
  delivers e he := absurd he (by simp [Store.empty])
  sources e he := absurd he (by simp [Store.empty])

end AgentRuntime.Concurrency
