import AgentRuntime.Lib.Refusal
import AgentRuntime.Security.KeyDiscipline

/-!
# The life of a tenant key

A tenant's key row is absent, then holds one key, then none for ever: whatever operations interleave,
every commit leaves the row as it is or takes it one step further, and all envelopes of the tenant are
sealed with the one key, however many first encryptions race. After the destruction no encryption
and no decryption of an envelope commits; and in the state an erasure commits, nothing of the tenant
is unfinished.

* `KeyStep`, `keyStep`: what one step of the system does to a tenant's row;
* `opened_later`, `destroyed_later`: what stays of a key along a run;
* `one_key`: all envelopes of a tenant are sealed with the same key;
* `refused_session`: no operation with a destroyed key commits;
* `tenant_key_lifecycle`: all of it.
-/

namespace AgentRuntime.Security

open Lib Domain Application Database Concurrency

/-! ### One step -/

/-- What a step does to the row of tenant `t`: nothing, or it creates a key, records its use, or
destroys it. -/
inductive KeyStep (W : KeyWrapper) (t : String) : Option TenantKey → Option TenantKey → Prop where
  | same (row : Option TenantKey) : KeyStep W t row row
  | created {row : TenantKey} {dek : Bytes} (hopen : openRow W t row = .ok dek) :
      KeyStep W t none (some row)
  | used {row : TenantKey} {dek : Bytes} (now : Timestamp) (hopen : openRow W t row = .ok dek) :
      KeyStep W t (some row) (some { row with lastEncryptedAt := now })
  | destroyed {row : TenantKey} {dek : Bytes} (now : Timestamp)
      (hopen : openRow W t row = .ok dek) :
      KeyStep W t (some row) (some { row with wrappedDek := none, destroyedAt := some now })

/-- The row of a tenant. -/
def Vault.key (v : Vault) (t : String) : Option TenantKey := v.2.keys.get? t

variable {dek : Bytes} {cutoff : Option Timestamp}

section Step

variable {W : KeyWrapper} {c : KeyCall} {t t' : String} {s v : Vault}

theorem applyAll_services {ws : List Write} :
    ∀ {s : Vault}, applyAll (ws.map (Sum.inl : Write → VaultWrite)) s = .ok v → v.2 = s.2 := by
  induction ws with
  | nil =>
    intro s h
    cases h
    rfl
  | cons w ws ih =>
    intro s h
    obtain ⟨s1, hw, hws⟩ := applyAll_cons_ok.mp h
    exact (ih hws).trans (apply_inl_ok.mp hw).2

theorem apply_updateKey {sets : List KeySet}
    (h : Writes.apply (Sum.inr (.updateKey t' sets) : VaultWrite) s = .ok v) (t : String) :
    Vault.key v t = if t = t' then (Vault.key s t).map (assignAll KeySet.assign sets)
      else Vault.key s t := by
  obtain ⟨hw, -⟩ := apply_inr_ok.mp h
  unfold Vault.key
  rw [← Except.ok.inj hw, Table.get?_update]

/-- A use of a key that can be opened afterwards could be opened before. -/
theorem touch_step (h : Writes.apply (touchKey c t') s = .ok v) {row : TenantKey}
    (hrow : Vault.key v t' = some row) (hopen : openRow W t' row = .ok dek) (t : String) :
    KeyStep W t (Vault.key s t) (Vault.key v t) := by
  rw [apply_updateKey h] at hrow ⊢
  by_cases ht : t = t'
  · subst ht
    rw [if_pos rfl] at hrow ⊢
    obtain ⟨old, hold, rfl⟩ := Option.map_eq_some_iff.mp hrow
    rw [hold]
    exact .used c.now hopen
  · rw [if_neg ht]
    exact .same _

/-- A new key that is used at once. -/
theorem create_step {new : TenantKey} (hnew : new.tenantId = t')
    (hopen : openRow W t' new = .ok dek)
    (h : applyAll [.inr (.insertKey new), touchKey c t'] s = .ok v) (t : String) :
    KeyStep W t (Vault.key s t) (Vault.key v t) := by
  obtain ⟨s1, hins, h⟩ := applyAll_cons_ok.mp h
  obtain ⟨s2, htouch, h⟩ := applyAll_cons_ok.mp h
  cases h
  obtain ⟨hw, -⟩ := apply_inr_ok.mp hins
  obtain ⟨-, keys, hkeys, hs1⟩ := apply_insertKey hw
  have hget : Vault.key s1 t = if new.tenantId = t then some new else Vault.key s t := by
    unfold Vault.key
    rw [hs1]
    exact Table.get?_insert hkeys t
  rw [apply_updateKey htouch, hget]
  by_cases ht : t = t'
  · subst ht
    have hfresh : Vault.key s t = none := by
      have := Table.get?_insert_fresh hkeys
      rwa [TenantKey.row_id, hnew] at this
    rw [if_pos rfl, if_pos hnew, hfresh]
    exact @KeyStep.created W t { new with lastEncryptedAt := c.now } dek hopen
  · rw [if_neg ht, if_neg fun h => ht (h.symm.trans hnew)]
    exact .same _

variable [IdealAead] {r : Uuid} {f : String} {plaintext : Except PyError Bytes}
  {envelope : JsonObject} {ws : List VaultWrite} {L : List (Hold Resource)}

theorem Sealed.step (h : Sealed W c t' r f plaintext envelope ws v)
    (happly : applyAll ws s = .ok v) (t : String) :
    KeyStep W t (Vault.key s t) (Vault.key v t) := by
  obtain ⟨dek, row, hget, hopen, -⟩ := h.key
  rcases h.writes with rfl | rfl
  · obtain ⟨s1, htouch, hnil⟩ := applyAll_cons_ok.mp happly
    cases hnil
    exact touch_step htouch hget hopen t
  · exact create_step rfl liveKey_newKey.openRow happly t

omit [IdealAead] in
/-- The row of a key that is destroyed held a key. -/
theorem Erased.step {principal : String} (h : Erased c t' principal cutoff ws v)
    (hinv : (vaultDiscipline W).Inv s) (hreplay : Replay (vaultDiscipline W) L ws s v) :
    ∃ row dek, Vault.key s t' = some row ∧ openRow W t' row = .ok dek
      ∧ Vault.key v t' = some { row with wrappedDek := none, destroyedAt := some c.now }
      ∧ (∀ t, t ≠ t' → Vault.key v t = Vault.key s t)
      ∧ v.2.audit = s.2.audit ++ [erasureRecord c t' principal] := by
  obtain rfl := h.writes
  cases hreplay with
  | @cons _ _ _ s1 _ hlegal hdestroy hrest =>
    obtain ⟨s2, haudit, hnil⟩ := applyAll_cons_ok.mp hrest.applyAll
    cases hnil
    obtain ⟨-, ⟨row, hrow, hlive⟩, -⟩ := hlegal
    have hopen : ∃ dek, openRow W t' row = .ok dek := by
      rcases hinv.2 t' row hrow with hopen | ⟨-, hdestroyed⟩
      · exact hopen
      · rw [hlive] at hdestroyed
        cases hdestroyed
    obtain ⟨dek, hopen⟩ := hopen
    obtain ⟨hw, -⟩ := apply_inr_ok.mp haudit
    have hkeys : ∀ t, Vault.key v t = Vault.key s1 t := fun t => by
      unfold Vault.key
      rw [← Except.ok.inj hw]
    have hlog := (apply_inr_ok.mp hdestroy).1
    refine ⟨row, dek, hrow, hopen, ?_, fun t ht => ?_, ?_⟩
    · rw [hkeys, apply_updateKey hdestroy, if_pos rfl, show Vault.key s t' = some row from hrow]
      rfl
    · rw [hkeys, apply_updateKey hdestroy, if_neg ht]
    · rw [← Except.ok.inj hw, ← Except.ok.inj hlog]

end Step

/-! ### Runs -/

variable {v : Vault}

section Runs

variable [Externals] [IdealAead] [FloatRepr] (W : KeyWrapper)

omit [Externals] [IdealAead] [FloatRepr] in
theorem vaultInv_empty : (vaultDiscipline W).Inv (Store.empty, KeyStore.empty) := by
  refine ⟨⟨storeInv_empty none, fun id r hget => ?_⟩, fun t row hget => ?_⟩
  · cases hget
  · cases hget

theorem vault_verified :
    Verified vaultLocking (vaultDiscipline W) (vaultRequest W) (fun _ => True) (VaultPost W) :=
  fun op _ => vaultRequest_obeys W op

theorem vault_sound (events : List (Event VaultOp)) :
    Sound vaultLocking (vaultDiscipline W) (VaultPost W) ((vaultSystem W).after events) :=
  sound_after (vault_verified W) (vaultInv_empty W) events fun _ _ => trivial

/-- The row of a tenant after a run. -/
def keyAfter (events : List (Event VaultOp)) (t : String) : Option TenantKey :=
  Vault.key ((vaultSystem W).after events).store t

variable {W} {t : String}

variable {op : VaultOp} {answer : VaultAnswer}

variable {L : List (Hold Resource)} {ws : List VaultWrite}

omit [Externals] [FloatRepr] in
/-- What the commit of an operation does to the row of a tenant. -/
theorem VaultPost.step {s v : Vault} (h : VaultPost W op answer L ws v)
    (hinv : (vaultDiscipline W).Inv s) (hreplay : Replay (vaultDiscipline W) L ws s v)
    (t : String) : KeyStep W t (Vault.key s t) (Vault.key v t) := by
  have hidle (hws : ws = []) : KeyStep W t (Vault.key s t) (Vault.key v t) := by
    rw [hws] at hreplay
    cases hreplay
    exact .same _
  cases op with
  | service i =>
    obtain ⟨services, rfl⟩ := h
    unfold Vault.key
    rw [applyAll_services hreplay.applyAll]
    exact .same _
  | encrypt c tenantId runId field value =>
    obtain ⟨envelope, -, hsealed⟩ := h
    exact hsealed.step hreplay.applyAll t
  | decrypt c tenantId runId field envelope => exact hidle h
  | protectPolicy c tenantId runId policy =>
    obtain ⟨result, -, ⟨-, hws⟩ | ⟨_, _, -, -, hsealed⟩⟩ := h
    · exact hidle hws
    · exact hsealed.step hreplay.applyAll t
  | eraseTenantKey c tenantId principalId dryRun confirm cutoff =>
    obtain ⟨erased, -, ⟨-, -, herased⟩ | ⟨-, hws⟩⟩ := h
    · obtain ⟨row, dek, hrow, hopen, hafter, hothers, -⟩ := herased.step hinv hreplay
      by_cases ht : t = tenantId
      · rw [ht, hrow, hafter]
        exact .destroyed c.now hopen
      · rw [hothers t ht]
        exact .same _
    · exact hidle hws

/-- **One step of the system.** -/
theorem keyStep (events : List (Event VaultOp)) (e : Event VaultOp) (t : String) :
    KeyStep W t (keyAfter W events t) (keyAfter W (events ++ [e]) t) := by
  have hsound := vault_sound W events
  unfold keyAfter
  rw [Machine.after_concat]
  rcases hsound.store_step (vaultRequest W) (Store.empty, KeyStore.empty) e with
    hsame | ⟨op, answer, held, ws, hreplay, hpost⟩
  · rw [hsame]
    exact .same _
  · exact hpost.step hsound.inv hreplay t

variable {past : List (Event VaultOp)}

/-- **A key that can be opened** is the same or destroyed after any further events. -/
theorem opened_later {row : TenantKey} (hrow : keyAfter W past t = some row)
    (hopen : openRow W t row = .ok dek) (later : List (Event VaultOp)) :
    ∃ row', keyAfter W (past ++ later) t = some row'
      ∧ (openRow W t row' = .ok dek ∨ row'.destroyedAt.isSome = true) := by
  induction later using List.reverseRecOn with
  | nil =>
    rw [List.append_nil]
    exact ⟨row, hrow, .inl hopen⟩
  | append_singleton later e ih =>
    obtain ⟨row1, hrow1, hkey⟩ := ih
    have hstep := keyStep (W := W) (past ++ later) e t
    rw [List.append_assoc, hrow1] at hstep
    generalize keyAfter W (past ++ (later ++ [e])) t = next at hstep ⊢
    cases hstep with
    | same _ => exact ⟨row1, rfl, hkey⟩
    | used now hopen1 => exact ⟨_, rfl, hkey⟩
    | destroyed now hopen1 => exact ⟨_, rfl, .inr rfl⟩

/-- The tenant's key was destroyed. -/
def Destroyed (t : String) (v : Vault) : Prop :=
  ∃ row, Vault.key v t = some row ∧ row.destroyedAt.isSome = true

/-- **A destroyed key** stays as it is. -/
theorem destroyed_later (h : Destroyed t ((vaultSystem W).after past).store)
    (later : List (Event VaultOp)) : keyAfter W (past ++ later) t = keyAfter W past t := by
  obtain ⟨row, hrow, hdestroyed⟩ := h
  replace hrow : keyAfter W past t = some row := hrow
  induction later using List.reverseRecOn with
  | nil => rw [List.append_nil]
  | append_singleton later e ih =>
    have hstep := keyStep (W := W) (past ++ later) e t
    have hnot {dek : Bytes} (hopen : openRow W t row = .ok dek) : False := by
      rw [destroyedAt_of_openRow hopen] at hdestroyed
      cases hdestroyed
    rw [List.append_assoc, ih, hrow] at hstep
    rw [hrow]
    generalize keyAfter W (past ++ (later ++ [e])) t = next at hstep ⊢
    cases hstep with
    | same _ => rfl
    | used now hopen => exact (hnot hopen).elim
    | destroyed now hopen => exact (hnot hopen).elim

/-! ### One key -/

/-- What was sealed for whom, and the envelope. -/
structure Sealing where
  tenantId : String
  runId : Uuid
  field : String
  nonce : Nonce
  value : Json
  envelope : JsonObject

omit [Externals] [IdealAead] [FloatRepr] in
/-- The envelope that an operation has made. -/
def sealing? : VaultOp → VaultAnswer → Option Sealing
  | .encrypt c tenantId runId field value, .envelope envelope =>
    some ⟨tenantId, runId, field, c.nonce, value, envelope⟩
  | .protectPolicy c tenantId runId policy, .policy result =>
    match JsonObject.get? policy "instructions",
      JsonObject.get? result "_encrypted_instructions" with
    | some instructions, some (.obj envelope) =>
      some ⟨tenantId, runId, "instructions", c.nonce, instructions, envelope⟩
    | _, _ => none
  | _, _ => none

/-- The envelope is sealed with `dek`. -/
def Sealing.With (s : Sealing) (dek : Bytes) : Prop :=
  sealEnvelope dek s.nonce s.tenantId s.runId s.field (plaintextOf s.value) = .ok s.envelope

omit [Externals] [FloatRepr] in
/-- When an envelope is committed, the tenant's row holds the key it is sealed with. -/
theorem VaultPost.sealed (h : VaultPost W op answer L ws v) {s : Sealing}
    (hs : sealing? op answer = some s) :
    ∃ dek row, Vault.key v s.tenantId = some row ∧ openRow W s.tenantId row = .ok dek
      ∧ s.With dek := by
  cases op with
  | encrypt c tenantId runId field value =>
    obtain ⟨envelope, rfl, hsealed⟩ := h
    cases hs
    exact hsealed.key
  | protectPolicy c tenantId runId policy =>
    obtain ⟨result, rfl, hnone | ⟨instructions, envelope, hsome, rfl, hsealed⟩⟩ := h
    · simp only [sealing?, hnone.1] at hs
      cases hs
    · simp only [sealing?, hsome, JsonObject.get?_set, if_true] at hs
      cases hs
      exact hsealed.key
  | _ => cases hs

/-- After `events` the row of the tenant holds `dek`. -/
def Holds (W : KeyWrapper) (events : List (Event VaultOp)) (t : String) (dek : Bytes) : Prop :=
  ∃ row, keyAfter W events t = some row ∧ openRow W t row = .ok dek

/-- Two moments of a run find the same key. -/
theorem Holds.eq {past past' events : List (Event VaultOp)} {dek dek' : Bytes}
    (h : Holds W past t dek) (h' : Holds W past' t dek') (hpast : past <+: events)
    (hpast' : past' <+: events) : dek = dek' := by
  have hlater : ∀ {p p' : List (Event VaultOp)} {d d' : Bytes}, Holds W p t d → Holds W p' t d' →
      p <+: p' → d = d' := by
    rintro p p' d d' ⟨row, hrow, hopen⟩ ⟨row', hrow', hopen'⟩ ⟨rest, rfl⟩
    obtain ⟨row1, hrow1, hkey⟩ := opened_later hrow hopen rest
    rw [hrow'] at hrow1
    cases hrow1
    rcases hkey with hkey | hdestroyed
    · exact Except.ok.inj (hkey.symm.trans hopen')
    · rw [destroyedAt_of_openRow hopen'] at hdestroyed
      cases hdestroyed
  rcases List.prefix_or_prefix_of_prefix hpast hpast' with hle | hle
  · exact hlater h h' hle
  · exact (hlater h' h hle).symm

/-- An envelope was sealed with a key that was in the row at some moment. -/
theorem sealed_moment {events : List (Event VaultOp)} {n : ℕ} {s : Sealing}
    (h : ((vaultSystem W).after events).outcome? n = some (op, answer, ws))
    (hs : sealing? op answer = some s) :
    ∃ past dek, past <+: events ∧ Holds W past s.tenantId dek ∧ s.With dek := by
  obtain ⟨past, e, later, held, rfl, -, hpost⟩ :=
    commit_moment (vault_verified W) (vaultInv_empty W) events (fun _ _ => trivial) h
  obtain ⟨dek, row, hrow, hopen, hwith⟩ := hpost.sealed hs
  exact ⟨past ++ [e], dek, ⟨later, by simp⟩, ⟨row, hrow, hopen⟩, hwith⟩

/-- **One key.** All envelopes of a tenant are sealed with the key that its row holds while it
holds one. -/
theorem one_key (W : KeyWrapper) (events : List (Event VaultOp)) (t : String) :
    ∃ dek, (∀ row, keyAfter W events t = some row → row.destroyedAt = none →
        openRow W t row = .ok dek)
      ∧ ∀ n op answer ws s, ((vaultSystem W).after events).outcome? n = some (op, answer, ws) →
          sealing? op answer = some s → s.tenantId = t → s.With dek := by
  have hlive : ∀ row, keyAfter W events t = some row → row.destroyedAt = none →
      ∃ dek, openRow W t row = .ok dek := by
    intro row hrow hnone
    rcases (vault_sound W events).inv.2 t row hrow with hopen | ⟨-, hdestroyed⟩
    · exact hopen
    · rw [hnone] at hdestroyed
      cases hdestroyed
  by_cases hever : ∃ past dek, past <+: events ∧ Holds W past t dek
  · obtain ⟨past, dek, hpast, hholds⟩ := hever
    refine ⟨dek, fun row hrow hnone => ?_, ?_⟩
    · obtain ⟨dek', hopen⟩ := hlive row hrow hnone
      rw [hholds.eq ⟨row, hrow, hopen⟩ hpast (List.prefix_refl _)]
      exact hopen
    · rintro n op answer ws s hn hs rfl
      obtain ⟨past', dek', hpast', hholds', hwith⟩ := sealed_moment hn hs
      rw [hholds.eq hholds' hpast hpast']
      exact hwith
  · refine ⟨[], fun row hrow hnone => ?_, ?_⟩
    · obtain ⟨dek, hopen⟩ := hlive row hrow hnone
      exact absurd ⟨events, dek, List.prefix_refl _, row, hrow, hopen⟩ hever
    · rintro n op answer ws s hn hs rfl
      obtain ⟨past', dek', hpast', hholds', -⟩ := sealed_moment hn hs
      exact absurd ⟨past', dek', hpast', hholds'⟩ hever

/-! ### Destroyed keys -/

/-- `KeyDestroyedError("Tenant key has been destroyed")`. -/
def keyDestroyed : PyError := .keyDestroyedError "Tenant key has been destroyed"

/-- Encryptions, and decryptions of envelopes in the supported format, need the tenant's key. -/
def NeedsKey (t : String) : VaultOp → Prop
  | .encrypt _ tenantId _ _ _ => tenantId = t
  | .decrypt _ tenantId _ _ envelope => tenantId = t ∧ hasFormat envelope = true
  | _ => False

omit [Externals] [IdealAead] [FloatRepr] in
theorem loadKey_destroyed (c : KeyCall) (create : Bool) :
    (loadKey W c t create).Refused (Destroyed t) (· = keyDestroyed) := by
  rintro v ⟨row, hrow, hdestroyed⟩
  have hopen : openRow W t row = .error keyDestroyed := by
    unfold openRow
    split
    · rename_i hnone _
      rw [hnone] at hdestroyed
      cases hdestroyed
    · rfl
  show Tx.Refused _ _ (Tx.bind (findOrCreate W c t create (Vault.key v t)) _)
  rw [hrow]
  show Tx.Refused _ _ (Tx.bind (Tx.ofExcept (openRow W t row)) _)
  rw [hopen]
  rfl

/-- Operations that need a destroyed key are refused. -/
theorem needsKey_refused (h : NeedsKey t op) :
    (vaultRequest W op).body.Refused (Destroyed t) (· = keyDestroyed) := by
  cases op with
  | encrypt c tenantId runId field value =>
    cases h
    exact ((loadKey_destroyed c true).bind _).bind _
  | decrypt c tenantId runId field envelope =>
    obtain ⟨rfl, hformat⟩ := h
    refine Tx.Refused.bind (t := decrypt W c tenantId runId field envelope) ?_ _
    unfold decrypt
    rw [hformat]
    exact (loadKey_destroyed c false).bind _
  | _ => exact h.elim

theorem needsKey_handler (h : NeedsKey t op) (e : PyError) :
    (vaultRequest W op).handler e = none := by
  cases op with
  | encrypt _ _ _ _ _ => rfl
  | decrypt _ _ _ _ _ => rfl
  | _ => exact h.elim

/-- **An operation that runs alone** with a destroyed key raises. -/
theorem needsKey_run (h : NeedsKey t op) (busy : Lock → Bool) (hv : Destroyed t v) :
    (vaultRequest W op).run busy v = .error keyDestroyed := by
  obtain ⟨e, rfl, hrun⟩ := (needsKey_refused (W := W) h).run busy hv
  unfold Request.run
  rw [hrun]
  simp only [needsKey_handler h]

/-- **No session** that starts after the destruction commits. -/
theorem refused_session {past later : List (Event VaultOp)} (hop : NeedsKey t op)
    (h : Destroyed t ((vaultSystem W).after past).store) {n : ℕ}
    (hn : ((vaultSystem W).after past).sessions.length ≤ n)
    {p : Stage Vault VaultWrite Lock PyError VaultAnswer Resource}
    (hx : ((vaultSystem W).after (past ++ later)).sessions[n]? = some ⟨op, p⟩) :
    (∀ answer ws, p ≠ .committed answer ws) ∧ ∀ e, p = .failed e → e = keyDestroyed := by
  have hrefused : p.Refused (Destroyed t) (· = keyDestroyed) := by
    refine refused_after (needsKey_refused hop) (fun e _ => needsKey_handler hop e) past later ?_
      hn hx
    intro mid rest _
    obtain ⟨row, hrow, hdestroyed⟩ := h
    exact ⟨row, (destroyed_later ⟨row, hrow, hdestroyed⟩ mid).trans hrow, hdestroyed⟩
  refine ⟨?_, ?_⟩
  · rintro answer ws rfl
    exact hrefused
  · rintro e rfl
    exact hrefused

/-! ### Erasures -/

omit [Externals] [IdealAead] [FloatRepr] in
/-- Nothing of the tenant is unfinished, nor has ended after the cutoff. -/
theorem ended_of_free {s : Store} (h : hasBlockingRun t cutoff s = false) {r : Run}
    (hr : r ∈ s.runs.rows) (hclient : r.clientId = t) :
    ∃ ended, r.completedAt = some ended ∧ ∀ limit ∈ cutoff, ended ≤ limit := by
  have hfree : ¬ blocksErasure cutoff r = true := by
    have hany := List.any_eq_false.mp h r hr
    simpa [hclient] using hany
  cases hended : r.completedAt with
  | none => exact absurd (blocksErasure_of_none hended) hfree
  | some ended =>
    refine ⟨ended, rfl, fun limit hlimit => ?_⟩
    unfold blocksErasure at hfree
    rw [hended, Option.mem_def.mp hlimit] at hfree
    simpa using hfree

/-- **The life of a tenant key.** However the operations interleave: a step leaves the row of a
tenant as it is or takes it from absent to live to destroyed; all envelopes of the tenant are sealed
with one key; a destroyed key stays so, and every later encryption, and every later decryption of an
envelope in the supported format, raises; and when an erasure commits, nothing of the tenant is
unfinished or newer than the cutoff in the committed state, which has one audit record more. -/
theorem tenant_key_lifecycle (W : KeyWrapper) (events : List (Event VaultOp)) :
    (∀ past e later t, events = past ++ e :: later →
      KeyStep W t (keyAfter W past t) (keyAfter W (past ++ [e]) t))
    ∧ (∀ t, ∃ dek, (∀ row, keyAfter W events t = some row → row.destroyedAt = none →
          openRow W t row = .ok dek)
        ∧ ∀ n op answer ws s, ((vaultSystem W).after events).outcome? n = some (op, answer, ws) →
            sealing? op answer = some s → s.tenantId = t → s.With dek)
    ∧ (∀ past later t, events = past ++ later → Destroyed t ((vaultSystem W).after past).store →
        keyAfter W events t = keyAfter W past t
        ∧ ∀ op, NeedsKey t op →
          (∀ busy, (vaultRequest W op).run busy ((vaultSystem W).after events).store
            = .error keyDestroyed)
          ∧ ∀ n p, ((vaultSystem W).after past).sessions.length ≤ n →
              ((vaultSystem W).after events).sessions[n]? = some ⟨op, p⟩ →
              (∀ answer ws, p ≠ .committed answer ws) ∧ ∀ e, p = .failed e → e = keyDestroyed)
    ∧ (∀ past e later n c t principal confirm cutoff ws, events = past ++ e :: later →
        ((vaultSystem W).after past).outcome? n = none →
        ((vaultSystem W).after (past ++ [e])).outcome? n
          = some (.eraseTenantKey c t principal false confirm cutoff, .erased true, ws) →
        (∀ r ∈ ((vaultSystem W).after (past ++ [e])).store.1.runs.rows, r.clientId = t →
          ∃ ended, r.completedAt = some ended ∧ ∀ limit ∈ cutoff, ended ≤ limit)
        ∧ (∃ row dek, keyAfter W past t = some row ∧ openRow W t row = .ok dek
          ∧ (∀ limit ∈ cutoff, row.lastEncryptedAt ≤ limit)
          ∧ keyAfter W (past ++ [e]) t
            = some { row with wrappedDek := none, destroyedAt := some c.now })
        ∧ ((vaultSystem W).after (past ++ [e])).store.2.audit
            = ((vaultSystem W).after past).store.2.audit ++ [erasureRecord c t principal]) := by
  refine ⟨fun past e later t _ => keyStep past e t, fun t => one_key W events t, ?_, ?_⟩
  · rintro past later t rfl hdestroyed
    have hsame := destroyed_later hdestroyed later
    refine ⟨hsame, fun op hop => ⟨fun busy => ?_, fun n p hn hx => ?_⟩⟩
    · obtain ⟨row, hrow, hrow'⟩ := hdestroyed
      exact needsKey_run hop busy ⟨row, hsame.trans hrow, hrow'⟩
    · exact refused_session hop hdestroyed hn hx
  · rintro past e later n c t principal confirm cutoff ws rfl hnone hsome
    have hsound := vault_sound W past
    have hafter := Machine.after_concat (vaultSystem W) past e
    unfold keyAfter
    rw [hafter] at hsome ⊢
    obtain ⟨held, hreplay, erased, heq, hpost⟩ := hsound.commit_step hnone hsome
    cases heq
    rcases hpost with ⟨-, -, herased⟩ | ⟨hdry, -⟩
    · obtain ⟨row, dek, hrow, hopen, hdestroyed, -, haudit⟩ := herased.step hsound.inv hreplay
      obtain ⟨row', hrow', -, -, hlast⟩ := herased.row
      refine ⟨fun r hr hclient => ended_of_free herased.free hr hclient, ?_, haudit⟩
      refine ⟨row, dek, hrow, hopen, ?_, hdestroyed⟩
      cases Option.some.inj (hdestroyed.symm.trans hrow')
      exact hlast
    · cases hdry rfl

end Runs

/-! ### A sample -/

/-- Operation `op` starts as session number `n` and runs `k` statements. -/
def vaultStatements (op : VaultOp) (n k : ℕ) : List (Event VaultOp) :=
  .start op :: List.replicate k (.step n)

def sampleKeyCall : KeyCall := plainCall ⟨0, Nat.zero_le _⟩

/-- The first envelope of a tenant, and the erasure of its key. -/
def sampleErasure : List (Event VaultOp) :=
  vaultStatements (.encrypt sampleKeyCall "acme" ⟨1⟩ "input" .null) 0 7
    ++ vaultStatements (.eraseTenantKey sampleKeyCall "acme" "operator" false (some "acme") none) 1 7

theorem destroyed_of_any {t : String}
    (h : ((Vault.key v t).any fun row => row.destroyedAt.isSome) = true) : Destroyed t v := by
  cases hrow : Vault.key v t with
  | none =>
    rw [hrow] at h
    cases h
  | some row =>
    rw [hrow] at h
    exact ⟨row, hrow, h⟩

/-- The key of the sample is destroyed and recorded once; its tenant cannot encrypt any more. -/
theorem tenant_key_lifecycle_sample :
    let _ : Externals := sampleExternals
    let _ : IdealAead := framedAead
    let _ : FloatRepr := exactRepr
    let W := aesWrapper (List.replicate 32 5)
    Destroyed "acme" ((vaultSystem W).after sampleErasure).store
      ∧ ((vaultSystem W).after sampleErasure).store.2.audit
        = [erasureRecord sampleKeyCall "acme" "operator"]
      ∧ ∀ busy, (vaultRequest W (.encrypt sampleKeyCall "acme" ⟨2⟩ "result" .null)).run busy
          ((vaultSystem W).after sampleErasure).store = .error keyDestroyed := by
  intro _ _ _ W
  have hdestroyed : Destroyed "acme" ((vaultSystem W).after sampleErasure).store :=
    destroyed_of_any (by decide +kernel)
  have hneeds : NeedsKey "acme" (.encrypt sampleKeyCall "acme" ⟨2⟩ "result" .null) := rfl
  obtain ⟨-, -, hlater, -⟩ := tenant_key_lifecycle W sampleErasure
  refine ⟨hdestroyed, by decide +kernel, ?_⟩
  exact ((hlater sampleErasure [] "acme" (List.append_nil _).symm hdestroyed).2 _ hneeds).1

/-- **A decryption that starts after the destruction** and ends with another exception: the format of
the envelope is looked at before the key. -/
theorem unsupported_envelope_of_destroyed :
    let _ : Externals := sampleExternals
    let _ : IdealAead := framedAead
    let _ : FloatRepr := exactRepr
    let W := aesWrapper (List.replicate 32 5)
    let late := VaultOp.decrypt sampleKeyCall "acme" ⟨1⟩ "input" [("format", .str "arr-envelope-v0")]
    Destroyed "acme" ((vaultSystem W).after sampleErasure).store
      ∧ ((vaultSystem W).after sampleErasure).sessions.length = 2
      ∧ ((vaultSystem W).after (sampleErasure ++ vaultStatements late 2 1)).sessions[2]?
        = some ⟨late, .failed (.valueError "Unsupported envelope")⟩
      ∧ ∀ message, PyError.valueError "Unsupported envelope" ≠ .keyDestroyedError message := by
  intro _ _ _ W late
  have hlength : ((vaultSystem W).after sampleErasure).sessions.length = 2 := by decide +kernel
  refine ⟨destroyed_of_any (by decide +kernel), hlength, ?_, fun _ h => by cases h⟩
  exact failed_of_error? hlength (by decide +kernel)

end AgentRuntime.Security
