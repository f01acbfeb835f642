import AgentRuntime.Concurrency.QuotaBounds
import AgentRuntime.Security.EnvelopeBinding

/-!
# Tenant keys among the services

The operations on tenant keys interleave with those of the services over one database. They all take
the advisory lock of the tenant, and so does everybody who inserts a run of the tenant; a run that has
ended keeps the time it ended at. So who holds the lock finds the tenant's key row as it was and no
new run in the way of an erasure.

* `VaultOp`, `vaultRequest`, `vaultSystem`: all operations, and the machine of all processes;
* `completions`: what the holder of a tenant's lock can rely on among the runs;
* `keyDiscipline`: the rules for the key registry;
* `VaultPost`, `vaultRequest_obeys`: what each operation leaves when it commits.
-/

namespace AgentRuntime.Security

open Lib Table Domain Application Database Lifecycle Concurrency

/-! ### Runs in the way of an erasure -/

section Completions

variable {t t' u u' : Table Run} {tenant : String} {cutoff : Option Timestamp} {id : Uuid}

/-- The run `id` is one of the tenant's that stand in the way. -/
def Blocks (t : Table Run) (tenant : String) (cutoff : Option Timestamp) (id : Uuid) : Prop :=
  ∃ r, t.get? id = some r ∧ r.clientId = tenant ∧ blocksErasure cutoff r = true

theorem hasBlockingRun_eq_false {s : Store} :
    hasBlockingRun tenant cutoff s = false ↔ ∀ id, ¬ Blocks s.runs tenant cutoff id := by
  unfold hasBlockingRun
  rw [List.any_eq_false]
  constructor
  · rintro h id ⟨r, hget, rfl, hblocks⟩
    exact h r (mem_of_get? hget).1 (by simp [hblocks])
  · intro h r hr hblocks
    obtain ⟨htenant, hblocks⟩ := Bool.and_eq_true_iff.mp hblocks
    exact h r.id ⟨r, get?_eq_some_iff.mpr ⟨hr, rfl⟩, beq_iff_eq.mp htenant, hblocks⟩

variable {r : Run}

/-- A run that has not ended stands in the way of every erasure. -/
theorem blocksErasure_of_none (h : r.completedAt = none) : blocksErasure cutoff r = true := by
  unfold blocksErasure
  rw [h]

theorem blocksErasure_congr {r r' : Run} (h : r'.completedAt = r.completedAt) :
    blocksErasure cutoff r' = blocksErasure cutoff r := by
  unfold blocksErasure
  rw [h]

theorem blocks_insert (hins : t.insert? r = some u) :
    Blocks u tenant cutoff id ↔
      (r.id = id ∧ r.clientId = tenant ∧ blocksErasure cutoff r = true)
        ∨ Blocks t tenant cutoff id := by
  unfold Blocks
  rw [get?_insert hins]
  by_cases hid : (Row.id r : Uuid) = id
  · have hfresh : t.get? id = none := hid ▸ get?_insert_fresh hins
    have hid' : r.id = id := hid
    rw [if_pos hid, hfresh]
    simp [hid']
  · have hid' : r.id ≠ id := hid
    rw [if_neg hid]
    simp [hid']

/-- What an update does to the runs in the way. -/
theorem blocks_update {id' : Uuid} {sets : List RunSet} (hget : t.get? id' = some r) :
    Blocks (t.update id' (assignAll RunSet.assign sets)
        (assignAll_keeps RunSet.ident_assign sets)) tenant cutoff id ↔
      if id = id' then r.clientId = tenant
        ∧ blocksErasure cutoff (assignAll RunSet.assign sets r) = true
      else Blocks t tenant cutoff id := by
  have hclient : (assignAll RunSet.assign sets r).clientId = r.clientId :=
    congrArg Accepted.clientId (accepted_assignAll sets r)
  unfold Blocks
  rw [get?_update]
  by_cases hid : id = id'
  · rw [if_pos hid, if_pos hid, hid, hget]
    simp [hclient]
  · rw [if_neg hid, if_neg hid]

/-- Runs that have ended have a terminal status. -/
def EndedRuns (t : Table Run) : Prop :=
  ∀ id r, t.get? id = some r → r.completedAt.isSome = true →
    isTerminalExecutionStatus r.executionStatus = true

/-- An ended run keeps the time it ended at. -/
theorem completedAt_kept {limits : Option QuotaLimits} {L : List (Hold Resource)}
    {sets : List RunSet} (hended : EndedRuns t) (hlegal : LegalUpdate limits L t id sets r)
    (hcloses : Closes (.updateRun id sets)) (hsome : r.completedAt.isSome = true) :
    ¬ SetsStatus sets ∧ (assignAll RunSet.assign sets r).completedAt = r.completedAt := by
  have hterminal := hended id r hlegal.stored hsome
  have hkeeps : ¬ SetsStatus sets := by
    intro hsets
    rw [hlegal.live hsets] at hterminal
    cases hterminal
  refine ⟨hkeeps, ?_⟩
  rcases hcloses with hopen | ⟨hsets, -⟩
  · exact completedAt_assignAll hopen r
  · exact absurd hsets hkeeps

/-- **What the holder of a tenant's lock can rely on**: no run comes to stand in the way. -/
def completions : Supplement (storeDiscipline none) where
  Inv s := EndedRuns s.runs
  Frame L s s' := ∀ tenant, ScopeHeld L (tenantScope tenant) → ∀ cutoff id,
    Blocks s'.runs tenant cutoff id → Blocks s.runs tenant cutoff id
  Admits := Closes
  frame_refl _ _ _ _ _ _ h := h
  frame_trans h h' tenant hL cutoff id hblocks := h tenant hL cutoff id (h' tenant hL cutoff id hblocks)
  frame_anti hsub h tenant hL := h tenant (hsub hL)
  apply_frame {L s s' w u u'} hlegal _ hframe hblocks happly happly' := by
    intro tenant hL cutoff id
    have hold := hblocks tenant hL cutoff id
    have hinsert : ∀ r, w = .insertRun r →
        Blocks u'.runs tenant cutoff id → Blocks u.runs tenant cutoff id := by
      rintro r rfl
      obtain ⟨_, hins, rfl⟩ := apply_insertRun happly
      obtain ⟨_, hins', rfl⟩ := apply_insertRun happly'
      rw [blocks_insert hins, blocks_insert hins']
      exact Or.imp_right hold
    have hupdate : ∀ id' sets, w = .updateRun id' sets →
        Blocks u'.runs tenant cutoff id → Blocks u.runs tenant cutoff id := by
      rintro id' sets rfl
      obtain ⟨r, hr⟩ := hlegal
      cases happly
      cases happly'
      rw [blocks_update hr.stored, blocks_update (hframe.runs.held hr.held hr.stored)]
      split
      · exact fun h => h
      · exact hold
    rcases (apply_change happly).runs with hsame | ⟨r, hw, -⟩ | ⟨id', sets, hw, -⟩
    · rcases (apply_change happly').runs with hsame' | ⟨r, hw, -⟩ | ⟨id', sets, hw, -⟩
      · rw [hsame, hsame']
        exact hold
      · exact hinsert r hw
      · exact hupdate id' sets hw
    · exact hinsert r hw
    · exact hupdate id' sets hw
  legal_apart {L L' s w u} hlegal hcloses _ hended happly hapart := by
    intro tenant hL cutoff id hblocks
    rcases (apply_change happly).runs with hsame | ⟨r, rfl, hins⟩ | ⟨id', sets, rfl, hupd⟩
    · rwa [hsame] at hblocks
    · rcases (blocks_insert hins).mp hblocks with ⟨-, htenant, -⟩ | hold
      · have hroom := hlegal.room .active (by rw [hcloses.1]; decide)
        have hheld : ScopeHeld L (tenantScope tenant) := by
          have := (hroom (.tenant r.clientId) (by simp [scopes])).1
          rwa [htenant] at this
        exact absurd hL (hapart.not_mem hheld)
      · exact hold
    · obtain ⟨r, hr⟩ := hlegal
      rw [hupd, blocks_update hr.stored] at hblocks
      split at hblocks
      · rename_i hid
        refine ⟨r, hid ▸ hr.stored, hblocks.1, ?_⟩
        cases hdone : r.completedAt with
        | none => exact blocksErasure_of_none hdone
        | some at_ =>
          have hkept := (completedAt_kept hended hr hcloses (by rw [hdone]; rfl)).2
          rw [← blocksErasure_congr hkept]
          exact hblocks.2
      · exact hblocks
  legal_inv {L s w u} hlegal hcloses hended happly := by
    intro id r' hget hsome
    rcases (apply_change happly).runs with hsame | ⟨r, rfl, hins⟩ | ⟨id', sets, rfl, hupd⟩
    · rw [hsame] at hget
      exact hended id r' hget hsome
    · rw [get?_insert hins] at hget
      split at hget
      · cases hget
        rw [hcloses.2] at hsome
        cases hsome
      · exact hended id r' hget hsome
    · obtain ⟨r, hr⟩ := hlegal
      rw [hupd, get?_update] at hget
      split at hget
      · rename_i hid
        rw [hid, hr.stored] at hget
        cases hget
        cases hdone : r.completedAt with
        | some at_ =>
          have hdone' : r.completedAt.isSome = true := by rw [hdone]; rfl
          rw [executionStatus_assignAll (completedAt_kept hended hr hcloses hdone').1]
          exact hended id' r hr.stored hdone'
        | none =>
          rcases hcloses with hopen | ⟨-, hterminal⟩
          · rw [completedAt_assignAll hopen, hdone] at hsome
            cases hsome
          · exact hterminal r
      · exact hended id r' hget hsome

end Completions

/-! ### The key registry -/

variable {row : TenantKey}

section Registry

variable {s u : KeyStore}

/-- What a write to the registry takes. -/
def keyTaken : KeyWrite → List (Hold Resource)
  | .insertKey row => [(.key (.tenantKey row.tenantId), .exclusive)]
  | .updateKey tenantId _ => [(.lock (.tenantKey tenantId), .exclusive)]
  | .insertAudit _ => []

/-- The row holds a key of its tenant, or its key was destroyed. -/
def KeyRow (W : KeyWrapper) (tenantId : String) (row : TenantKey) : Prop :=
  (∃ dek, openRow W tenantId row = .ok dek) ∨ (row.wrappedDek = none ∧ row.destroyedAt.isSome = true)

/-- What the holder of `L` may write to the registry: a new key, the time of the last use of a key
that was not destroyed, and its destruction. -/
def LegalKey (W : KeyWrapper) (L : List (Hold Resource)) (s : KeyStore) : KeyWrite → Prop
  | .insertKey row =>
    ScopeHeld L (tenantScope row.tenantId) ∧ ∃ dek, openRow W row.tenantId row = .ok dek
  | .updateKey tenantId sets =>
    ScopeHeld L (tenantScope tenantId)
      ∧ (∃ row, s.keys.get? tenantId = some row ∧ row.destroyedAt = none)
      ∧ ((∃ now, sets = [.lastEncryptedAt now])
        ∨ ∃ now, sets = [.wrappedDek none, .destroyedAt (some now)])
  | .insertAudit _ => True

theorem apply_insertKey (h : Writes.apply (KeyWrite.insertKey row) s = .ok u) :
    fitsVarchar128 row.tenantId = true ∧ ∃ keys, s.keys.insert? row = some keys
      ∧ u = { s with keys } := by
  simp only [Writes.apply, KeyWrite.apply] at h
  split_ifs at h with hfits
  split at h
  · rename_i keys hins
    cases h
    exact ⟨hfits, keys, hins, rfl⟩
  · cases h

theorem apply_insertKey_some {keys : Table TenantKey} (hfits : fitsVarchar128 row.tenantId = true)
    (hins : s.keys.insert? row = some keys) :
    Writes.apply (KeyWrite.insertKey row) s = .ok { s with keys } := by
  simp only [Writes.apply, KeyWrite.apply, hfits, if_true, hins]

/-- A row that can be opened was not destroyed. -/
theorem destroyedAt_of_openRow {W : KeyWrapper} {tenantId : String} {dek : Bytes}
    (h : openRow W tenantId row = .ok dek) : row.destroyedAt = none := by
  unfold openRow at h
  split at h
  · assumption
  · cases h

/-- **The rules of the registry.** The row of a tenant changes only under the tenant's lock. -/
def keyDiscipline (W : KeyWrapper) : Discipline KeyStore KeyWrite Resource where
  Inv s := ∀ tenantId row, s.keys.get? tenantId = some row → KeyRow W tenantId row
  Frame L s s' := HeldRows tenantScope L s.keys s'.keys
  Legal := LegalKey W
  Asks _ _ _ _ := True
  frame_refl _ _ _ _ := rfl
  frame_trans h h' k hk := (h' k hk).trans (h k hk)
  frame_anti hsub h k hk := h k (hsub hk)
  legal_mono {L L' s w} hsub h := by
    cases w with
    | insertKey row => exact ⟨hsub h.1, h.2⟩
    | updateKey tenantId sets => exact ⟨hsub h.1, h.2⟩
    | insertAudit event => trivial
  legal_frame {L s s' w} h hframe := by
    cases w with
    | insertKey row => exact h
    | updateKey tenantId sets =>
      obtain ⟨hheld, ⟨row, hrow, hlive⟩, hsets⟩ := h
      exact ⟨hheld, ⟨row, (hframe tenantId hheld).trans hrow, hlive⟩, hsets⟩
    | insertAudit event => trivial
  apply_frame {L s s' w u} h _ _ hframe happly := by
    cases w with
    | insertKey row =>
      obtain ⟨hfits, keys, hins, rfl⟩ := apply_insertKey happly
      obtain ⟨keys', hins', hkeys⟩ :=
        hframe.insert (fun _ _ hcl => of_decide_eq_true hcl) h.1 hins
      exact ⟨_, apply_insertKey_some hfits hins', hkeys⟩
    | updateKey tenantId sets =>
      cases happly
      exact ⟨_, rfl, hframe.update tenantId _ (assignAll_keeps KeySet.ident_assign sets)⟩
    | insertAudit event =>
      cases happly
      exact ⟨_, rfl, hframe⟩
  legal_apart {L L' s w u} h _ happly hapart := by
    cases w with
    | insertKey row =>
      obtain ⟨-, keys, hins, rfl⟩ := apply_insertKey happly
      exact HeldRows.insert_apart h.1 hapart hins
    | updateKey tenantId sets =>
      cases happly
      exact HeldRows.update_apart h.1 hapart _ (assignAll_keeps KeySet.ident_assign sets)
    | insertAudit event =>
      cases happly
      exact fun _ _ => rfl
  legal_inv {L s w u} h hinv happly := by
    intro tenantId row hget
    cases w with
    | insertKey new =>
      obtain ⟨-, keys, hins, rfl⟩ := apply_insertKey happly
      rw [get?_insert hins] at hget
      split at hget
      · rename_i hid
        cases hget
        cases hid
        exact .inl h.2
      · exact hinv tenantId row hget
    | updateKey tenantId' sets =>
      cases happly
      rw [get?_update] at hget
      split at hget
      · obtain ⟨old, hold, rfl⟩ := Option.map_eq_some_iff.mp hget
        rcases h.2.2 with ⟨now, rfl⟩ | ⟨now, rfl⟩
        · exact hinv tenantId old hold
        · exact .inr ⟨rfl, rfl⟩
      · exact hinv tenantId row hget
    | insertAudit event =>
      cases happly
      exact hinv tenantId row hget

end Registry

/-! ### All operations -/

/-- An operation on a tenant key, or one of the services. -/
inductive VaultOp where
  | service (input : Input)
  | encrypt (call : KeyCall) (tenantId : String) (runId : Uuid) (field : String) (value : Json)
  | decrypt (call : KeyCall) (tenantId : String) (runId : Uuid) (field : String)
      (envelope : JsonObject)
  | protectPolicy (call : KeyCall) (tenantId : String) (runId : Uuid) (policy : JsonObject)
  | eraseTenantKey (call : KeyCall) (tenantId principalId : String) (dryRun : Bool)
      (confirmTenant : Option String) (cutoff : Option Timestamp)

/-- What an operation returns. -/
inductive VaultAnswer where
  | service (answer : Answer)
  | envelope (envelope : JsonObject)
  | value (value : Json)
  | policy (policy : JsonObject)
  | erased (erased : Bool)

/-- A request over all tables. -/
abbrev VaultRequest (α : Type) := Request Vault VaultWrite Lock PyError α

/-- The locking of the database with the key registry. -/
def vaultLocking : Locking VaultWrite Lock Resource := locking.prod keyTaken

/-- The rules for all tables. -/
def vaultDiscipline (W : KeyWrapper) : Discipline Vault VaultWrite Resource :=
  ((storeDiscipline none).supplement completions).prod (keyDiscipline W)

section Operations

variable [Externals] [IdealAead] [FloatRepr] (W : KeyWrapper)

/-- The request of an operation. -/
def vaultRequest : VaultOp → VaultRequest VaultAnswer
  | .service input => (request input).left.map .service
  | .encrypt c tenantId runId field value =>
    (encrypt W c tenantId runId field value).toRequest.map .envelope
  | .decrypt c tenantId runId field envelope =>
    (decrypt W c tenantId runId field envelope).toRequest.map .value
  | .protectPolicy c tenantId runId policy =>
    (protectPolicy W c tenantId runId policy).toRequest.map .policy
  | .eraseTenantKey c tenantId principalId dryRun confirmTenant cutoff =>
    (eraseTenantKey c tenantId principalId dryRun confirmTenant cutoff).toRequest.map .erased

/-- The machine of all processes, with one wrapping key. -/
abbrev vaultSystem :
    Machine (Config VaultOp Vault VaultWrite Lock PyError VaultAnswer Resource) (Event VaultOp)
      Unit :=
  interleaving (vaultRequest W) vaultLocking (Store.empty, KeyStore.empty)

end Operations

/-! ### What the operations leave -/

/-- The update that records the use of a key. -/
def touchKey (c : KeyCall) (tenantId : String) : VaultWrite :=
  .inr (.updateKey tenantId [.lastEncryptedAt c.now])

/-- The update that destroys a key. -/
def destroysKey (c : KeyCall) (tenantId : String) : VaultWrite :=
  .inr (.updateKey tenantId [.wrappedDek none, .destroyedAt (some c.now)])

/-- The key was loaded: it is the one in the tenant's row, which is new or was touched if it was
loaded to encrypt with. -/
structure Loaded (W : KeyWrapper) (c : KeyCall) (tenantId : String) (create : Bool) (key : Bytes)
    (L : List (Hold Resource)) (ws : List VaultWrite) (v : Vault) : Prop where
  held : ScopeHeld L (tenantScope tenantId)
  row : ∃ row, v.2.keys.get? tenantId = some row ∧ openRow W tenantId row = .ok key
  writes : if create then
      ws = [touchKey c tenantId]
        ∨ ws = [.inr (.insertKey (newKey W c tenantId)), touchKey c tenantId]
    else ws = []

section Posts

variable {W : KeyWrapper} {c : KeyCall} {t : String} {L : List (Hold Resource)}
  {ws : List VaultWrite} {v v' : Vault} {create : Bool} {key : Bytes}

theorem Loaded.frame (h : Loaded W c t create key L ws v)
    (hframe : (vaultDiscipline W).Frame L v v') : Loaded W c t create key L ws v' := by
  obtain ⟨row, hget, hopen⟩ := h.row
  exact ⟨h.held, ⟨row, (hframe.2 t h.held).trans hget, hopen⟩, h.writes⟩

/-- A key that is used for writing is touched. -/
theorem useKey_obeys (hheld : ScopeHeld L (tenantScope t)) (hget : v.2.keys.get? t = some row)
    (hopen : openRow W t row = .ok key)
    (hws : ws = [] ∨ create = true ∧ ws = [.inr (.insertKey (newKey W c t))]) :
    Obeys vaultLocking (vaultDiscipline W) (Loaded W c t create)
      (if create then (execKey (.updateKey t [.lastEncryptedAt c.now])).bind fun _ => .done key
        else .done key) L ws v := by
  cases create with
  | false =>
    obtain rfl : ws = [] := by simpa using hws
    intro v' hframe
    exact ⟨hheld, ⟨row, (hframe.2 t hheld).trans hget, hopen⟩, rfl⟩
  | true =>
    intro v' hframe
    have hget' : v'.2.keys.get? t = some row := (hframe.2 t hheld).trans hget
    refine ⟨fun _ _ => trivial, fun u hu => ⟨?_, ?_⟩⟩
    · exact ⟨List.mem_append_right _ hheld, ⟨row, hget', destroyedAt_of_openRow hopen⟩,
        .inl ⟨c.now, rfl⟩⟩
    · obtain ⟨hw, -⟩ := apply_inr_ok.mp hu
      have hrow : u.2.keys.get? t = some { row with lastEncryptedAt := c.now } := by
        rw [← Except.ok.inj hw, get?_update, if_pos rfl, hget']
        rfl
      have hloaded : Loaded W c t true key
          (vaultLocking.write (touchKey c t) ++ L) (ws ++ [touchKey c t]) u := by
        refine ⟨List.mem_append_right _ hheld, ⟨_, hrow, hopen⟩, ?_⟩
        rcases hws with rfl | ⟨-, rfl⟩
        · exact .inl rfl
        · exact .inr rfl
      exact fun v'' hframe' => hloaded.frame hframe'

theorem scopeHeld_keyLocks (t : String) :
    ScopeHeld [(vaultLocking.lock (.tenantKey t), .exclusive),
      (vaultLocking.lock (.advisory (tenantScope t)), .exclusive)] (tenantScope t) := by
  simp [vaultLocking, Locking.prod, locking]

/-- **Loading a key.** -/
theorem loadKey_obeys (create : Bool) :
    Obeys vaultLocking (vaultDiscipline W) (Loaded W c t create) (loadKey W c t create) [] [] v := by
  intro v1 _
  refine ⟨trivial, fun v2 _ => ⟨trivial, fun v3 _ => ?_⟩⟩
  have hheld := scopeHeld_keyLocks t
  show Obeys vaultLocking (vaultDiscipline W) (Loaded W c t create)
    ((findOrCreate W c t create (v3.2.keys.get? t)).bind fun row =>
      (Tx.ofExcept (openRow W t row)).bind fun key =>
        if create then (execKey (.updateKey t [.lastEncryptedAt c.now])).bind fun _ => .done key
        else .done key) _ [] v3
  cases hfound : v3.2.keys.get? t with
  | some row => exact obeys_ofExcept fun key hopen => useKey_obeys hheld hfound hopen (.inl rfl)
  | none =>
    cases create with
    | false => trivial
    | true =>
      intro v4 _
      refine ⟨fun _ _ => trivial, fun u hu => ⟨?_, ?_⟩⟩
      · refine ⟨List.mem_append_right _ hheld, c.dek.val, ?_⟩
        exact liveKey_newKey.openRow
      · obtain ⟨hw, -⟩ := apply_inr_ok.mp hu
        obtain ⟨-, keys, hins, hkeys⟩ := apply_insertKey hw
        have hget : u.2.keys.get? t = some (newKey W c t) := by
          rw [hkeys, get?_insert hins]
          exact if_pos rfl
        refine obeys_ofExcept fun key hopen => ?_
        exact useKey_obeys (List.mem_append_right _ hheld) hget hopen (.inr ⟨rfl, rfl⟩)

/-- What a computation returns is left to the commit. -/
theorem ofExcept_obeys {α : Type} {x : Except PyError α}
    {Q : α → List (Hold Resource) → List VaultWrite → Vault → Prop}
    (h : ∀ a, x = .ok a → ∀ v', (vaultDiscipline W).Frame L v v' → Q a L ws v') :
    Obeys vaultLocking (vaultDiscipline W) Q (Tx.ofExcept x) L ws v := by
  cases x with
  | error e => trivial
  | ok a => exact h a rfl

variable [IdealAead] {r : Uuid} {f : String} {plaintext : Except PyError Bytes}

/-- The envelope was sealed with the key in the tenant's row. -/
structure Sealed (W : KeyWrapper) (c : KeyCall) (tenantId : String) (runId : Uuid) (field : String)
    (plaintext : Except PyError Bytes) (envelope : JsonObject) (ws : List VaultWrite) (v : Vault) :
    Prop where
  writes : ws = [touchKey c tenantId]
    ∨ ws = [.inr (.insertKey (newKey W c tenantId)), touchKey c tenantId]
  key : ∃ dek row, v.2.keys.get? tenantId = some row ∧ openRow W tenantId row = .ok dek
    ∧ sealEnvelope dek c.nonce tenantId runId field plaintext = .ok envelope

theorem encryptText_obeys :
    Obeys vaultLocking (vaultDiscipline W)
      (fun envelope L ws v => ScopeHeld L (tenantScope t) ∧ Sealed W c t r f plaintext envelope ws v)
      (encryptText W c t r f plaintext) [] [] v := by
  refine (loadKey_obeys true).bind fun key L ws v hloaded => ofExcept_obeys ?_
  intro envelope hseal v' hframe
  obtain ⟨hheld, ⟨row, hget, hopen⟩, hwrites⟩ := hloaded.frame hframe
  exact ⟨hheld, hwrites, key, row, hget, hopen, hseal⟩

/-- Decryption writes nothing. -/
theorem decrypt_obeys [FloatRepr] {envelope : JsonObject} :
    Obeys vaultLocking (vaultDiscipline W) (fun _ _ ws _ => ws = [])
      (decrypt W c t r f envelope) [] [] v := by
  unfold decrypt
  split
  · trivial
  · refine (loadKey_obeys false).bind fun key L ws v hloaded => ofExcept_obeys ?_
    exact fun _ _ _ _ => hloaded.writes

/-- The policy is returned as it is, or with its instructions sealed. -/
def Protected (W : KeyWrapper) (c : KeyCall) (tenantId : String) (runId : Uuid)
    (policy result : JsonObject) (ws : List VaultWrite) (v : Vault) : Prop :=
  (JsonObject.get? policy "instructions" = none ∧ ws = [])
    ∨ ∃ instructions envelope, JsonObject.get? policy "instructions" = some instructions
      ∧ result = JsonObject.set (withoutKey policy "instructions") "_encrypted_instructions"
          (.obj envelope)
      ∧ Sealed W c tenantId runId "instructions" (plaintextOf instructions) envelope ws v

theorem protectPolicy_obeys {policy : JsonObject} :
    Obeys vaultLocking (vaultDiscipline W) (fun result _ => Protected W c t r policy result)
      (protectPolicy W c t r policy) [] [] v := by
  unfold protectPolicy protectPolicyText
  split
  · trivial
  · split
    · rename_i hnone
      exact fun v' _ => .inl ⟨hnone, rfl⟩
    · rename_i instructions hsome
      refine encryptText_obeys.bind fun envelope L ws v hsealed v' hframe => .inr ?_
      obtain ⟨hheld, hwrites, dek, row, hget, hopen, hseal⟩ := hsealed
      refine ⟨instructions, envelope, hsome, rfl, hwrites, dek, row, ?_, hopen, hseal⟩
      exact (hframe.2 t hheld).trans hget

/-! #### Erasure -/

/-- The key was destroyed, nothing stands in the way, and there is a record of it. -/
structure Erased (c : KeyCall) (tenantId principalId : String) (cutoff : Option Timestamp)
    (ws : List VaultWrite) (v : Vault) : Prop where
  writes : ws = [destroysKey c tenantId, .inr (.insertAudit (erasureRecord c tenantId principalId))]
  row : ∃ row, v.2.keys.get? tenantId = some row ∧ row.wrappedDek = none
    ∧ row.destroyedAt = some c.now ∧ ∀ limit ∈ cutoff, row.lastEncryptedAt ≤ limit
  free : hasBlockingRun tenantId cutoff v.1 = false

omit [IdealAead] in
/-- Who holds the tenant's lock finds nothing new in the way. -/
theorem hasBlockingRun_frame {cutoff : Option Timestamp} (hheld : ScopeHeld L (tenantScope t))
    (h : hasBlockingRun t cutoff v.1 = false) (hframe : (vaultDiscipline W).Frame L v v') :
    hasBlockingRun t cutoff v'.1 = false :=
  hasBlockingRun_eq_false.mpr fun id hblocks =>
    hasBlockingRun_eq_false.mp h id (hframe.1.2 t hheld cutoff id hblocks)

variable {principal : String} {cutoff : Option Timestamp} {dryRun : Bool} {row : TenantKey}

omit [IdealAead] in
/-- **Destroying a key** under the tenant's lock. -/
theorem destroyKey_obeys (hheld : ScopeHeld L (tenantScope t))
    (hget : v.2.keys.get? t = some row) (hlive : row.destroyedAt = none)
    (hcutoff : ∀ limit ∈ cutoff, row.lastEncryptedAt ≤ limit)
    (hfree : hasBlockingRun t cutoff v.1 = false) :
    Obeys vaultLocking (vaultDiscipline W)
      (fun erased _ ws v => erased = true ∧ Erased c t principal cutoff ws v)
      (destroyKey c t principal) L [] v := by
  intro v1 hframe1
  have hget1 : v1.2.keys.get? t = some row := (hframe1.2 t hheld).trans hget
  refine ⟨fun _ _ => trivial, fun u hu => ⟨?_, ?_⟩⟩
  · exact ⟨List.mem_append_right _ hheld, ⟨row, hget1, hlive⟩, .inr ⟨c.now, rfl⟩⟩
  · obtain ⟨hw, hstore⟩ := apply_inr_ok.mp hu
    have hrow : u.2.keys.get? t
        = some { row with wrappedDek := none, destroyedAt := some c.now } := by
      rw [← Except.ok.inj hw, get?_update, if_pos rfl, hget1]
      rfl
    have hfree1 : hasBlockingRun t cutoff u.1 = false := by
      rw [hstore]
      exact hasBlockingRun_frame hheld hfree hframe1
    intro v2 hframe2
    have hheld2 : ScopeHeld (vaultLocking.write (destroysKey c t) ++ L) (tenantScope t) :=
      List.mem_append_right _ hheld
    refine ⟨fun _ _ => trivial, fun u' hu' => ⟨trivial, fun v3 hframe3 => ⟨rfl, rfl, ?_, ?_⟩⟩⟩
    all_goals obtain ⟨hw', hstore'⟩ := apply_inr_ok.mp hu'
    · refine ⟨{ row with wrappedDek := none, destroyedAt := some c.now }, ?_, rfl, rfl, hcutoff⟩
      rw [hframe3.2 t hheld2, ← Except.ok.inj hw']
      exact (hframe2.2 t hheld2).trans hrow
    · refine hasBlockingRun_frame (v := u') hheld2 ?_ hframe3
      rw [hstore']
      exact hasBlockingRun_frame hheld2 hfree1 hframe2

/-- What an erasure leaves: a destroyed key if it was no dry run and nothing was in the way. -/
def ErasePost (c : KeyCall) (tenantId principalId : String) (dryRun : Bool)
    (cutoff : Option Timestamp) (erased : Bool) (ws : List VaultWrite) (v : Vault) : Prop :=
  (erased = true ∧ dryRun = false ∧ Erased c tenantId principalId cutoff ws v)
    ∨ ((erased = true → dryRun = true) ∧ ws = [])

variable {confirm : Option String}

omit [IdealAead] in
theorem eraseLive_obeys (hheld : ScopeHeld L (tenantScope t)) (hget : v.2.keys.get? t = some row)
    (hlive : row.destroyedAt = none) :
    Obeys vaultLocking (vaultDiscipline W)
      (fun erased _ => ErasePost c t principal dryRun cutoff erased)
      (eraseLive c t principal dryRun confirm cutoff row) L [] v := by
  have hno : ∀ v', ErasePost c t principal dryRun cutoff false [] v' := fun v' =>
    .inr ⟨fun h => absurd h Bool.false_ne_true, rfl⟩
  unfold eraseLive
  split
  · exact fun v' _ => hno v'
  · rename_i hcutoff
    have hlast : ∀ limit ∈ cutoff, row.lastEncryptedAt ≤ limit := by
      intro limit hlimit
      rw [Option.mem_def.mp hlimit] at hcutoff
      simpa using hcutoff
    intro v1 hframe1
    have hget1 : v1.2.keys.get? t = some row := (hframe1.2 t hheld).trans hget
    show Obeys vaultLocking (vaultDiscipline W) _
      (if hasBlockingRun t cutoff v1.1 = true then .done false
        else if dryRun = true then .done true
        else if confirm ≠ some t then
          .raise (.valueError "Explicit tenant confirmation is required")
        else destroyKey c t principal) L [] v1
    split_ifs with hblocked hdry hconfirm
    · exact fun v' _ => hno v'
    · exact fun v' _ => .inr ⟨fun _ => hdry, rfl⟩
    · trivial
    · refine (destroyKey_obeys hheld hget1 hlive hlast (by simpa using hblocked)).mono ?_
      rintro erased _ ws v' ⟨rfl, herased⟩
      exact .inl ⟨rfl, by simpa using hdry, herased⟩

omit [IdealAead] in
/-- **Erasure.** -/
theorem eraseTenantKey_obeys :
    Obeys vaultLocking (vaultDiscipline W)
      (fun erased _ => ErasePost c t principal dryRun cutoff erased)
      (eraseTenantKey c t principal dryRun confirm cutoff) [] [] v := by
  have hno : ∀ v', ErasePost c t principal dryRun cutoff false [] v' := fun v' =>
    .inr ⟨fun h => absurd h Bool.false_ne_true, rfl⟩
  intro v1 _
  refine ⟨trivial, fun v2 _ => ⟨trivial, fun v3 _ => ?_⟩⟩
  have hheld := scopeHeld_keyLocks t
  cases hfound : v3.2.keys.get? t with
  | none =>
    simp only [Tx.bind, hfound]
    exact fun v' _ => hno v'
  | some row =>
    simp only [Tx.bind, hfound]
    split
    · exact fun v' _ => hno v'
    · rename_i hlive
      exact eraseLive_obeys hheld hfound (by simpa using hlive)

end Posts

/-! ### Every operation obeys -/

section Requests

variable [Externals]

variable [IdealAead]

/-- What an operation has written and returned when it commits in `v`. -/
def VaultPost (W : KeyWrapper) (op : VaultOp) (answer : VaultAnswer) (_ : List (Hold Resource))
    (ws : List VaultWrite) (v : Vault) : Prop :=
  match op with
  | .service _ => ∃ services : List Write, ws = services.map .inl
  | .encrypt c tenantId runId field value =>
    ∃ envelope, answer = .envelope envelope
      ∧ Sealed W c tenantId runId field (plaintextOf value) envelope ws v
  | .decrypt _ _ _ _ _ => ws = []
  | .protectPolicy c tenantId runId policy =>
    ∃ result, answer = .policy result ∧ Protected W c tenantId runId policy result ws v
  | .eraseTenantKey c tenantId principalId dryRun _ cutoff =>
    ∃ erased, answer = .erased erased
      ∧ ErasePost c tenantId principalId dryRun cutoff erased ws v

variable [FloatRepr] (W : KeyWrapper)

/-- **Every operation obeys.** -/
theorem vaultRequest_obeys (op : VaultOp) :
    (vaultRequest W op).Obeys vaultLocking (vaultDiscipline W) (VaultPost W op) := by
  cases op with
  | service i =>
    have hplain : (request i).Obeys locking (storeDiscipline none) (Post i) :=
      request_obeys i (by simp)
    have hservice : (request i).Obeys locking ((storeDiscipline none).supplement completions)
      (Post i) := hplain.supplement ((request_footprint i).mono fun _ h => h.2)
    exact (hservice.left (E := keyDiscipline W)).map fun _ _ _ _ h => h.2
  | encrypt c tenantId runId field value =>
    refine Request.Obeys.map (Tx.toRequest_obeys fun v _ => encryptText_obeys) ?_
    exact fun envelope _ _ _ h => ⟨envelope, rfl, h.2⟩
  | decrypt c tenantId runId field envelope =>
    exact Request.Obeys.map (Tx.toRequest_obeys fun v _ => decrypt_obeys) fun _ _ _ _ h => h
  | protectPolicy c tenantId runId policy =>
    refine Request.Obeys.map (Tx.toRequest_obeys fun v _ => protectPolicy_obeys) ?_
    exact fun result _ _ _ h => ⟨result, rfl, h⟩
  | eraseTenantKey c tenantId principalId dryRun confirm cutoff =>
    refine Request.Obeys.map (Tx.toRequest_obeys fun v _ => eraseTenantKey_obeys) ?_
    exact fun erased _ _ _ h => ⟨erased, rfl, h⟩

end Requests

end AgentRuntime.Security
