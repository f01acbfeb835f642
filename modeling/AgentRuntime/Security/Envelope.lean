import AgentRuntime.Application.JsonRoundTrip
import AgentRuntime.Concurrency.System
import AgentRuntime.Lib.Aead
import AgentRuntime.Lib.Base64
import AgentRuntime.Lib.Product

/-!
# Tenant envelopes

A tenant's values are sealed with a data key (DEK) of its own. The key row holds the DEK wrapped
together with the tenant's id; the envelope of a value is bound to the tenant, the run and the field
by its associated data. The cipher is ideal; which bytes are drawn at random and what the clock
says comes with the call.

* `KeyWrapper`, `localKeyWrapper`: wrapping keys;
* `TenantKey`, `KeyStore`, `Vault`: the key registry beside the tables of the services;
* `loadKey`, `encrypt`, `decrypt`, `protectPolicy`, `eraseTenantKey`: the operations;
* `retentionCandidates`: the preview of what can be erased.
-/

namespace AgentRuntime.Security

open Lib Domain Application Database

/-! ### Bytes -/

abbrev Bytes := List UInt8

/-- `text.encode()`. -/
def encodeText (text : String) : Bytes := text.toUTF8.data.toList

theorem encodeText_injective : Function.Injective encodeText := by
  intro s t h
  have hdata : s.toUTF8.data = t.toUTF8.data := Array.toList_inj.mp h
  exact String.toByteArray_inj.mp (ByteArray.ext hdata)

/-- `bytes.decode()`. -/
def decodeText (bytes : Bytes) : Except PyError String :=
  match String.fromUTF8? ⟨bytes.toArray⟩ with
  | some text => .ok text
  | none => .error .unicodeDecodeError

theorem decodeText_encodeText (text : String) : decodeText (encodeText text) = .ok text := by
  have hbytes : (⟨(encodeText text).toArray⟩ : ByteArray) = text.toUTF8 := by
    unfold encodeText
    rw [Array.toArray_toList]
  have hread : String.fromUTF8? text.toUTF8 = some text := dif_pos text.isValidUTF8
  unfold decodeText
  rw [hbytes, hread]

/-- `os.urandom(12)`. -/
abbrev Nonce := { bytes : Bytes // bytes.length = 12 }

/-- `os.urandom(32)`. -/
abbrev Dek := { bytes : Bytes // bytes.length = 32 }

/-! ### Wrapping keys -/

/-- `KeyWrapper`: what it wraps it unwraps; the nonce is the randomness of a call. -/
structure KeyWrapper where
  wrap : Nonce → Bytes → Bytes
  unwrap? : Bytes → Option Bytes
  unwrap?_wrap : ∀ nonce dek, unwrap? (wrap nonce dek) = some dek

/-- The methods of `LocalKeyWrapper`. -/
def aesWrapper [IdealAead] (key : Bytes) : KeyWrapper where
  wrap nonce dek :=
    nonce.val ++ IdealAead.encrypt key nonce.val dek (encodeText "arr-local-wrap-v1")
  unwrap? blob :=
    IdealAead.decrypt? key (blob.take 12) (blob.drop 12) (encodeText "arr-local-wrap-v1")
  unwrap?_wrap nonce dek := by
    rw [List.take_left' nonce.2, List.drop_left' nonce.2]
    exact IdealAead.decrypt?_encrypt _ _ _ _

/-- `LocalKeyWrapper(key)`. -/
def localKeyWrapper [IdealAead] (key : Bytes) : Except PyError KeyWrapper :=
  if key.length ≠ 32 then .error (.valueError "A random 256-bit wrapping key is required")
  else .ok (aesWrapper key)

/-! ### The key registry -/

/-- A row of `tenant_keys`. -/
structure TenantKey where
  tenantId : String
  wrappedDek : Option Bytes
  lastEncryptedAt : Timestamp
  destroyedAt : Option Timestamp
  deriving DecidableEq

instance : Row TenantKey String where
  Ident := String
  ident k := k.tenantId
  key := id
  clash a b := decide (a = b)
  clash_of_key _ _ h := decide_eq_true h

@[simp] theorem TenantKey.row_id (k : TenantKey) : (Row.id k : String) = k.tenantId := rfl

/-- A row of `security_audit_events`. -/
structure SecurityAuditEvent where
  id : Uuid
  createdAt : Timestamp
  eventType : String
  outcome : String
  reason : String
  clientId : Option String
  principalId : Option String
  deriving DecidableEq

/-- The key registry and the audit trail. -/
structure KeyStore where
  keys : Table TenantKey
  audit : List SecurityAuditEvent

def KeyStore.empty : KeyStore := ⟨.empty, []⟩

/-- An assignment to a column of `tenant_keys`. -/
inductive KeySet where
  | wrappedDek (v : Option Bytes)
  | lastEncryptedAt (v : Timestamp)
  | destroyedAt (v : Option Timestamp)
  deriving DecidableEq

def KeySet.assign : KeySet → TenantKey → TenantKey
  | .wrappedDek v, k => { k with wrappedDek := v }
  | .lastEncryptedAt v, k => { k with lastEncryptedAt := v }
  | .destroyedAt v, k => { k with destroyedAt := v }

theorem KeySet.ident_assign (set : KeySet) (k : TenantKey) :
    Row.ident (set.assign k) = (Row.ident k : Row.Ident TenantKey) := by
  cases set <;> rfl

/-- A write statement to the registry or the trail. -/
inductive KeyWrite where
  | insertKey (row : TenantKey)
  | updateKey (tenantId : String) (sets : List KeySet)
  | insertAudit (event : SecurityAuditEvent)

/-- Texts of a `VARCHAR(128)` column. -/
def fitsVarchar128 (text : String) : Bool := decide (text.length ≤ 128)

def KeyWrite.apply : KeyWrite → KeyStore → Except PyError KeyStore
  | .insertKey row, s =>
    if fitsVarchar128 row.tenantId then
      match s.keys.insert? row with
      | some keys => .ok { s with keys }
      | none => .error .integrityError
    else .error .dataError
  | .updateKey tenantId sets, s =>
    .ok { s with
      keys := s.keys.update tenantId (assignAll KeySet.assign sets)
        (assignAll_keeps KeySet.ident_assign sets) }
  | .insertAudit event, s => .ok { s with audit := s.audit ++ [event] }

instance : Writes KeyStore KeyWrite PyError := ⟨KeyWrite.apply⟩

/-- All tables. -/
abbrev Vault := Store × KeyStore

abbrev VaultWrite := Write ⊕ KeyWrite

/-- A transaction over all tables. -/
abbrev VaultTx (α : Type) := Tx Vault VaultWrite Lock PyError α

/-- Issue a write statement to the registry or the trail. -/
def execKey (w : KeyWrite) : VaultTx Unit := Tx.exec (.inr w)

/-! ### Binding a key to its tenant -/

/-- What stands in front of a DEK before it is wrapped. -/
def tenantMark (tenantId : String) : Bytes := encodeText tenantId ++ [0]

/-- The plaintext of a wrapped key: `tenant_id.encode() + b"\x00" + dek`. -/
def bindKey (tenantId : String) (dek : Bytes) : Bytes := tenantMark tenantId ++ dek

/-- The DEK behind the tenant's mark, if the mark and the length are right. -/
def unbindKey (tenantId : String) (raw : Bytes) : Except PyError Bytes :=
  if ¬ (tenantMark tenantId).isPrefixOf raw
      ∨ raw.length ≠ (tenantMark tenantId).length + 32 then
    .error (.keyDestroyedError "Tenant key binding is invalid")
  else .ok (raw.drop (tenantMark tenantId).length)

/-- The DEK of a key row. -/
def openRow (W : KeyWrapper) (tenantId : String) (row : TenantKey) : Except PyError Bytes :=
  match row.destroyedAt, row.wrappedDek with
  | none, some blob =>
    match W.unwrap? blob with
    | some raw => unbindKey tenantId raw
    | none => .error .invalidTag
  | _, _ => .error (.keyDestroyedError "Tenant key has been destroyed")

/-! ### Envelopes -/

/-- `"arr-envelope-v1"`. -/
def envelopeFormat : String := "arr-envelope-v1"

/-- The fields that can be sealed. -/
def encryptedFields : List String := ["input", "result", "instructions", "evaluation_result"]

/-- `_aad(tenant_id, run_id, field)`. -/
def associatedData (tenantId : String) (runId : Uuid) (field : String) : Except PyError Bytes :=
  if field ∉ encryptedFields then .error (.valueError "Unsupported encrypted field")
  else .ok (encodeText (String.ofList (defaultStyle.text
    (.arr [.str envelopeFormat, .str tenantId, .str runId.str, .str field]))))

mutual

/-- `allow_nan=False` has nothing to refuse. -/
def allFinite : Json → Bool
  | .arr xs => allFiniteItems xs
  | .obj ms => allFiniteMembers ms
  | .float (.finite _) => true
  | .float _ => false
  | _ => true

def allFiniteItems : List Json → Bool
  | [] => true
  | x :: xs => allFinite x && allFiniteItems xs

def allFiniteMembers : List (String × Json) → Bool
  | [] => true
  | m :: ms => allFinite m.2 && allFiniteMembers ms

end

/-- `json.dumps(value, separators=(",", ":"), allow_nan=False).encode()`. -/
def plaintextOf (value : Json) : Except PyError Bytes :=
  if allFinite value then .ok (encodeText (String.ofList (compactStyle.text value)))
  else .error (.valueError "Out of range float values are not JSON compliant")

/-- `{"format": …, "data": …}`. -/
def envelopeOf (data : Bytes) : JsonObject :=
  [("format", .str envelopeFormat), ("data", .str (String.ofList (Base64.encode data)))]

section Cipher

variable [IdealAead]

/-- The envelope of a plaintext. The plaintext is computed before the associated data. -/
def sealEnvelope (key : Bytes) (nonce : Nonce) (tenantId : String) (runId : Uuid) (field : String)
    (plaintext : Except PyError Bytes) : Except PyError JsonObject := do
  let plaintext ← plaintext
  let associated ← associatedData tenantId runId field
  return envelopeOf (nonce.val ++ IdealAead.encrypt key nonce.val plaintext associated)

/-- `base64.b64decode(text, validate=True)`. -/
def b64decode (text : String) : Except PyError Bytes :=
  if text.toList.any fun c => decide (127 < c.toNat) then
    .error (.valueError "string argument should contain only ASCII characters")
  else
    match Base64.decode? text.toList with
    | some bytes => .ok bytes
    | none => .error .binasciiError

/-- `envelope["data"]` as bytes. -/
def envelopeData (envelope : JsonObject) : Except PyError Bytes :=
  match JsonObject.get? envelope "data" with
  | some (.str text) => b64decode text
  | some _ => .error .typeError
  | none => .error .keyError

/-- `AESGCM(key).decrypt(nonce, ciphertext, associated)`. -/
def aesDecrypt (key nonce ciphertext associated : Bytes) : Except PyError Bytes :=
  if nonce.length < 8 then .error (.valueError "Nonce must be between 8 and 128 bytes")
  else
    match IdealAead.decrypt? key nonce ciphertext associated with
    | some plaintext => .ok plaintext
    | none => .error .invalidTag

/-- The value in an envelope. -/
def openEnvelope [FloatRepr] (key : Bytes) (tenantId : String) (runId : Uuid) (field : String)
    (envelope : JsonObject) : Except PyError Json := do
  let data ← envelopeData envelope
  let associated ← associatedData tenantId runId field
  let plaintext ← aesDecrypt key (data.take 12) (data.drop 12) associated
  let text ← decodeText plaintext
  loads text

end Cipher

/-- `envelope.get("format") == "arr-envelope-v1"`. -/
def hasFormat (envelope : JsonObject) : Bool :=
  match JsonObject.get? envelope "format" with
  | some (.str format) => format == envelopeFormat
  | _ => false

/-! ### Operations -/

/-- What a call draws at random and reads from the clock. -/
structure KeyCall where
  dek : Dek
  wrapNonce : Nonce
  nonce : Nonce
  createdAt : Timestamp
  now : Timestamp
  auditId : Uuid

/-- A call whose random bytes are all alike. -/
def plainCall (now : Timestamp) : KeyCall where
  dek := ⟨List.replicate 32 7, List.length_replicate⟩
  wrapNonce := ⟨List.replicate 12 1, List.length_replicate⟩
  nonce := ⟨List.replicate 12 2, List.length_replicate⟩
  createdAt := now
  now := now
  auditId := ⟨9⟩

/-- `_lock_tenant`. -/
def lockTenant (tenantId : String) : VaultTx Unit := Tx.acquire (.advisory (tenantScope tenantId))

/-- `session.get(TenantKey, tenant_id, with_for_update=True)`. -/
def lockedKey (tenantId : String) : VaultTx (Option TenantKey) := do
  Tx.acquire (.tenantKey tenantId)
  Tx.read fun s : Vault => s.2.keys.get? tenantId

/-- The row of a new key. -/
def newKey (W : KeyWrapper) (c : KeyCall) (tenantId : String) : TenantKey where
  tenantId := tenantId
  wrappedDek := some (W.wrap c.wrapNonce (bindKey tenantId c.dek.val))
  lastEncryptedAt := c.createdAt
  destroyedAt := none

/-- The stored row, or a new one. -/
def findOrCreate (W : KeyWrapper) (c : KeyCall) (tenantId : String) (create : Bool) :
    Option TenantKey → VaultTx TenantKey
  | some row => pure row
  | none =>
    if !create then .raise (.keyDestroyedError "Tenant key is unavailable")
    else do
      execKey (.insertKey (newKey W c tenantId))
      pure (newKey W c tenantId)

/-- `_key(session, tenant_id, create=…)`. -/
def loadKey (W : KeyWrapper) (c : KeyCall) (tenantId : String) (create : Bool) : VaultTx Bytes := do
  lockTenant tenantId
  let found ← lockedKey tenantId
  let row ← findOrCreate W c tenantId create found
  let key ← Tx.ofExcept (openRow W tenantId row)
  if create then execKey (.updateKey tenantId [.lastEncryptedAt c.now])
  pure key

/-- `encrypt` of a value whose serialization is given. -/
def encryptText [IdealAead] (W : KeyWrapper) (c : KeyCall) (tenantId : String) (runId : Uuid)
    (field : String) (plaintext : Except PyError Bytes) : VaultTx JsonObject := do
  let key ← loadKey W c tenantId true
  Tx.ofExcept (sealEnvelope key c.nonce tenantId runId field plaintext)

/-- `TenantEnvelope.encrypt`. -/
def encrypt [IdealAead] (W : KeyWrapper) (c : KeyCall) (tenantId : String) (runId : Uuid)
    (field : String) (value : Json) : VaultTx JsonObject :=
  encryptText W c tenantId runId field (plaintextOf value)

/-- `TenantEnvelope.decrypt`. -/
def decrypt [IdealAead] [FloatRepr] (W : KeyWrapper) (c : KeyCall) (tenantId : String)
    (runId : Uuid) (field : String) (envelope : JsonObject) : VaultTx Json :=
  if !hasFormat envelope then .raise (.valueError "Unsupported envelope")
  else do
    let key ← loadKey W c tenantId false
    Tx.ofExcept (openEnvelope key tenantId runId field envelope)

/-- `protected.pop(key)`. -/
def withoutKey (ms : JsonObject) (key : String) : JsonObject := ms.filter fun m => m.1 != key

/-- `protect_policy` where `json.dumps` of the instructions has the outcome `dump`. -/
def protectPolicyText [IdealAead] (W : KeyWrapper) (c : KeyCall) (tenantId : String) (runId : Uuid)
    (policy : JsonObject) (dump : Json → Except PyError Bytes) : VaultTx JsonObject :=
  if (JsonObject.get? policy "_encrypted_instructions").isSome then
    .raise (.valueError "Policy is already protected")
  else
    match JsonObject.get? policy "instructions" with
    | none => pure policy
    | some instructions => do
        let envelope ← encryptText W c tenantId runId "instructions" (dump instructions)
        pure (JsonObject.set (withoutKey policy "instructions") "_encrypted_instructions"
          (.obj envelope))

/-- `TenantEnvelope.protect_policy`. -/
def protectPolicy [IdealAead] (W : KeyWrapper) (c : KeyCall) (tenantId : String) (runId : Uuid)
    (policy : JsonObject) : VaultTx JsonObject :=
  protectPolicyText W c tenantId runId policy plaintextOf

/-! ### Retention and erasure -/

/-- `safe_text(value, limit)`. -/
def safeText (limit : ℕ) (value : Option String) : Option String :=
  value.map fun text => String.ofList ((text.toList.take limit).map fun c =>
    if 32 ≤ c.toNat ∧ c.toNat < 127 then c else '_')

/-- A run that has not ended, or has ended after the cutoff. -/
def blocksErasure (cutoff : Option Timestamp) (r : Run) : Bool :=
  match r.completedAt with
  | none => true
  | some t => cutoff.any fun c => decide (c < t)

/-- `EXISTS` a run of the tenant that stands in the way. -/
def hasBlockingRun (tenantId : String) (cutoff : Option Timestamp) (s : Store) : Bool :=
  s.runs.rows.any fun r => r.clientId == tenantId && blocksErasure cutoff r

/-- The audit record of an erasure. -/
def erasureRecord (c : KeyCall) (tenantId principalId : String) : SecurityAuditEvent where
  id := c.auditId
  createdAt := c.now
  eventType := "TENANT_KEY_ERASED"
  outcome := "ALLOWED"
  reason := "EXPLICIT_ERASURE"
  clientId := safeText 128 (some tenantId)
  principalId := safeText 128 (some principalId)

/-- The part of `erase_tenant_key` after the checks. -/
def destroyKey (c : KeyCall) (tenantId principalId : String) : VaultTx Bool := do
  execKey (.updateKey tenantId [.wrappedDek none, .destroyedAt (some c.now)])
  execKey (.insertAudit (erasureRecord c tenantId principalId))
  pure true

/-- The part of `erase_tenant_key` that has found a live row. -/
def eraseLive (c : KeyCall) (tenantId principalId : String) (dryRun : Bool)
    (confirmTenant : Option String) (cutoff : Option Timestamp) (row : TenantKey) :
    VaultTx Bool :=
  if cutoff.any fun t => decide (t < row.lastEncryptedAt) then pure false
  else do
    let blocked ← Tx.read fun s : Vault => hasBlockingRun tenantId cutoff s.1
    if blocked then pure false
    else if dryRun then pure true
    else if confirmTenant ≠ some tenantId then
      .raise (.valueError "Explicit tenant confirmation is required")
    else destroyKey c tenantId principalId

/-- `erase_tenant_key`. -/
def eraseTenantKey (c : KeyCall) (tenantId principalId : String) (dryRun : Bool)
    (confirmTenant : Option String) (cutoff : Option Timestamp) : VaultTx Bool := do
  lockTenant tenantId
  match ← lockedKey tenantId with
  | none => pure false
  | some row =>
    if row.destroyedAt.isSome then pure false
    else eraseLive c tenantId principalId dryRun confirmTenant cutoff row

/-- The `WHERE` clause of `retention_candidates`. -/
def isCandidate (cutoff : Timestamp) (s : Vault) (row : TenantKey) : Bool :=
  row.destroyedAt.isNone && decide (row.lastEncryptedAt ≤ cutoff)
    && !hasBlockingRun row.tenantId (some cutoff) s.1

/-- The selected tenants in their order. -/
def candidates (cutoff : Timestamp) (s : Vault) : List String :=
  ((s.2.keys.rows.filter (isCandidate cutoff s)).map TenantKey.tenantId).insertionSort (· ≤ ·)

/-- `retention_candidates(cutoff=…, limit=…)`. -/
def retentionCandidates (cutoff : Timestamp) (limit : ℤ) : VaultTx (List String) :=
  Tx.read fun s : Vault => (candidates cutoff s).take (max 1 (min limit 100)).toNat

end AgentRuntime.Security
