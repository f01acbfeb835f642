import AgentRuntime.Api.Boundary
import AgentRuntime.Domain.Text
import AgentRuntime.Observability.TraceContext
import AgentRuntime.Security.Envelope

/-!
# Credentials

A credential is a generated key and a record in the registry. The record holds no key but a
verifier, which is derived from the key, a salt and the pepper of the deployment by one of two
schemes. Records leave the process as JSON and come back through Pydantic.

* `CredentialRecord`: a record whose fields have passed their patterns;
* `deriveVerifier`: the verifier of a key under a scheme;
* `issueCredential`, `issueWith_ok`: a new key with its record;
* `registryEntry`, `credentialRecord?`: a record as JSON and back;
* `IsIssued`: a record that was issued for a key, maybe disabled or given another expiry since;
* `CollisionFree`: what the two hash functions are assumed to do on the keys that occur;
* `eq_of_deriveVerifier`: under that assumption a verifier belongs to one key.
-/

namespace AgentRuntime.Security

open Lib Domain Application Api
open Observability

/-! ### Hexadecimal texts of bytes -/

/-- `bytes.hex()`. -/
def hexText (bytes : Bytes) : List Char :=
  bytes.flatMap fun b => [hexDigit (b.toNat / 16), hexDigit (b.toNat % 16)]

/-- `bytes.fromhex(text)` on an even number of digits. -/
def bytesOfHex : List Char → Bytes
  | a :: b :: rest =>
    UInt8.ofNat (16 * (hexValue? a).getD 0 + (hexValue? b).getD 0) :: bytesOfHex rest
  | _ => []

theorem bytesOfHex_hexText (bytes : Bytes) : bytesOfHex (hexText bytes) = bytes := by
  induction bytes with
  | nil => rfl
  | cons b rest ih =>
    have hb := b.toNat_lt
    have hhigh : b.toNat / 16 < 16 := by omega
    have hlow : b.toNat % 16 < 16 := by omega
    have hvalue : 16 * (b.toNat / 16) + b.toNat % 16 = b.toNat := by omega
    show UInt8.ofNat (16 * (hexValue? (hexDigit _)).getD 0 + (hexValue? (hexDigit _)).getD 0)
      :: bytesOfHex (hexText rest) = _
    rw [hexValue?_hexDigit hhigh, hexValue?_hexDigit hlow, ih]
    simp only [Option.getD_some, hvalue, UInt8.ofNat_toNat]

theorem hexText_injective : Function.Injective hexText := by
  intro a b h
  rw [← bytesOfHex_hexText a, ← bytesOfHex_hexText b, h]

theorem length_hexText (bytes : Bytes) : (hexText bytes).length = 2 * bytes.length := by
  induction bytes with
  | nil => rfl
  | cons b rest ih =>
    show (hexText rest).length + 1 + 1 = 2 * (rest.length + 1)
    omega

theorem isLowerHex_hexText (bytes : Bytes) : ∀ c ∈ hexText bytes, isLowerHex c = true := by
  have hdigit : ∀ k : Fin 16, isLowerHex (hexDigit k) = true := by decide
  intro c hc
  obtain ⟨b, -, hb⟩ := List.mem_flatMap.mp hc
  have hlt := b.toNat_lt
  rcases List.mem_cons.mp hb with rfl | hb
  · exact hdigit ⟨b.toNat / 16, by omega⟩
  · rw [List.mem_singleton.mp hb]
    exact hdigit ⟨b.toNat % 16, by omega⟩

/-! ### Records -/

/-- `SUPPORTED_SCHEMES`. -/
inductive Scheme where
  | hmacSha256V1
  | pbkdf2Sha256V1
  deriving DecidableEq, Repr

def Scheme.name : Scheme → String
  | .hmacSha256V1 => "hmac-sha256-v1"
  | .pbkdf2Sha256V1 => "pbkdf2-sha256-v1"

def schemeOfName? (name : String) : Option Scheme :=
  if name = "hmac-sha256-v1" then some .hmacSha256V1
  else if name = "pbkdf2-sha256-v1" then some .pbkdf2Sha256V1
  else none

theorem schemeOfName?_name (scheme : Scheme) : schemeOfName? scheme.name = some scheme := by
  cases scheme with
  | hmacSha256V1 => rfl
  | pbkdf2Sha256V1 => decide

/-- `[0-9a-f]{32}`. -/
def idPattern : FixedPattern Char := FixedPattern.times 32 isLowerHex

/-- The patterns of the text fields of a record. -/
def validFields (keyId principalId tenantId salt : String) : Bool :=
  idPattern.accepts keyId.toList && validClientId principalId && validClientId tenantId
    && idPattern.accepts salt.toList

/-- A record of the registry. -/
structure CredentialRecord where
  keyId : String
  principalId : String
  tenantId : String
  scheme : Scheme
  salt : String
  verifier : String
  enabled : Bool
  expiresAt : Option Timestamp
  valid : validFields keyId principalId tenantId salt = true

/-- `record.is_active()` at a time. -/
def CredentialRecord.isActive (record : CredentialRecord) (now : Timestamp) : Bool :=
  record.enabled && match record.expiresAt with
    | none => true
    | some deadline => decide (now < deadline)

/-- The record with another switch and another expiry, as an operator leaves it in the registry. -/
def CredentialRecord.edited (record : CredentialRecord) (enabled : Bool)
    (expiresAt : Option Timestamp) : CredentialRecord :=
  { record with enabled := enabled, expiresAt := expiresAt }

/-- `CredentialRecord(...)`; `none` where it raises `ValidationError`. -/
def newRecord? (keyId principalId tenantId : String) (scheme : Scheme) (salt verifier : String)
    (enabled : Bool) (expiresAt : Option Timestamp) : Option CredentialRecord :=
  if h : validFields keyId principalId tenantId salt = true then
    some ⟨keyId, principalId, tenantId, scheme, salt, verifier, enabled, expiresAt, h⟩
  else none

/-- A new record has the fields it was given. -/
theorem fields_of_newRecord? {keyId principalId tenantId salt verifier : String} {scheme : Scheme}
    {enabled : Bool} {expiresAt : Option Timestamp} {record : CredentialRecord}
    (h : newRecord? keyId principalId tenantId scheme salt verifier enabled expiresAt
      = some record) :
    record.keyId = keyId ∧ record.scheme = scheme ∧ record.salt = salt
      ∧ record.verifier = verifier := by
  unfold newRecord? at h
  split_ifs at h with hvalid
  obtain rfl := Option.some.inj h
  exact ⟨rfl, rfl, rfl, rfl⟩

/-! ### Verifiers -/

/-- The hash functions of the standard library. -/
class Hashes where
  /-- `hmac.digest(key, message, "sha256")`. -/
  hmacSha256 : Bytes → Bytes → Bytes
  /-- `hashlib.pbkdf2_hmac("sha256", password, salt, KDF_ITERATIONS)`. -/
  pbkdf2HmacSha256 : Bytes → Bytes → Bytes

section Verifiers

variable [Hashes]

/-- What the first scheme hashes. -/
def keyMessage (rawKey salt : String) : Bytes :=
  encodeText "arr-credential-hmac-v1\x00" ++ bytesOfHex salt.toList ++ [0] ++ encodeText rawKey

/-- What the second scheme hashes before it stretches. -/
def materialMessage (rawKey : String) : Bytes :=
  encodeText "arr-credential-v1\x00" ++ encodeText rawKey

/-- The input of the stretching: domain-separated HMAC keeps the deployment pepper separate from the
registry. -/
def keyMaterial (rawKey pepper : String) : Bytes :=
  Hashes.hmacSha256 (encodeText pepper) (materialMessage rawKey)

/-- The digest of a key under a scheme. -/
def digestOf (rawKey salt pepper : String) : Scheme → Bytes
  | .hmacSha256V1 => Hashes.hmacSha256 (encodeText pepper) (keyMessage rawKey salt)
  | .pbkdf2Sha256V1 =>
    Hashes.pbkdf2HmacSha256 (keyMaterial rawKey pepper) (bytesOfHex salt.toList)

/-- `derive_verifier(raw_key, salt=…, pepper=…, scheme=…)`. -/
def deriveVerifier (rawKey salt pepper : String) (scheme : Scheme) : String :=
  String.ofList (hexText (digestOf rawKey salt pepper scheme))

/-- **The assumption on the hash functions**, for the keys that occur: HMAC and PBKDF2 do not take
two of the messages to one digest, and no digest of one is a digest of the other. -/
structure CollisionFree (pepper : String) (keys : Set String) : Prop where
  hmac_inj : ∀ k ∈ keys, ∀ l ∈ keys, ∀ salt,
    Hashes.hmacSha256 (encodeText pepper) (keyMessage k salt)
        = Hashes.hmacSha256 (encodeText pepper) (keyMessage l salt) →
      keyMessage k salt = keyMessage l salt
  material_inj : ∀ k ∈ keys, ∀ l ∈ keys, keyMaterial k pepper = keyMaterial l pepper →
    materialMessage k = materialMessage l
  pbkdf2_inj : ∀ k ∈ keys, ∀ l ∈ keys, ∀ salt,
    Hashes.pbkdf2HmacSha256 (keyMaterial k pepper) salt
        = Hashes.pbkdf2HmacSha256 (keyMaterial l pepper) salt →
      keyMaterial k pepper = keyMaterial l pepper
  independent : ∀ k ∈ keys, ∀ l ∈ keys, ∀ salt salt',
    Hashes.hmacSha256 (encodeText pepper) (keyMessage k salt)
      ≠ Hashes.pbkdf2HmacSha256 (keyMaterial l pepper) salt'

theorem digestOf_eq_of_deriveVerifier {k l salt salt' pepper : String} {s s' : Scheme}
    (h : deriveVerifier k salt pepper s = deriveVerifier l salt' pepper s') :
    digestOf k salt pepper s = digestOf l salt' pepper s' := by
  have htext := congrArg String.toList h
  unfold deriveVerifier at htext
  rw [String.toList_ofList, String.toList_ofList] at htext
  exact hexText_injective htext

variable {pepper : String} {keys : Set String}

/-- **A verifier belongs to one key** under its salt and its scheme. -/
theorem eq_of_deriveVerifier (hfree : CollisionFree pepper keys) {k l salt : String}
    (hk : k ∈ keys) (hl : l ∈ keys) {scheme : Scheme}
    (h : deriveVerifier k salt pepper scheme = deriveVerifier l salt pepper scheme) : k = l := by
  have hdigest := digestOf_eq_of_deriveVerifier h
  cases scheme with
  | hmacSha256V1 =>
    have hmessage := hfree.hmac_inj k hk l hl salt hdigest
    exact encodeText_injective (List.append_cancel_left hmessage)
  | pbkdf2Sha256V1 =>
    have hmaterial := hfree.pbkdf2_inj k hk l hl _ hdigest
    have hmessage := hfree.material_inj k hk l hl hmaterial
    exact encodeText_injective (List.append_cancel_left hmessage)

/-- **A verifier belongs to one scheme**, whatever the keys and the salts. -/
theorem scheme_of_deriveVerifier (hfree : CollisionFree pepper keys) {k l salt salt' : String}
    (hk : k ∈ keys) (hl : l ∈ keys) {s s' : Scheme}
    (h : deriveVerifier k salt pepper s = deriveVerifier l salt' pepper s') : s = s' := by
  have hdigest := digestOf_eq_of_deriveVerifier h
  cases s with
  | hmacSha256V1 =>
    cases s' with
    | hmacSha256V1 => rfl
    | pbkdf2Sha256V1 => exact absurd hdigest (hfree.independent k hk l hl salt _)
  | pbkdf2Sha256V1 =>
    cases s' with
    | hmacSha256V1 => exact absurd hdigest.symm (hfree.independent l hl k hk salt' _)
    | pbkdf2Sha256V1 => rfl

end Verifiers

/-! ### Issuing -/

/-- `[A-Za-z0-9_-]`. -/
def isUrlSafe (c : Char) : Bool := c.isAlphanum || c == '_' || c == '-'

/-- `KEY_PATTERN`: `arr_([0-9a-f]{32})\.([A-Za-z0-9_-]{43})`. -/
def keyPattern : FixedPattern Char :=
  FixedPattern.literal "arr_".toList
    ++ (FixedPattern.times 32 isLowerHex
    ++ (FixedPattern.literal ['.']
    ++ FixedPattern.times 43 isUrlSafe))

/-- The first group of a match of `KEY_PATTERN`. -/
def keyIdOf (rawKey : String) : String := String.ofList (slice rawKey.toList 4 36)

/-- The character of the URL-safe alphabet. -/
def urlSafeChar (c : Char) : Char := if c = '+' then '-' else if c = '/' then '_' else c

/-- `secrets.token_urlsafe`: `base64.urlsafe_b64encode(token).rstrip(b"=")`. -/
def tokenUrlSafe (token : Bytes) : List Char :=
  ((Base64.encode token).map urlSafeChar).rdropWhile fun c => c == '='

/-- The random bytes of a credential. -/
structure KeyDraw where
  keyId : { bytes : Bytes // bytes.length = 16 }
  secret : { bytes : Bytes // bytes.length = 32 }
  salt : { bytes : Bytes // bytes.length = 16 }

/-- `f"arr_{key_id}.{secret}"`. -/
def rawKeyOf (draw : KeyDraw) : String :=
  String.ofList ("arr_".toList ++ (hexText draw.keyId.val ++ ('.' :: tokenUrlSafe draw.secret.val)))

/-- A new key and its record under a scheme: registries issued earlier carry the other one. -/
def issueWith [Hashes] (scheme : Scheme) (draw : KeyDraw) (principalId tenantId pepper : String)
    (expiresAt : Option Timestamp) : Except PyError (String × CredentialRecord) :=
  if pepper.length < 32 then
    .error (.valueError "Credential pepper must contain at least 32 characters")
  else
    let rawKey := rawKeyOf draw
    let salt := String.ofList (hexText draw.salt.val)
    match newRecord? (String.ofList (hexText draw.keyId.val)) principalId tenantId scheme salt
        (deriveVerifier rawKey salt pepper scheme) true expiresAt with
    | some record => .ok (rawKey, record)
    | none => .error (.valueError "validation error for CredentialRecord")

/-- `issue_credential(...)`. -/
def issueCredential [Hashes] : KeyDraw → String → String → String → Option Timestamp →
    Except PyError (String × CredentialRecord) :=
  issueWith .hmacSha256V1

/-- The record was issued for the key, and maybe disabled or given another expiry since. -/
def IsIssued [Hashes] (pepper rawKey : String) (record : CredentialRecord) : Prop :=
  ∃ scheme draw principalId tenantId expiresAt issued enabled deadline,
    issueWith scheme draw principalId tenantId pepper expiresAt = .ok (rawKey, issued)
      ∧ record = issued.edited enabled deadline

/-- A token of 32 bytes is 43 characters of the URL-safe alphabet. -/
theorem tokenUrlSafe_shape {token : Bytes} (h : token.length = 32) :
    (tokenUrlSafe token).length = 43 ∧ ∀ c ∈ tokenUrlSafe token, isUrlSafe c = true := by
  have hdigit : ∀ k : Fin 64, urlSafeChar (Base64.digitChar k) ≠ '='
      ∧ isUrlSafe (urlSafeChar (Base64.digitChar k)) = true := by decide +kernel
  obtain ⟨ds, hds, hlt, hlength⟩ := Base64.exists_digits_encode (show token.length % 3 = 2 by
    rw [h])
  rw [h] at hlength
  have htoken : tokenUrlSafe token = ds.map fun d => urlSafeChar (Base64.digitChar d) := by
    have hpad : ((fun c => c == '=') (urlSafeChar '=')) = true := by decide
    have hlast : ∀ hne : (ds.map fun d => urlSafeChar (Base64.digitChar d)) ≠ [],
        ¬ ((fun c : Char => c == '=')
          ((ds.map fun d => urlSafeChar (Base64.digitChar d)).getLast hne)) = true := by
      intro hne
      obtain ⟨d, hd, hchar⟩ := List.mem_map.mp (List.getLast_mem hne)
      rw [← hchar]
      simpa using (hdigit ⟨d, hlt d hd⟩).1
    unfold tokenUrlSafe
    rw [hds, List.map_append, List.map_map, List.map_singleton, List.rdropWhile_concat, if_pos hpad]
    exact List.rdropWhile_eq_self_iff.mpr hlast
  rw [htoken]
  refine ⟨by rw [List.length_map, hlength], ?_⟩
  intro c hc
  obtain ⟨d, hd, rfl⟩ := List.mem_map.mp hc
  exact (hdigit ⟨d, hlt d hd⟩).2

/-- A text of the pattern, taken apart. -/
theorem keyPattern_iff {text : List Char} :
    keyPattern.accepts text = true
      ↔ ∃ keyId secret, text = "arr_".toList ++ (keyId ++ ('.' :: secret))
        ∧ (keyId.length = 32 ∧ ∀ c ∈ keyId, isLowerHex c = true)
        ∧ (secret.length = 43 ∧ ∀ c ∈ secret, isUrlSafe c = true) := by
  unfold keyPattern
  simp only [FixedPattern.accepts_append_iff, FixedPattern.accepts_literal_iff,
    FixedPattern.accepts_times_iff]
  constructor
  · rintro ⟨_, _, rfl, rfl, keyId, _, rfl, hkey, _, secret, rfl, rfl, hsecret⟩
    exact ⟨keyId, secret, rfl, hkey, hsecret⟩
  · rintro ⟨keyId, secret, rfl, hkey, hsecret⟩
    exact ⟨_, _, rfl, rfl, keyId, _, rfl, hkey, ['.'], secret, rfl, rfl, hsecret⟩

/-- **A generated key** matches the pattern, and its first group is the id that was drawn. -/
theorem rawKeyOf_shape (draw : KeyDraw) :
    keyPattern.accepts (rawKeyOf draw).toList = true
      ∧ keyIdOf (rawKeyOf draw) = String.ofList (hexText draw.keyId.val) := by
  have hid : (hexText draw.keyId.val).length = 32 := by rw [length_hexText, draw.keyId.2]
  unfold rawKeyOf keyIdOf
  rw [String.toList_ofList]
  refine ⟨keyPattern_iff.mpr ⟨_, _, rfl, ⟨hid, isLowerHex_hexText _⟩,
    tokenUrlSafe_shape draw.secret.2⟩, ?_⟩
  congr 1
  unfold slice
  rw [List.drop_take]
  show List.take 32 (hexText draw.keyId.val ++ _) = _
  exact List.take_left' hid

/-- **What is issued**: the key matches the pattern and names its record, and the record holds the
verifier of the key. -/
theorem IsIssued.spec [Hashes] {pepper rawKey : String} {record : CredentialRecord}
    (h : IsIssued pepper rawKey record) :
    keyPattern.accepts rawKey.toList = true ∧ keyIdOf rawKey = record.keyId
      ∧ record.verifier = deriveVerifier rawKey record.salt pepper record.scheme := by
  obtain ⟨scheme, draw, principalId, tenantId, expiresAt, issued, enabled, deadline, hissued,
    rfl⟩ := h
  obtain ⟨hpattern, hid⟩ := rawKeyOf_shape draw
  unfold issueWith at hissued
  split_ifs at hissued with hpepper
  dsimp only at hissued
  split at hissued
  next fresh hfresh =>
    obtain ⟨rfl, rfl⟩ := Prod.mk.inj (Except.ok.inj hissued)
    obtain ⟨hkey, hscheme, hsalt, hverifier⟩ := fields_of_newRecord? hfresh
    show _ ∧ _ = fresh.keyId ∧ fresh.verifier = deriveVerifier _ fresh.salt pepper fresh.scheme
    rw [hkey, hscheme, hsalt, hverifier]
    exact ⟨hpattern, hid, rfl⟩
  next => cases hissued

/-- **Issuing** succeeds for every valid identity under a pepper that is long enough. -/
theorem issueWith_ok [Hashes] (scheme : Scheme) (draw : KeyDraw) (principalId tenantId : String)
    {pepper : String} (expiresAt : Option Timestamp) (hpepper : ¬ pepper.length < 32)
    (hprincipal : validClientId principalId = true) (htenant : validClientId tenantId = true) :
    ∃ record : CredentialRecord,
      issueWith scheme draw principalId tenantId pepper expiresAt = .ok (rawKeyOf draw, record)
        ∧ record.principalId = principalId ∧ record.tenantId = tenantId
        ∧ record.enabled = true ∧ record.expiresAt = expiresAt := by
  have hid : ∀ {bytes : Bytes}, bytes.length = 16 →
      idPattern.accepts (String.ofList (hexText bytes)).toList = true := by
    intro bytes hbytes
    rw [String.toList_ofList]
    exact FixedPattern.accepts_times_iff.mpr
      ⟨by rw [length_hexText, hbytes], isLowerHex_hexText bytes⟩
  have hvalid : validFields (String.ofList (hexText draw.keyId.val)) principalId tenantId
      (String.ofList (hexText draw.salt.val)) = true := by
    unfold validFields
    rw [hid draw.keyId.2, hid draw.salt.2, hprincipal, htenant]
    rfl
  unfold issueWith newRecord?
  rw [if_neg hpepper]
  dsimp only
  rw [dif_pos hvalid]
  exact ⟨_, rfl, rfl, rfl, rfl, rfl⟩

/-! ### Records as JSON -/

/-- The text of a time that `model_dump(mode="json")` writes, and what `AwareDatetime` reads. -/
class DateTimeText where
  text : Timestamp → String
  read? : Json → Option Timestamp
  read?_text : ∀ t, read? (.str (text t)) = some t

section Registry

variable [DateTimeText]

/-- The JSON of an expiry. -/
def expiryJson : Option Timestamp → Json
  | none => .null
  | some deadline => .str (DateTimeText.text deadline)

/-- `registry_entry(record)`. -/
def registryEntry (record : CredentialRecord) : JsonObject :=
  [("key_id", .str record.keyId), ("principal_id", .str record.principalId),
    ("tenant_id", .str record.tenantId), ("scheme", .str record.scheme.name),
    ("salt", .str record.salt), ("verifier", .str record.verifier),
    ("enabled", .bool record.enabled),
    ("expires_at", expiryJson record.expiresAt)]

/-- The fields of the model; any other one is forbidden. -/
def recordFields : List String :=
  ["key_id", "principal_id", "tenant_id", "scheme", "salt", "verifier", "enabled", "expires_at"]

/-- A required text field. -/
def textField? (entry : JsonObject) (name : String) : Option String :=
  match JsonObject.get? entry name with
  | some (.str text) => some text
  | _ => none

/-- The texts Pydantic reads as `True` and `False`, in any letter case. -/
def boolOfText? (text : String) : Option Bool :=
  let name := String.ofList (text.toList.map Char.toLower)
  if ["1", "on", "t", "true", "y", "yes"].contains name then some true
  else if ["0", "off", "f", "false", "n", "no"].contains name then some false
  else none

/-- The number one is `True` and the number zero `False`. -/
def boolOfNumber? (q : ℚ) : Option Bool :=
  if q = 1 then some true else if q = 0 then some false else none

/-- `enabled: bool`. -/
def enabledField? : Option Json → Option Bool
  | none => some true
  | some (.bool b) => some b
  | some (.int n) => boolOfNumber? n
  | some (.float x) => x.value?.bind boolOfNumber?
  | some (.str text) => boolOfText? text
  | some _ => none

/-- `expires_at: AwareDatetime | None`. -/
def expiryField? : Option Json → Option (Option Timestamp)
  | none => some none
  | some .null => some none
  | some value => (DateTimeText.read? value).map some

/-- `scheme: str`, with its default. -/
def schemeField? : Option Json → Option Scheme
  | none => some .hmacSha256V1
  | some (.str name) => schemeOfName? name
  | some _ => none

/-- A record as Pydantic reads it; `none` where that raises `ValidationError`. -/
def credentialRecord? : Json → Option CredentialRecord
  | .obj entry =>
    if (entry.map Prod.fst).all recordFields.contains then do
      let keyId ← textField? entry "key_id"
      let principalId ← textField? entry "principal_id"
      let tenantId ← textField? entry "tenant_id"
      let scheme ← schemeField? (JsonObject.get? entry "scheme")
      let salt ← textField? entry "salt"
      let verifier ← textField? entry "verifier"
      let enabled ← enabledField? (JsonObject.get? entry "enabled")
      let expiresAt ← expiryField? (JsonObject.get? entry "expires_at")
      newRecord? keyId principalId tenantId scheme salt verifier enabled expiresAt
    else none
  | _ => none

theorem expiryField?_expiryJson (expiresAt : Option Timestamp) :
    expiryField? (some (expiryJson expiresAt)) = some expiresAt := by
  cases expiresAt with
  | none => rfl
  | some deadline =>
    show (DateTimeText.read? (.str (DateTimeText.text deadline))).map some = _
    rw [DateTimeText.read?_text]
    rfl

/-- **An exported record** is read back. -/
theorem credentialRecord?_registryEntry (record : CredentialRecord) :
    credentialRecord? (.obj (registryEntry record)) = some record := by
  have hfields : ((registryEntry record).map Prod.fst).all recordFields.contains = true := by
    show recordFields.all recordFields.contains = true
    decide
  unfold credentialRecord?
  dsimp only
  rw [if_pos hfields]
  simp only [registryEntry, textField?, JsonObject.get?_cons, String.reduceEq, if_false, if_true,
    schemeField?, schemeOfName?_name, enabledField?, expiryField?_expiryJson, Option.bind_eq_bind,
    Option.bind_some, newRecord?, dif_pos record.valid]

/-- Everything in an exported record is text, a truth value or null. -/
theorem held_registryEntry [FloatRepr] (record : CredentialRecord) :
    Held (.obj (registryEntry record)) := by
  have hkeys : recordFields.Nodup := by decide
  have hexpiry : Held (expiryJson record.expiresAt) := by
    cases record.expiresAt with
    | none => trivial
    | some deadline => trivial
  exact ⟨hkeys, trivial, trivial, trivial, trivial, trivial, trivial, trivial, hexpiry, trivial⟩

end Registry

end AgentRuntime.Security
