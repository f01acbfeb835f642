import AgentRuntime.Security.Credentials

/-!
# Authentication

`Settings.model_post_init` reads the registry of credentials from the environment and refuses one
that is ambiguous; `authenticate_api_key` finds the record a presented key names and compares
verifiers.

* `modelPostInit`: the checks on the settings, with the registry they leave;
* `extractRawKey`: the key in the two headers;
* `authenticateApiKey`: the verification of a key;
* `authenticate_iff`: a presented key is accepted as an identity if and only if it was issued for
  an active record of that identity in the registry.
-/

namespace AgentRuntime.Security

open Lib Domain Application Api
open Observability

/-! ### Settings -/

inductive Environment where
  | localhost
  | test
  | staging
  | production
  deriving DecidableEq

def Environment.name : Environment → String
  | .localhost => "local"
  | .test => "test"
  | .staging => "staging"
  | .production => "production"

/-- The settings that `model_post_init` looks at, as the fields have been validated. -/
structure SettingsFields where
  retryBaseDelaySeconds : ℚ
  retryMaxBackoffSeconds : ℚ
  environment : Environment
  authMode : AuthMode
  authCredentials : Option String
  authPepper : Option String
  redisScheme : String
  rabbitmqScheme : String
  allowPlaintextTransport : Bool

/-- Settings that have passed their checks. -/
structure Settings where
  fields : SettingsFields
  credentials : List CredentialRecord

/-- `[0-9a-f]{64}`. -/
def verifierPattern : FixedPattern Char := FixedPattern.times 64 isLowerHex

/-- The loop over the registry: the tenants of the principals and the key ids so far. -/
def checkRegistry (identities : String → Option String) (keyIds : List String) :
    List CredentialRecord → Except PyError Unit
  | [] => .ok ()
  | record :: records =>
    if keyIds.contains record.keyId then .error (.valueError "Duplicate credential key_id")
    else if !verifierPattern.accepts record.verifier.toList then
      .error (.valueError "Invalid credential verifier")
    else if (identities record.principalId).getD record.tenantId ≠ record.tenantId then
      .error (.valueError "A principal must be bound to exactly one tenant")
    else
      checkRegistry (Function.update identities record.principalId (some record.tenantId))
        (record.keyId :: keyIds) records

/-- `_enforce_transport_encryption()`. -/
def enforceTransportEncryption (fields : SettingsFields) : Except PyError Unit :=
  if (fields.environment ≠ .staging ∧ fields.environment ≠ .production)
      ∨ fields.allowPlaintextTransport = true then .ok ()
  else
    let insecure := (if fields.redisScheme ≠ "rediss" then ["redis_url"] else [])
      ++ if fields.rabbitmqScheme ≠ "amqps" then ["rabbitmq_url"] else []
    if insecure = [] then .ok ()
    else .error (.valueError (fields.environment.name ++ " requires TLS for "
      ++ ", ".intercalate insecure
      ++ "; use rediss:// and amqps://, or set allow_plaintext_transport"))

section Registry

variable [FloatRepr] [DateTimeText]

/-- `TypeAdapter(tuple[CredentialRecord, ...]).validate_json(text)`. -/
def credentialsOfText? (text : String) : Option (List CredentialRecord) :=
  match loads text with
  | .ok (.arr entries) => entries.mapM credentialRecord?
  | _ => none

/-- `Settings.model_post_init` at a time. -/
def modelPostInit (fields : SettingsFields) (now : Timestamp) : Except PyError Settings :=
  if fields.retryMaxBackoffSeconds < fields.retryBaseDelaySeconds then
    .error (.valueError "retry_max_backoff_seconds must be at least retry_base_delay_seconds")
  else if fields.authMode = .disabled then
    if fields.environment ≠ .localhost then
      .error (.valueError "disabled auth requires explicit environment=local")
    else .ok ⟨fields, []⟩
  else
    match fields.authCredentials, fields.authPepper with
    | some text, some pepper =>
      if pepper.length < 32 then
        .error (.valueError "auth_pepper must contain at least 32 characters")
      else
        match credentialsOfText? text with
        | none => .error (.valueError "auth_credentials must be a valid credential registry")
        | some credentials =>
          if !credentials.any fun record => record.isActive now then
            .error (.valueError "auth_credentials must contain an active credential")
          else do
            checkRegistry (fun _ => none) [] credentials
            enforceTransportEncryption fields
            .ok ⟨fields, credentials⟩
    | _, _ =>
      .error (.valueError "auth_credentials and auth_pepper are required in api_key mode")

end Registry

/-! ### Keys in headers -/

/-- `text.strip()`. -/
def stripText (text : List Char) : List Char :=
  (text.dropWhile isSpaceChar).rdropWhile isSpaceChar

/-- The stripped text, unless it is empty. -/
def nonBlank? (text : List Char) : Option String :=
  if stripText text = [] then none else some (String.ofList (stripText text))

/-- The key after the scheme Bearer: `authorization.partition(" ")`. -/
def bearerKey? (authorization : List Char) : Option String :=
  let parts := authorization.span fun c => c != ' '
  if parts.1.map Char.toLower ≠ "bearer".toList then none else nonBlank? (parts.2.drop 1)

/-- `_extract_raw_key(x_api_key=…, authorization=…)`. -/
def extractRawKey (xApiKey authorization : Option String) : Option String :=
  match xApiKey, authorization with
  | some value, _ => nonBlank? value.toList
  | none, none => none
  | none, some value => bearerKey? value.toList

/-! ### Verification -/

section Verification

variable [Externals] [Hashes]

/-- `AuthenticationResult(False, None, code)`. -/
def rejected (code : String) : AuthenticationResult := ⟨false, none, some code, none, none⟩

/-- The fingerprint of a record in the audit trail: it identifies the record and cannot be used as
a credential verifier. -/
def fingerprintOf (record : CredentialRecord) : String :=
  String.ofList ((Externals.sha256 ("arr-audit-v1:" ++ record.keyId).toUTF8).toList.take 16)

/-- The result for a key and the record it names. -/
def verifyKey (rawKey pepper : String) (record : CredentialRecord) : AuthenticationResult :=
  if deriveVerifier rawKey record.salt pepper record.scheme ≠ record.verifier then
    rejected "INVALID_CREDENTIAL"
  else ⟨true, some (fingerprintOf record), none, some record.principalId, some record.tenantId⟩

/-- `authenticate_api_key(settings=…, x_api_key=…, authorization=…)` at a time. -/
def authenticateApiKey (settings : Settings) (xApiKey authorization : Option String)
    (now : Timestamp) : Except PyError AuthenticationResult :=
  if settings.fields.authMode = .disabled then .ok ⟨true, none, none, none, none⟩
  else
    match extractRawKey xApiKey authorization with
    | none => .ok (rejected "AUTHENTICATION_REQUIRED")
    | some rawKey =>
      if !keyPattern.accepts rawKey.toList then .ok (rejected "INVALID_CREDENTIAL")
      else
        match settings.credentials.find? fun record => record.keyId == keyIdOf rawKey with
        | none => .ok (rejected "INVALID_CREDENTIAL")
        | some record =>
          if !record.isActive now then .ok (rejected "INVALID_CREDENTIAL")
          else
            match settings.fields.authPepper with
            | none => .error (.runtimeError "API-key authentication has no credential pepper")
            | some pepper => .ok (verifyKey rawKey pepper record)

end Verification

/-! ### The registry -/

variable {records : List CredentialRecord}

/-- **The loop accepts** only records with different key ids, none of them seen before, and with one
tenant for each principal, the known one if there is one. -/
theorem checkRegistry_ok {identities : String → Option String} {keyIds : List String}
    (h : checkRegistry identities keyIds records = .ok ()) :
    (records.map CredentialRecord.keyId).Nodup
      ∧ (∀ r ∈ records, r.keyId ∉ keyIds)
      ∧ (∀ r ∈ records, ∀ t, identities r.principalId = some t → t = r.tenantId)
      ∧ ∀ r ∈ records, ∀ r' ∈ records, r.principalId = r'.principalId →
        r.tenantId = r'.tenantId := by
  induction records generalizing identities keyIds with
  | nil =>
    exact ⟨List.nodup_nil, List.forall_mem_nil _, List.forall_mem_nil _, List.forall_mem_nil _⟩
  | cons record records ih =>
    unfold checkRegistry at h
    split_ifs at h with hseen hverifier htenant
    obtain ⟨hnodup, hunseen, hknown, hbound⟩ := ih h
    have hnew : record.keyId ∉ keyIds := by simpa using hseen
    -- the record's own tenant is what the later ones of its principal have to agree with
    have hown : ∀ r ∈ records, record.principalId = r.principalId →
        record.tenantId = r.tenantId := by
      intro r hr hsame
      refine hknown r hr record.tenantId ?_
      rw [← hsame, Function.update_self]
    refine ⟨?_, ?_, ?_, ?_⟩
    · rw [List.map_cons, List.nodup_cons]
      refine ⟨fun hmem => ?_, hnodup⟩
      obtain ⟨r, hr, hid⟩ := List.mem_map.mp hmem
      exact hunseen r hr (hid ▸ List.mem_cons_self)
    · refine List.forall_mem_cons.mpr ⟨hnew, fun r hr hmem => ?_⟩
      exact hunseen r hr (List.mem_cons_of_mem _ hmem)
    · refine List.forall_mem_cons.mpr ⟨?_, ?_⟩
      · intro t ht
        have hsame := not_not.mp htenant
        rw [ht] at hsame
        exact hsame
      · intro r hr t ht
        by_cases hsame : r.principalId = record.principalId
        · have hdefault := not_not.mp htenant
          rw [← hsame, ht] at hdefault
          exact hdefault.trans (hown r hr hsame.symm)
        · refine hknown r hr t ?_
          rw [Function.update_of_ne hsame]
          exact ht
    · refine List.forall_mem_cons.mpr ⟨?_, ?_⟩
      · exact List.forall_mem_cons.mpr ⟨fun _ => rfl, hown⟩
      · intro r hr
        refine List.forall_mem_cons.mpr ⟨?_, hbound r hr⟩
        intro hsame
        exact (hown r hr hsame.symm).symm

variable {record : CredentialRecord}

/-- A record is found by its id, which no other record has. -/
theorem find?_keyId (hnodup : (records.map CredentialRecord.keyId).Nodup) {keyId : String} :
    records.find? (fun r => r.keyId == keyId) = some record
      ↔ record ∈ records ∧ record.keyId = keyId := by
  constructor
  · intro h
    exact ⟨List.mem_of_find?_eq_some h, by simpa using List.find?_some h⟩
  · rintro ⟨hmem, rfl⟩
    obtain ⟨found, hfound⟩ : ∃ found, records.find? (fun r => r.keyId == record.keyId)
        = some found := by
      refine Option.isSome_iff_exists.mp (List.find?_isSome.mpr ⟨record, hmem, ?_⟩)
      exact beq_self_eq_true _
    have hid : found.keyId = record.keyId := by simpa using List.find?_some hfound
    rw [hfound, List.inj_on_of_nodup_map hnodup (List.mem_of_find?_eq_some hfound) hmem hid]

variable {now : Timestamp} {credentials : List CredentialRecord}

section Accepted

variable [FloatRepr] [DateTimeText]

/-- The registry as JSON text. -/
def registryText (style : TextStyle) (records : List CredentialRecord) : String :=
  String.ofList (style.text (.arr (records.map fun record => .obj (registryEntry record))))

/-- **An exported registry** is read back, whatever the style of the text. -/
theorem credentialsOfText?_registryText {style : TextStyle} (hstyle : style.Readable)
    (records : List CredentialRecord) :
    credentialsOfText? (registryText style records) = some records := by
  have hheld : Held (.arr (records.map fun record => .obj (registryEntry record))) := by
    refine ⟨trivial, everyItem_iff.mpr fun x hx => ?_⟩
    obtain ⟨record, -, rfl⟩ := List.mem_map.mp hx
    exact held_registryEntry record
  have hread : (records.map fun record => Json.obj (registryEntry record)).mapM credentialRecord?
      = some records := by
    induction records with
    | nil => rfl
    | cons record records ih =>
      have htail : Held (.arr (records.map fun record => .obj (registryEntry record))) :=
        ⟨trivial, everyItem_iff.mpr fun x hx =>
          everyItem_iff.mp hheld.2 x (List.mem_cons_of_mem _ hx)⟩
      rw [List.map_cons, List.mapM_cons, credentialRecord?_registryEntry, ih htail]
      rfl
  unfold credentialsOfText? registryText
  rw [loads_text hstyle hheld]
  exact hread

variable {fields : SettingsFields}

/-- What accepted settings with key authentication have passed. -/
theorem modelPostInit_ok {settings : Settings} (h : modelPostInit fields now = .ok settings)
    (hmode : fields.authMode = .apiKey) :
    settings.fields = fields
      ∧ ∃ text pepper, fields.authCredentials = some text ∧ fields.authPepper = some pepper
        ∧ credentialsOfText? text = some settings.credentials
        ∧ checkRegistry (fun _ => none) [] settings.credentials = .ok () := by
  have hkeys : ¬ AuthMode.apiKey = AuthMode.disabled := by decide
  unfold modelPostInit at h
  rw [hmode, if_neg hkeys] at h
  split_ifs at h with hbackoff
  split at h
  next text pepper htext hpepper =>
    split_ifs at h with hlength
    split at h
    next => cases h
    next credentials hcredentials =>
      split_ifs at h with hactive
      cases hcheck : checkRegistry (fun _ => none) [] credentials with
      | error e =>
        rw [hcheck] at h
        cases h
      | ok _ =>
        cases htransport : enforceTransportEncryption fields with
        | error e =>
          rw [hcheck, htransport] at h
          cases h
        | ok _ =>
          rw [hcheck, htransport] at h
          obtain rfl := Except.ok.inj h
          exact ⟨rfl, text, pepper, htext, hpepper, hcredentials, hcheck⟩
  next => cases h

/-- Settings that pass every check are accepted. -/
theorem modelPostInit_accepts {text pepper : String}
    (hbackoff : ¬ fields.retryMaxBackoffSeconds < fields.retryBaseDelaySeconds)
    (hmode : fields.authMode = .apiKey) (htext : fields.authCredentials = some text)
    (hpepper : fields.authPepper = some pepper) (hlong : ¬ pepper.length < 32)
    (hread : credentialsOfText? text = some credentials)
    (hactive : credentials.any (fun record => record.isActive now) = true)
    (hcheck : checkRegistry (fun _ => none) [] credentials = .ok ())
    (htransport : enforceTransportEncryption fields = .ok ()) :
    modelPostInit fields now = .ok ⟨fields, credentials⟩ := by
  have hkeys : ¬ AuthMode.apiKey = AuthMode.disabled := by decide
  unfold modelPostInit
  rw [if_neg hbackoff, hmode, if_neg hkeys, htext, hpepper]
  dsimp only
  rw [if_neg hlong, hread]
  dsimp only
  rw [hactive, hcheck, htransport]
  rfl

end Accepted

/-! ### Presented keys -/

/-- The text a request presents as its key: the value of `X-API-Key`, or without that header what
follows the word Bearer in `Authorization`. -/
def Presents (xApiKey authorization : Option String) (value : List Char) : Prop :=
  (∃ text, xApiKey = some text ∧ value = text.toList)
    ∨ xApiKey = none ∧ ∃ text scheme, authorization = some text
      ∧ text.toList = scheme ++ ' ' :: value ∧ scheme.map Char.toLower = "bearer".toList

variable {key : String}

theorem nonBlank?_eq_some_iff {text : List Char} :
    nonBlank? text = some key ↔ stripText text = key.toList ∧ key ≠ "" := by
  unfold nonBlank?
  by_cases hempty : stripText text = []
  · rw [if_pos hempty, hempty]
    constructor
    · intro h
      cases h
    · rintro ⟨hkey, hne⟩
      exact absurd (String.toList_eq_nil_iff.mp hkey.symm) hne
  · rw [if_neg hempty]
    constructor
    · intro h
      obtain rfl := Option.some.inj h
      rw [String.toList_ofList]
      refine ⟨rfl, fun hkey => hempty ?_⟩
      have hlist := congrArg String.toList hkey
      rwa [String.toList_ofList] at hlist
    · rintro ⟨hkey, -⟩
      rw [hkey, String.ofList_toList]

/-- The word in front of the first blank. -/
theorem span_blank {scheme rest : List Char} (h : ' ' ∉ scheme) :
    (scheme ++ ' ' :: rest).span (fun c => c != ' ') = (scheme, ' ' :: rest) := by
  have hall : ∀ c ∈ scheme, (c != ' ') = true := by
    intro c hc
    have hne : c ≠ ' ' := fun heq => h (heq ▸ hc)
    simpa using hne
  rw [List.span_eq_takeWhile_dropWhile, List.takeWhile_append_of_pos hall,
    List.dropWhile_append_of_pos hall]
  simp

/-- A bearer scheme has no blank in it. -/
theorem blank_not_mem_bearer {scheme : List Char}
    (h : scheme.map Char.toLower = "bearer".toList) : ' ' ∉ scheme := by
  intro hmem
  have hlower : Char.toLower ' ' ∈ scheme.map Char.toLower := List.mem_map_of_mem hmem
  rw [h] at hlower
  exact absurd hlower (by decide)

theorem bearerKey?_eq_some_iff {text : List Char} :
    bearerKey? text = some key
      ↔ key ≠ "" ∧ ∃ scheme value, text = scheme ++ ' ' :: value
        ∧ scheme.map Char.toLower = "bearer".toList ∧ stripText value = key.toList := by
  constructor
  · intro h
    unfold bearerKey? at h
    rw [List.span_eq_takeWhile_dropWhile] at h
    dsimp only at h
    split_ifs at h with hscheme
    obtain ⟨hkey, hne⟩ := nonBlank?_eq_some_iff.mp h
    have hjoin := List.takeWhile_append_dropWhile (p := fun c => c != ' ') (l := text)
    cases hrest : text.dropWhile fun c => c != ' ' with
    | nil =>
      rw [hrest] at hkey
      exact absurd (String.toList_eq_nil_iff.mp hkey.symm) hne
    | cons c value =>
      have hhead := List.head?_dropWhile_not (fun c => c != ' ') text
      rw [hrest] at hkey hjoin hhead
      have hblank : c = ' ' := by simpa using hhead
      rw [hblank] at hjoin
      exact ⟨hne, _, value, hjoin.symm, not_not.mp hscheme, hkey⟩
  · rintro ⟨hne, scheme, value, rfl, hscheme, hkey⟩
    unfold bearerKey?
    rw [span_blank (blank_not_mem_bearer hscheme)]
    dsimp only
    rw [if_neg (not_not_intro hscheme)]
    exact nonBlank?_eq_some_iff.mpr ⟨hkey, hne⟩

/-- **The raw key** is the presented text without the blanks around it. -/
theorem extractRawKey_eq_some_iff {xApiKey authorization : Option String} :
    extractRawKey xApiKey authorization = some key
      ↔ key ≠ "" ∧ ∃ value, Presents xApiKey authorization value
        ∧ stripText value = key.toList := by
  cases xApiKey with
  | some text =>
    show nonBlank? text.toList = some key ↔ _
    rw [nonBlank?_eq_some_iff]
    constructor
    · rintro ⟨hkey, hne⟩
      exact ⟨hne, text.toList, .inl ⟨text, rfl, rfl⟩, hkey⟩
    · rintro ⟨hne, value, ⟨text', htext, rfl⟩ | ⟨hnone, -⟩, hkey⟩
      · rw [Option.some.inj htext]
        exact ⟨hkey, hne⟩
      · cases hnone
  | none =>
    cases authorization with
    | none =>
      constructor
      · intro h
        cases h
      · rintro ⟨-, value, ⟨text, htext, -⟩ | ⟨-, text, scheme, htext, -⟩, -⟩
        · cases htext
        · cases htext
    | some text =>
      show bearerKey? text.toList = some key ↔ _
      rw [bearerKey?_eq_some_iff]
      constructor
      · rintro ⟨hne, scheme, value, htext, hscheme, hkey⟩
        exact ⟨hne, value, .inr ⟨rfl, text, scheme, rfl, htext, hscheme⟩, hkey⟩
      · rintro ⟨hne, value, ⟨text', hnone, -⟩ | ⟨-, text', scheme, htext, hvalue, hscheme⟩,
          hkey⟩
        · cases hnone
        · rw [Option.some.inj htext]
          exact ⟨hne, scheme, value, hvalue, hscheme, hkey⟩

/-! ### Authentication -/

section Authentication

variable [Externals] [Hashes] {settings : Settings} {pepper : String}

/-- The identity of a result. -/
def AcceptedAs (result : Except PyError AuthenticationResult) (principalId tenantId : String) :
    Prop :=
  ∃ answer, result = .ok answer ∧ answer.authenticated = true
    ∧ answer.principalId = some principalId ∧ answer.tenantId = some tenantId

/-- **Verification**, step by step: a key is accepted as an identity if it has the form of a key and
the record it names is active, of that identity and holds its verifier. -/
theorem acceptedAs_iff (hmode : settings.fields.authMode = .apiKey)
    (hpepper : settings.fields.authPepper = some pepper)
    (xApiKey authorization : Option String) (now : Timestamp) (principalId tenantId : String) :
    AcceptedAs (authenticateApiKey settings xApiKey authorization now) principalId tenantId
      ↔ ∃ rawKey record, extractRawKey xApiKey authorization = some rawKey
        ∧ keyPattern.accepts rawKey.toList = true
        ∧ settings.credentials.find? (fun r => r.keyId == keyIdOf rawKey) = some record
        ∧ record.isActive now = true
        ∧ deriveVerifier rawKey record.salt pepper record.scheme = record.verifier
        ∧ record.principalId = principalId ∧ record.tenantId = tenantId := by
  have hkeys : ¬ AuthMode.apiKey = AuthMode.disabled := by decide
  have hrejected : ∀ code, ¬ AcceptedAs (.ok (rejected code)) principalId tenantId := by
    rintro code ⟨answer, hanswer, hauthenticated, -⟩
    obtain rfl := Except.ok.inj hanswer
    cases hauthenticated
  unfold authenticateApiKey
  rw [hmode, if_neg hkeys, hpepper]
  constructor
  · intro h
    cases hraw : extractRawKey xApiKey authorization with
    | none =>
      rw [hraw] at h
      exact absurd h (hrejected _)
    | some rawKey =>
      rw [hraw] at h
      dsimp only at h
      by_cases hpattern : keyPattern.accepts rawKey.toList = true
      · rw [hpattern, Bool.not_true, if_neg Bool.false_ne_true] at h
        cases hfind : settings.credentials.find? fun r => r.keyId == keyIdOf rawKey with
        | none =>
          rw [hfind] at h
          exact absurd h (hrejected _)
        | some record =>
          rw [hfind] at h
          dsimp only at h
          by_cases hactive : record.isActive now = true
          · rw [hactive, Bool.not_true, if_neg Bool.false_ne_true] at h
            unfold verifyKey at h
            split_ifs at h with hverifier
            · exact absurd h (hrejected _)
            · obtain ⟨answer, hanswer, -, hprincipal, htenant⟩ := h
              obtain rfl := Except.ok.inj hanswer
              exact ⟨rawKey, record, rfl, hpattern, hfind, hactive, not_not.mp hverifier,
                Option.some.inj hprincipal, Option.some.inj htenant⟩
          · rw [Bool.not_eq_true _ |>.mp hactive, Bool.not_false, if_pos rfl] at h
            exact absurd h (hrejected _)
      · rw [Bool.not_eq_true _ |>.mp hpattern, Bool.not_false, if_pos rfl] at h
        exact absurd h (hrejected _)
  · rintro ⟨rawKey, record, hraw, hpattern, hfind, hactive, hverifier, rfl, rfl⟩
    simp only [hraw, hpattern, hfind, hactive, verifyKey, hverifier, Bool.not_true,
      Bool.false_eq_true, ne_eq, not_true_eq_false, if_false]
    exact ⟨_, rfl, rfl, rfl, rfl⟩

/-! ### The registry and its keys -/

/-- A registry whose records were issued for the keys beside them. -/
def IssuedRegistry (pepper : String) (registry : List (String × CredentialRecord)) : Prop :=
  ∀ entry ∈ registry, IsIssued pepper entry.1 entry.2

variable [FloatRepr] [DateTimeText]

/-- **Authentication.** Take any registry of issued records, in any style of JSON, that the
settings accept. At every time a request is accepted as an identity if and only if the key it
presents, without the blanks around it, was issued for a record of that identity in the registry
that is active. No request is ever accepted as two identities, one principal always has one tenant,
and no issued key verifies under the record of another key or under the other scheme. -/
theorem authenticate_iff {registry : List (String × CredentialRecord)} {keys : Set String}
    {fields : SettingsFields} {started : Timestamp} {style : TextStyle}
    (hissued : IssuedRegistry pepper registry) (hstyle : style.Readable)
    (hmode : fields.authMode = .apiKey) (hpepper : fields.authPepper = some pepper)
    (htext : fields.authCredentials = some (registryText style (registry.map Prod.snd)))
    (haccepted : modelPostInit fields started = .ok settings)
    (hfree : CollisionFree pepper keys) (hkeys : ∀ entry ∈ registry, entry.1 ∈ keys) :
    (∀ xApiKey authorization now principalId tenantId,
      (∀ rawKey, extractRawKey xApiKey authorization = some rawKey → rawKey ∈ keys) →
      (AcceptedAs (authenticateApiKey settings xApiKey authorization now) principalId tenantId
        ↔ ∃ value, Presents xApiKey authorization value ∧ ∃ entry ∈ registry,
          stripText value = entry.1.toList ∧ entry.2.isActive now = true
            ∧ entry.2.principalId = principalId ∧ entry.2.tenantId = tenantId))
    ∧ (∀ xApiKey authorization now now' p t p' t',
      AcceptedAs (authenticateApiKey settings xApiKey authorization now) p t →
      AcceptedAs (authenticateApiKey settings xApiKey authorization now') p' t' → p = p' ∧ t = t')
    ∧ (∀ xApiKey authorization now xApiKey' authorization' now' p t t',
      AcceptedAs (authenticateApiKey settings xApiKey authorization now) p t →
      AcceptedAs (authenticateApiKey settings xApiKey' authorization' now') p t' → t = t')
    ∧ (∀ entry ∈ registry, ∀ other ∈ registry, entry.2.keyId ≠ other.2.keyId →
      deriveVerifier entry.1 other.2.salt pepper other.2.scheme ≠ other.2.verifier)
    ∧ ∀ entry ∈ registry, ∀ other ∈ registry, ∀ scheme, scheme ≠ other.2.scheme →
      deriveVerifier entry.1 other.2.salt pepper scheme ≠ other.2.verifier := by
  obtain ⟨rfl, text, pepper', htext', hpepper', hread, hcheck⟩ := modelPostInit_ok haccepted hmode
  obtain rfl := Option.some.inj (hpepper.symm.trans hpepper')
  obtain rfl := Option.some.inj (htext.symm.trans htext')
  rw [credentialsOfText?_registryText hstyle] at hread
  have hcredentials : settings.credentials = registry.map Prod.snd := (Option.some.inj hread).symm
  obtain ⟨hnodup, -, -, htenants⟩ := checkRegistry_ok hcheck
  refine ⟨?_, ?_, ?_, ?_, ?_⟩
  · intro xApiKey authorization now principalId tenantId hpresented
    rw [acceptedAs_iff hmode hpepper]
    constructor
    · rintro ⟨rawKey, record, hraw, -, hfind, hactive, hverifier, hprincipal, htenant⟩
      obtain ⟨hmem, -⟩ := (find?_keyId hnodup).mp hfind
      rw [hcredentials] at hmem
      obtain ⟨entry, hentry, rfl⟩ := List.mem_map.mp hmem
      obtain ⟨-, -, hstored⟩ := (hissued entry hentry).spec
      rw [hstored] at hverifier
      obtain rfl := eq_of_deriveVerifier hfree (hpresented _ hraw) (hkeys entry hentry) hverifier
      obtain ⟨-, value, hvalue, hstrip⟩ := extractRawKey_eq_some_iff.mp hraw
      exact ⟨value, hvalue, entry, hentry, hstrip, hactive, hprincipal, htenant⟩
    · rintro ⟨value, hvalue, entry, hentry, hstrip, hactive, hprincipal, htenant⟩
      obtain ⟨hpattern, hid, hstored⟩ := (hissued entry hentry).spec
      have hne : entry.1 ≠ "" := by
        intro hempty
        rw [hempty] at hpattern
        exact absurd hpattern (by decide)
      have hmem : entry.2 ∈ settings.credentials := by
        rw [hcredentials]
        exact List.mem_map_of_mem hentry
      exact ⟨entry.1, entry.2, extractRawKey_eq_some_iff.mpr ⟨hne, value, hvalue, hstrip⟩, hpattern,
        (find?_keyId hnodup).mpr ⟨hmem, hid.symm⟩, hactive, hstored.symm, hprincipal, htenant⟩
  · intro xApiKey authorization now now' p t p' t' h h'
    obtain ⟨rawKey, record, hraw, -, hfind, -, -, rfl, rfl⟩ :=
      (acceptedAs_iff hmode hpepper _ _ _ _ _).mp h
    obtain ⟨rawKey', record', hraw', -, hfind', -, -, rfl, rfl⟩ :=
      (acceptedAs_iff hmode hpepper _ _ _ _ _).mp h'
    obtain rfl := Option.some.inj (hraw.symm.trans hraw')
    obtain rfl := Option.some.inj (hfind.symm.trans hfind')
    exact ⟨rfl, rfl⟩
  · intro xApiKey authorization now xApiKey' authorization' now' p t t' h h'
    obtain ⟨rawKey, record, -, -, hfind, -, -, hp, rfl⟩ :=
      (acceptedAs_iff hmode hpepper _ _ _ _ _).mp h
    obtain ⟨rawKey', record', -, -, hfind', -, -, hp', rfl⟩ :=
      (acceptedAs_iff hmode hpepper _ _ _ _ _).mp h'
    exact htenants record (List.mem_of_find?_eq_some hfind) record'
      (List.mem_of_find?_eq_some hfind') (hp.trans hp'.symm)
  · intro entry hentry other hother hne hverifier
    obtain ⟨-, hid, -⟩ := (hissued entry hentry).spec
    obtain ⟨-, hid', hstored⟩ := (hissued other hother).spec
    rw [hstored] at hverifier
    have hsame := eq_of_deriveVerifier hfree (hkeys entry hentry) (hkeys other hother) hverifier
    exact hne (by rw [← hid, ← hid', hsame])
  · intro entry hentry other hother scheme hne hverifier
    obtain ⟨-, -, hstored⟩ := (hissued other hother).spec
    rw [hstored] at hverifier
    exact hne (scheme_of_deriveVerifier hfree (hkeys entry hentry) (hkeys other hother) hverifier)

end Authentication

/-! ### Two issued keys -/

/-- Hash functions that keep the last bytes of what they hash, and say which of the two they are. -/
@[reducible] def tailHashes : Hashes where
  hmacSha256 _ message := 0 :: message.reverse.take 31
  pbkdf2HmacSha256 password _ := 1 :: password.tail

/-- The time of so many strokes. -/
def timeOfStrokes? : Json → Option Timestamp
  | .str text => if h : text.toList.length ≤ datetimeMax then some ⟨_, h⟩ else none
  | _ => none

theorem timeOfStrokes?_replicate (t : Timestamp) :
    timeOfStrokes? (.str (String.ofList (List.replicate t.micros '|'))) = some t := by
  have hlength : (String.ofList (List.replicate t.micros '|')).toList.length = t.micros := by
    rw [String.toList_ofList, List.length_replicate]
  have hrange : (String.ofList (List.replicate t.micros '|')).toList.length ≤ datetimeMax := by
    rw [hlength]
    exact t.inRange
  unfold timeOfStrokes?
  dsimp only
  rw [dif_pos hrange]
  exact congrArg some (Timestamp.micros_injective hlength)

/-- Times written with as many strokes as they have microseconds. -/
@[reducible] def strokeTimes : DateTimeText where
  text t := String.ofList (List.replicate t.micros '|')
  read? := timeOfStrokes?
  read?_text := timeOfStrokes?_replicate

/-- Random bytes that are all alike. -/
def sampleDraw (byte : UInt8) : KeyDraw where
  keyId := ⟨List.replicate 16 byte, List.length_replicate⟩
  secret := ⟨List.replicate 32 byte, List.length_replicate⟩
  salt := ⟨List.replicate 16 byte, List.length_replicate⟩

/-- A deployment with one registry. -/
def sampleFields (text pepper : String) : SettingsFields where
  retryBaseDelaySeconds := 1
  retryMaxBackoffSeconds := 60
  environment := .production
  authMode := .apiKey
  authCredentials := some text
  authPepper := some pepper
  redisScheme := "rediss"
  rabbitmqScheme := "amqps"
  allowPlaintextTransport := false

/-- The deployment accepts every registry that passes the checks. -/
theorem modelPostInit_sampleRegistry [FloatRepr] [DateTimeText] {pepper : String}
    (hpepper : ¬ pepper.length < 32)
    (hactive : credentials.any (fun record => record.isActive now) = true)
    (hcheck : checkRegistry (fun _ => none) [] credentials = .ok ()) :
    modelPostInit (sampleFields (registryText defaultStyle credentials) pepper) now
      = .ok ⟨sampleFields (registryText defaultStyle credentials) pepper, credentials⟩ := by
  have hbackoff : ¬ (60 : ℚ) < 1 := by decide
  have htransport : enforceTransportEncryption
      (sampleFields (registryText defaultStyle credentials) pepper) = .ok () := by
    simp [enforceTransportEncryption, sampleFields]
  exact modelPostInit_accepts hbackoff rfl rfl rfl hpepper
    (credentialsOfText?_registryText readable_defaultStyle credentials) hactive hcheck htransport

/-- The keys of two draws end in different bytes, so these hashes tell them apart. -/
theorem collisionFree_sampleDraws (pepper : String) :
    @CollisionFree tailHashes pepper
      {k | k ∈ [rawKeyOf (sampleDraw 1), rawKeyOf (sampleDraw 2)]} := by
  let _ : Hashes := tailHashes
  let keys := [rawKeyOf (sampleDraw 1), rawKeyOf (sampleDraw 2)]
  have hlength : ∀ k ∈ keys, 31 ≤ (encodeText k).reverse.length := by decide +kernel
  have hdistinct : ∀ k ∈ keys, ∀ l ∈ keys,
      (encodeText k).reverse.take 31 = (encodeText l).reverse.take 31 → k = l := by decide +kernel
  have hdigest : ∀ k ∈ keys, ∀ before : Bytes,
      Hashes.hmacSha256 (encodeText pepper) (before ++ encodeText k)
        = 0 :: (encodeText k).reverse.take 31 := by
    intro k hk before
    show 0 :: (before ++ encodeText k).reverse.take 31 = _
    rw [List.reverse_append, List.take_append_of_le_length (hlength k hk)]
  have hinj : ∀ k ∈ keys, ∀ l ∈ keys, ∀ before : Bytes,
      Hashes.hmacSha256 (encodeText pepper) (before ++ encodeText k)
        = Hashes.hmacSha256 (encodeText pepper) (before ++ encodeText l) → k = l := by
    intro k hk l hl before h
    rw [hdigest k hk, hdigest l hl] at h
    exact hdistinct k hk l hl (List.cons.inj h).2
  exact
    { hmac_inj := fun k hk l hl salt h => by rw [hinj k hk l hl _ h]
      material_inj := fun k hk l hl h => by rw [hinj k hk l hl _ h]
      pbkdf2_inj := by
        intro k hk l hl _ h
        show Hashes.hmacSha256 _ _ = Hashes.hmacSha256 _ _
        exact congrArg (0 :: ·) (List.cons.inj h).2
      independent := fun k _ l _ _ _ h => absurd (List.cons.inj h).1 (by decide) }

/-- Two keys issued under the two schemes are accepted, each as its own identity. -/
theorem authenticate_issued_keys :
    let _ : Externals := ⟨fun _ => "", fun _ => .ok ()⟩
    let _ : Hashes := tailHashes
    let _ : FloatRepr := exactRepr
    let _ : DateTimeText := strokeTimes
    let pepper := "a pepper of more than 32 characters"
    let now : Timestamp := ⟨0, Nat.zero_le _⟩
    let key := rawKeyOf (sampleDraw 1)
    let key' := rawKeyOf (sampleDraw 2)
    ∃ record record' settings,
      issueWith .hmacSha256V1 (sampleDraw 1) "alice" "tenant-a" pepper none = .ok (key, record)
      ∧ issueWith .pbkdf2Sha256V1 (sampleDraw 2) "bob" "tenant-b" pepper none = .ok (key', record')
      ∧ modelPostInit (sampleFields (registryText defaultStyle [record, record']) pepper) now
        = .ok settings
      ∧ AcceptedAs (authenticateApiKey settings (some (" " ++ key ++ "\n")) none now)
        "alice" "tenant-a"
      ∧ AcceptedAs (authenticateApiKey settings none (some ("Bearer " ++ key')) now)
        "bob" "tenant-b" := by
  intro _ _ _ _ pepper now key key'
  have hpepper : ¬ pepper.length < 32 := by decide
  have hissues : ∀ scheme draw principal tenant, validClientId principal = true →
      validClientId tenant = true → ∃ record,
        issueWith scheme draw principal tenant pepper none = .ok (rawKeyOf draw, record)
          ∧ record.principalId = principal ∧ record.tenantId = tenant ∧ record.isActive now = true
          ∧ IsIssued pepper (rawKeyOf draw) record := by
    intro scheme draw principal tenant hprincipal htenant
    obtain ⟨record, hissue, hp, ht, henabled, hexpiry⟩ :=
      issueWith_ok scheme draw principal tenant none hpepper hprincipal htenant
    refine ⟨record, hissue, hp, ht, ?_, _, _, _, _, _, record, record.enabled, record.expiresAt,
      hissue, rfl⟩
    unfold CredentialRecord.isActive
    rw [henabled, hexpiry]
    rfl
  obtain ⟨record, hissue, hprincipal, htenant, hactive, hissued⟩ :=
    hissues .hmacSha256V1 (sampleDraw 1) "alice" "tenant-a" (by decide) (by decide)
  obtain ⟨record', hissue', hprincipal', htenant', hactive', hissued'⟩ :=
    hissues .pbkdf2Sha256V1 (sampleDraw 2) "bob" "tenant-b" (by decide) (by decide)
  have hchecked : (do
      let issued ← issueWith .hmacSha256V1 (sampleDraw 1) "alice" "tenant-a" pepper none
      let issued' ← issueWith .pbkdf2Sha256V1 (sampleDraw 2) "bob" "tenant-b" pepper none
      checkRegistry (fun _ => none) [] [issued.2, issued'.2]) = .ok () := by decide +kernel
  rw [hissue, hissue'] at hchecked
  obtain ⟨settings, haccepted⟩ : ∃ settings, modelPostInit (sampleFields
      (registryText defaultStyle [record, record']) pepper) now = .ok settings :=
    ⟨_, modelPostInit_sampleRegistry hpepper
      (List.any_eq_true.mpr ⟨record, List.mem_cons_self, hactive⟩) hchecked⟩
  let registry := [(key, record), (key', record')]
  have hkeys : ∀ entry ∈ registry, entry.1 ∈ [key, key'] :=
    fun entry hentry => List.mem_map_of_mem (f := Prod.fst) hentry
  have hregistry : IssuedRegistry pepper registry :=
    List.forall_mem_cons.mpr ⟨hissued, List.forall_mem_singleton.mpr hissued'⟩
  have hauth := (authenticate_iff hregistry readable_defaultStyle rfl rfl rfl haccepted
    (collisionFree_sampleDraws pepper) hkeys).1
  have hown : ∀ {xApiKey authorization}, ∀ entry ∈ registry,
      extractRawKey xApiKey authorization = some entry.1 → entry.2.isActive now = true →
      AcceptedAs (authenticateApiKey settings xApiKey authorization now) entry.2.principalId
        entry.2.tenantId := by
    intro xApiKey authorization entry hentry hread hactive
    obtain ⟨-, value, hvalue, hstrip⟩ := extractRawKey_eq_some_iff.mp hread
    refine (hauth _ _ now _ _ fun k hk => ?_).mpr
      ⟨value, hvalue, entry, hentry, hstrip, hactive, rfl, rfl⟩
    rw [← Option.some.inj (hread.symm.trans hk)]
    exact hkeys entry hentry
  have hread : extractRawKey (some (" " ++ key ++ "\n")) none = some key := by decide +kernel
  have hread' : extractRawKey none (some ("Bearer " ++ key')) = some key' := by decide +kernel
  refine ⟨record, record', settings, hissue, hissue', haccepted, ?_, ?_⟩
  · rw [← hprincipal, ← htenant]
    exact hown _ List.mem_cons_self hread hactive
  · rw [← hprincipal', ← htenant']
    exact hown _ (List.mem_cons_of_mem _ List.mem_cons_self) hread' hactive'

end AgentRuntime.Security
