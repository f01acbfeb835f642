import AgentRuntime.Domain.Primitives

/-!
# The security boundary of the API

Every request passes `enforce_security_boundary`, which authenticates it, asks the rate limiter and
leaves records in the audit trail. A read of a run is recorded twice by name: the router reads the
run id out of the path with Pydantic, the boundary reads it again with a regular expression. The
router takes every text of a UUID that Pydantic takes, the expression only the hyphenated one.

* `route`: the read routes of the API and the UUID texts Pydantic accepts;
* `sensitiveReadTarget`: what the boundary makes of the same path;
* `enforceSecurityBoundary`: the middleware, with the records it persists;
* `sensitiveReadTarget_of_hyphenated`, `sensitiveReadTarget_of_not_hyphenated`: the two agree on
  hyphenated ids and on no others;
* `read_trail_complete_iff`: exactly then every delivered read has left its record.
-/

namespace AgentRuntime.Api

open Domain

/-! ### Texts of UUIDs -/

def isHex (c : Char) : Bool := (hexValue? c).isSome

/-- The digits of a text of 32 hexadecimal digits. -/
def simpleDigits? (text : List Char) : Option (List Char) :=
  if text.length = 32 ∧ text.all isHex = true then some text else none

/-- The digits of a text in groups of 8, 4, 4, 4 and 12 hexadecimal digits. -/
def hyphenatedDigits? (text : List Char) : Option (List Char) :=
  match text.splitOn '-' with
  | [a, b, c, d, e] =>
    if (a.length = 8 ∧ b.length = 4 ∧ c.length = 4 ∧ d.length = 4 ∧ e.length = 12)
        ∧ (a ++ b ++ c ++ d ++ e).all isHex = true then
      some (a ++ b ++ c ++ d ++ e)
    else none
  | _ => none

/-- The digits of a text that starts with `urn:uuid:`, in any letter case. -/
def urnDigits? (text : List Char) : Option (List Char) :=
  if (text.take 9).map Char.toLower = "urn:uuid:".toList then hyphenatedDigits? (text.drop 9)
  else none

/-- The digits of a text in braces. -/
def bracedDigits? : List Char → Option (List Char)
  | '{' :: text =>
    if text.getLast? = some '}' then hyphenatedDigits? text.dropLast else none
  | _ => none

/-- The UUID Pydantic reads in a text. -/
def pydanticUuid (text : List Char) : Option Uuid :=
  (simpleDigits? text <|> hyphenatedDigits? text <|> urnDigits? text <|> bracedDigits? text).map
    uuidOfDigits

/-- `UUID(text)` on a text of hexadecimal digits and hyphens: hyphens do not count, and 32 digits
have to remain. -/
def pythonUuid (text : List Char) : Option Uuid :=
  let digits := text.filter fun c => c ≠ '-'
  if digits.length = 32 then some (uuidOfDigits digits) else none

/-! ### Paths -/

/-- The resources whose reads are recorded. -/
inductive Resource where
  | run
  | attempts
  | events
  | evaluations
  | job
  deriving DecidableEq, Repr

/-- The name of a resource in the audit trail. -/
def Resource.name : Resource → String
  | .run => "run"
  | .attempts => "attempts"
  | .events => "events"
  | .evaluations => "evaluations"
  | .job => "job"

/-- The parts of a path `/v1/kind/id` or `/v1/kind/id/sub`. -/
structure PathParts where
  kind : List Char
  id : List Char
  sub : Option (List Char)
  deriving DecidableEq

def pathParts (path : List Char) : Option PathParts :=
  match path.splitOn '/' with
  | [[], version, kind, id] => if version = "v1".toList then some ⟨kind, id, none⟩ else none
  | [[], version, kind, id, sub] =>
    if version = "v1".toList then some ⟨kind, id, some sub⟩ else none
  | _ => none

/-- The histories of a run that have a route. -/
def subResource? (sub : List Char) : Option Resource :=
  if sub = "attempts".toList then some .attempts
  else if sub = "events".toList then some .events
  else if sub = "evaluations".toList then some .evaluations
  else none

/-- The read routes `/v1/runs/{run_id}`, its histories, and `/v1/jobs/{job_id}`. -/
def routeResource? (parts : PathParts) : Option Resource :=
  if parts.kind = "runs".toList then
    match parts.sub with
    | none => some .run
    | some sub => subResource? sub
  else if parts.kind = "jobs".toList ∧ parts.sub = none then some .job
  else none

/-- The run id and the resource the router binds to a path. -/
def route (path : List Char) : Option (Uuid × Resource) := do
  let parts ← pathParts path
  let resource ← routeResource? parts
  let runId ← pydanticUuid parts.id
  pure (runId, resource)

/-- The groups of `SENSITIVE_READ_PATH`: the resource it names. -/
def readResource? (parts : PathParts) : Option Resource :=
  if parts.kind = "runs".toList ∨ parts.kind = "jobs".toList then
    match parts.sub with
    | some sub => subResource? sub
    | none => some (if parts.kind = "jobs".toList then .job else .run)
  else none

/-- `[0-9a-fA-F-]{36}`. -/
def matchesId (id : List Char) : Bool := id.length == 36 && id.all fun c => isHex c || c == '-'

/-- `_sensitive_read_target`: the expression has no character class that contains a slash, so its
full match splits the path at the slashes. -/
def sensitiveReadTarget (method : String) (path : List Char) : Option (Uuid × Resource) :=
  if method ≠ "GET" then none
  else do
    let parts ← pathParts path
    let resource ← readResource? parts
    if matchesId parts.id then
      let target ← pythonUuid parts.id
      pure (target, resource)
    else none

/-- The id in a path is in the hyphenated form. -/
def HyphenatedId (path : List Char) : Prop :=
  ∃ parts, pathParts path = some parts ∧ (hyphenatedDigits? parts.id).isSome = true

/-! ### The two readings of a path -/

variable {text digits : List Char}

/-- The digits of a hyphenated text are what is left without its hyphens. -/
theorem hyphenatedDigits?_eq_some (h : hyphenatedDigits? text = some digits) :
    (text.length = 36 ∧ text.all fun c => isHex c || c == '-')
      ∧ text.filter (fun c => c ≠ '-') = digits ∧ digits.length = 32 := by
  unfold hyphenatedDigits? at h
  split at h
  · rename_i a b c d e hsplit
    split at h
    · rename_i hform
      obtain ⟨⟨ha, hb, hc, hd, he⟩, hhex⟩ := hform
      have htext : text = a ++ '-' :: (b ++ '-' :: (c ++ '-' :: (d ++ '-' :: e))) := by
        have hjoin : ['-'].intercalate (text.splitOn '-') = text := List.intercalate_splitOn '-'
        rw [← hjoin, hsplit]
        simp [List.intercalate]
      have hkeep : ∀ {g : List Char}, (∀ x ∈ g, isHex x = true) →
          g.filter (fun x => x ≠ '-') = g := by
        intro g hg
        refine List.filter_eq_self.mpr fun x hx => ?_
        have hne : x ≠ '-' := by
          rintro rfl
          exact absurd (hg _ hx) (by decide)
        simpa using hne
      simp only [List.all_append, Bool.and_eq_true, List.all_eq_true] at hhex
      obtain ⟨⟨⟨⟨hxa, hxb⟩, hxc⟩, hxd⟩, hxe⟩ := hhex
      have hdigits := Option.some.inj h
      subst hdigits
      refine ⟨⟨?_, ?_⟩, ?_, ?_⟩
      · simp [htext, ha, hb, hc, hd, he]
      · refine List.all_eq_true.mpr fun x hx => ?_
        rw [htext] at hx
        simp only [List.mem_append, List.mem_cons] at hx
        rcases hx with hx | rfl | hx | rfl | hx | rfl | hx | rfl | hx
        all_goals simp [*]
      · rw [htext]
        simp only [List.filter_append, List.filter_cons, hkeep hxa, hkeep hxb, hkeep hxc,
          hkeep hxd, hkeep hxe, List.append_assoc]
        rfl
      · simp [ha, hb, hc, hd, he]
    · exact absurd h (by simp)
  · exact absurd h (by simp)

theorem pythonUuid_of_hyphenated (h : hyphenatedDigits? text = some digits) :
    pythonUuid text = some (uuidOfDigits digits) := by
  obtain ⟨-, hfilter, hlength⟩ := hyphenatedDigits?_eq_some h
  simp only [pythonUuid, hfilter, hlength, if_true]

variable {u : Uuid}

/-- The other forms have another length. -/
theorem pydanticUuid_length {text : List Char} (h : pydanticUuid text = some u)
    (hlength : text.length = 36) : (hyphenatedDigits? text).isSome = true := by
  have hshape : ∀ {t : List Char}, (hyphenatedDigits? t).isSome = true → t.length = 36 := by
    intro t ht
    obtain ⟨digits, hdigits⟩ := Option.isSome_iff_exists.mp ht
    exact (hyphenatedDigits?_eq_some hdigits).1.1
  by_contra hnone
  have hhyphenated : hyphenatedDigits? text = none := by simpa using hnone
  have hsimple : simpleDigits? text = none := by simp [simpleDigits?, hlength]
  have hurn : urnDigits? text = none := by
    unfold urnDigits?
    split
    · by_contra hsome
      have hlong := hshape (Option.isSome_iff_ne_none.mpr hsome)
      rw [List.length_drop] at hlong
      omega
    · rfl
  have hbraced : bracedDigits? text = none := by
    unfold bracedDigits?
    split
    · split
      · by_contra hsome
        have hlong := hshape (Option.isSome_iff_ne_none.mpr hsome)
        rw [List.length_dropLast] at hlong
        rw [List.length_cons] at hlength
        omega
      · rfl
    · rfl
  simp [pydanticUuid, hsimple, hhyphenated, hurn, hbraced] at h

variable {r : Resource}

theorem readResource?_of_route {parts : PathParts} (h : routeResource? parts = some r) :
    readResource? parts = some r := by
  unfold routeResource? at h
  unfold readResource?
  split at h
  · rename_i hkind
    rw [if_pos (.inl hkind)]
    cases hsub : parts.sub with
    | none =>
      have hjobs : parts.kind ≠ "jobs".toList := by
        rw [hkind]
        decide
      rw [hsub] at h
      simpa only [if_neg hjobs] using h
    | some sub => simpa [hsub] using h
  · split at h
    · rename_i hkind
      rw [if_pos (.inr hkind.1)]
      simpa [hkind.1, hkind.2] using h
    · exact absurd h (by simp)

variable {path : List Char}

/-- On a path that the router binds, the boundary reads the id if the expression matches it. -/
theorem sensitiveReadTarget_of_route (h : route path = some (u, r)) :
    ∃ parts, pathParts path = some parts ∧ pydanticUuid parts.id = some u
      ∧ sensitiveReadTarget "GET" path
        = if matchesId parts.id then (pythonUuid parts.id).map fun t => (t, r) else none := by
  simp only [route, Option.bind_eq_bind, Option.bind_eq_some_iff, Option.pure_def,
    Option.some.injEq, Prod.mk.injEq] at h
  obtain ⟨parts, hparts, r', hr, u', hu, rfl, rfl⟩ := h
  refine ⟨parts, hparts, hu, ?_⟩
  simp only [sensitiveReadTarget, hparts, readResource?_of_route hr, ne_eq, not_true_eq_false,
    if_false, Option.bind_eq_bind, Option.bind_some]
  split
  · cases pythonUuid parts.id <;> rfl
  · rfl

theorem sensitiveReadTarget_of_hyphenated (h : route path = some (u, r))
    (hform : HyphenatedId path) : sensitiveReadTarget "GET" path = some (u, r) := by
  obtain ⟨parts, hparts, hu, htarget⟩ := sensitiveReadTarget_of_route h
  obtain ⟨parts', hparts', hid⟩ := hform
  obtain rfl : parts' = parts := Option.some.inj (hparts'.symm.trans hparts)
  obtain ⟨digits, hdigits⟩ := Option.isSome_iff_exists.mp hid
  obtain ⟨⟨hlength, hall⟩, -, -⟩ := hyphenatedDigits?_eq_some hdigits
  have hmatch : matchesId parts'.id = true := by simp [matchesId, hlength, hall]
  have hsame : u = uuidOfDigits digits := by
    have hsimple : simpleDigits? parts'.id = none := by simp [simpleDigits?, hlength]
    rw [pydanticUuid, hsimple, hdigits] at hu
    exact (Option.some.inj hu).symm
  rw [htarget, if_pos hmatch, pythonUuid_of_hyphenated hdigits, hsame]
  rfl

theorem sensitiveReadTarget_of_not_hyphenated (h : route path = some (u, r))
    (hform : ¬ HyphenatedId path) : sensitiveReadTarget "GET" path = none := by
  obtain ⟨parts, hparts, hu, htarget⟩ := sensitiveReadTarget_of_route h
  rw [htarget, if_neg]
  intro hmatch
  simp only [matchesId, Bool.and_eq_true, beq_iff_eq] at hmatch
  exact hform ⟨parts, hparts, pydanticUuid_length hu hmatch.1⟩

/-! ### The middleware -/

inductive AuthMode where
  | disabled
  | apiKey
  deriving DecidableEq

inductive AuditFailurePolicy where
  | failClosed
  | failOpen
  deriving DecidableEq

structure AuthenticationResult where
  authenticated : Bool
  credentialFingerprint : Option String
  failureCode : Option String
  principalId : Option String
  tenantId : Option String

structure SecurityAuditRecord where
  eventType : String
  outcome : String
  reason : String
  clientId : Option String
  credentialFingerprint : Option String
  principalId : Option String
  targetRunId : Option Uuid
  resource : Option Resource
  deriving DecidableEq

/-- What came of a write to the audit sink: the record was stored in time, it was not stored, or
it was stored but the caller saw an exception or a timeout. -/
inductive SinkResult where
  | stored
  | lost
  | late

inductive RateDecision where
  | allowed
  | denied
  | unavailable

/-- A request, with what `authenticate_api_key` says about its credentials. -/
structure Request where
  method : String
  path : List Char
  /-- The values of its `X-Client-Id` headers. -/
  clientIds : List String
  authentication : AuthenticationResult

/-- The response of a handler, or one of the boundary itself. -/
inductive Response where
  | handled (status : ℕ) (body : Json)
  | securityError (status : ℕ) (code message : String)

inductive BoundaryError where
  | runtimeError (message : String)
  /-- The exception of the handler, raised again. -/
  | handler

/-- What the boundary calls. -/
structure Deployment where
  authMode : AuthMode
  auditFailurePolicy : AuditFailurePolicy
  rateLimit : String → RateDecision
  sink : SecurityAuditRecord → SinkResult
  handler : Request → Except Unit (ℕ × Json)

/-- A computation that persists audit records. -/
abbrev Audited (α : Type) := StateM (List SecurityAuditRecord) α

/-- `PUBLIC_ENDPOINTS`. -/
def isPublic (request : Request) : Bool :=
  request.method == "GET" && request.path == "/healthz".toList

/-- `CLIENT_ID_PATTERN`. -/
def validClientId (id : String) : Bool :=
  match id.toList with
  | c :: cs => c.isAlphanum && cs.length ≤ 127
      && cs.all fun c => c.isAlphanum || ['.', '_', ':', '-'].contains c
  | [] => false

/-- The header is absent, or there is exactly one and it is well formed. -/
def validClientIds : List String → Bool
  | [] => true
  | [id] => validClientId id
  | _ => false

section Middleware

variable (d : Deployment) (request : Request)

/-- Whether the caller may go on after the write. -/
def writeSecurityAudit (record : SecurityAuditRecord) : Audited Bool :=
  match d.sink record with
  | .stored => fun records => (true, records ++ [record])
  | .late => fun records => (decide (d.auditFailurePolicy = .failOpen), records ++ [record])
  | .lost => fun records => (decide (d.auditFailurePolicy = .failOpen), records)

/-- The record of a read. -/
def readRecord (target : Uuid × Resource) (status : ℕ) : SecurityAuditRecord where
  eventType := "SENSITIVE_READ"
  outcome := if status < 400 then "ALLOWED" else if status ≥ 500 then "ERROR" else "DENIED"
  reason := if status < 400 then "READ_COMPLETED" else "READ_REJECTED"
  clientId := request.authentication.tenantId
  credentialFingerprint := request.authentication.credentialFingerprint
  principalId := request.authentication.principalId
  targetRunId := some target.1
  resource := some target.2

def auditRead (target : Option (Uuid × Resource)) (status : ℕ) : Audited Bool :=
  match target with
  | none => pure true
  | some target => writeSecurityAudit d (readRecord request target status)

/-- A record of the boundary without a target. -/
def boundaryRecord (eventType outcome reason : String) (clientId principalId : Option String) :
    SecurityAuditRecord where
  eventType := eventType
  outcome := outcome
  reason := reason
  clientId := clientId
  credentialFingerprint := request.authentication.credentialFingerprint
  principalId := principalId
  targetRunId := none
  resource := none

/-- The handler, and the record of the read around it. -/
def callAudited (target : Option (Uuid × Resource)) : Audited (Except BoundaryError Response) :=
  match d.handler request with
  | .error () => do
      let _ ← auditRead d request target 500
      pure (.error .handler)
  | .ok (status, body) => do
      if ← auditRead d request target status then pure (.ok (.handled status body))
      else pure (.ok (.securityError 503 "AUDIT_UNAVAILABLE" "Security audit is unavailable."))

/-- The boundary from the point where the request may proceed. -/
def proceed : Audited (Except BoundaryError Response) :=
  let target := sensitiveReadTarget request.method request.path
  if d.authMode = .apiKey ∧ target = none then do
    -- On a path that is audited as a read the second record would say nothing new.
    if ← writeSecurityAudit d (boundaryRecord request "AUTHENTICATION" "ALLOWED" "AUTHENTICATED"
        request.authentication.tenantId request.authentication.principalId) then
      callAudited d request target
    else pure (.ok (.securityError 503 "AUDIT_UNAVAILABLE" "Security audit is unavailable."))
  else callAudited d request target

/-- A refusal that is recorded first. -/
def refuse (record : SecurityAuditRecord) (status : ℕ) (code message : String) :
    Audited (Except BoundaryError Response) := do
  let _ ← writeSecurityAudit d record
  pure (.ok (.securityError status code message))

def refuseAuthentication : Audited (Except BoundaryError Response) :=
  let code := request.authentication.failureCode.getD "INVALID_CREDENTIAL"
  let record := boundaryRecord request "AUTHENTICATION" "DENIED" code none none
  if request.authentication.failureCode = some "AUTHENTICATION_REQUIRED" then
    refuse d record 401 code "Authentication is required."
  else refuse d record 403 code "Credential is not accepted."

def checkRate (principal tenant : String) : Audited (Except BoundaryError Response) :=
  match d.rateLimit principal with
  | .allowed => proceed d request
  | .denied => refuse d
      (boundaryRecord request "RATE_LIMIT" "DENIED" "RATE_LIMIT_EXCEEDED" (some tenant) none)
      429 "RATE_LIMIT_EXCEEDED" "Request rate limit exceeded."
  | .unavailable => refuse d
      (boundaryRecord request "RATE_LIMIT" "ERROR" "RATE_LIMIT_UNAVAILABLE" (some tenant) none)
      503 "RATE_LIMIT_UNAVAILABLE" "Request rate limiting is temporarily unavailable."

def enforceSecurityBoundary : Audited (Except BoundaryError Response) :=
  if isPublic request then
    match d.handler request with
    | .error () => pure (.error .handler)
    | .ok (status, body) => pure (.ok (.handled status body))
  else if !validClientIds request.clientIds then
    pure (.ok (.securityError 422 "INVALID_CLIENT_ID"
      "X-Client-Id must contain 1-128 URL-safe identity characters."))
  else if !request.authentication.authenticated then refuseAuthentication d request
  else
    match d.authMode with
    | .disabled => proceed d request
    | .apiKey =>
      match request.authentication.principalId, request.authentication.tenantId with
      | some principal, some tenant => checkRate d request principal tenant
      | _, _ => pure (.error (.runtimeError "Authenticated credential has no identity binding"))

end Middleware

/-! ### The read trail -/

/-- If the boundary delivers the successful response of the handler, a record of the read that names
the run and the resource has been persisted. -/
def LeavesTrail (d : Deployment) (request : Request) (u : Uuid) (r : Resource) : Prop :=
  ∀ status body records, (enforceSecurityBoundary d request).run []
      = (.ok (.handled status body), records) → 200 ≤ status → status < 300 →
    ∃ record ∈ records, record.eventType = "SENSITIVE_READ" ∧ record.outcome = "ALLOWED"
      ∧ record.targetRunId = some u ∧ record.resource = some r

/-- Every authenticated read of a path, in API-key mode and under the fail-closed policy, leaves a
trail. -/
def TrailComplete (path : List Char) (u : Uuid) (r : Resource) : Prop :=
  ∀ (d : Deployment) (request : Request), d.authMode = .apiKey →
    d.auditFailurePolicy = .failClosed → request.method = "GET" → request.path = path →
    request.authentication.authenticated = true → LeavesTrail d request u r

section Trail

variable {d : Deployment} {request : Request} {records records' : List SecurityAuditRecord}
  {status : ℕ} {body : Json} {target : Uuid × Resource}

variable {record : SecurityAuditRecord}

/-- What a refusal delivers is no response of the handler. -/
theorem refuse_ne {code message : String} {s : ℕ} :
    (refuse d record s code message).run records ≠ (.ok (.handled status body), records') := by
  intro h
  have hfst : (.ok (.securityError s code message) : Except BoundaryError Response)
      = .ok (.handled status body) := congrArg Prod.fst h
  exact absurd (Except.ok.inj hfst) (by simp)

/-- Only a request that may proceed gets the response of the handler. -/
theorem enforce_handled (hpublic : isPublic request = false) (hmode : d.authMode = .apiKey)
    (h : (enforceSecurityBoundary d request).run records
      = (.ok (.handled status body), records')) :
    (proceed d request).run records = (.ok (.handled status body), records') := by
  unfold enforceSecurityBoundary at h
  rw [if_neg (by simp [hpublic]), hmode] at h
  split at h
  · exact absurd (Except.ok.inj (congrArg Prod.fst h)) (by simp)
  · split at h
    · unfold refuseAuthentication at h
      dsimp only at h
      split at h
      · exact absurd h refuse_ne
      · exact absurd h refuse_ne
    · dsimp only at h
      split at h
      · unfold checkRate at h
        split at h
        · exact h
        · exact absurd h refuse_ne
        · exact absurd h refuse_ne
      · have hfst : (.error (.runtimeError "Authenticated credential has no identity binding") :
            Except BoundaryError Response) = .ok (.handled status body) := congrArg Prod.fst h
        exact absurd hfst (by simp)

/-- Under the fail-closed policy the caller only goes on if the record is stored. -/
theorem writeSecurityAudit_stored (hpolicy : d.auditFailurePolicy = .failClosed)
    (h : ((writeSecurityAudit d record).run records).1 = true) :
    record ∈ ((writeSecurityAudit d record).run records).2 := by
  unfold writeSecurityAudit at h ⊢
  cases hsink : d.sink record with
  | stored => exact List.mem_append_right _ (List.mem_singleton_self _)
  | late => exact List.mem_append_right _ (List.mem_singleton_self _)
  | lost =>
    rw [hsink] at h
    exact absurd h (by simp [StateT.run, hpolicy])

/-- A delivered read has been recorded. -/
theorem callAudited_records (hpolicy : d.auditFailurePolicy = .failClosed)
    (h : (callAudited d request (some target)).run records
      = (.ok (.handled status body), records')) :
    readRecord request target status ∈ records' := by
  unfold callAudited at h
  split at h
  · exact absurd (congrArg Prod.fst h) (by simp)
  · rename_i s b hhandler
    rw [StateT.run_bind] at h
    cases haudit : ((auditRead d request (some target) s).run records).1 with
    | false =>
      simp only [bind, haudit] at h
      exact absurd (Except.ok.inj (congrArg Prod.fst h)) (by simp)
    | true =>
      have hstored := writeSecurityAudit_stored hpolicy haudit
      simp only [bind, haudit, if_true] at h
      obtain ⟨hresponse, rfl⟩ := Prod.mk.inj h
      obtain ⟨rfl, rfl⟩ := Response.handled.inj (Except.ok.inj hresponse)
      exact hstored

theorem isPublic_of_route (h : route path = some (u, r)) (hpath : request.path = path) :
    isPublic request = false := by
  have hhealth : route "/healthz".toList = none := by decide
  have hne : request.path ≠ "/healthz".toList := by
    rw [hpath]
    rintro rfl
    rw [hhealth] at h
    exact absurd h (by simp)
  simp only [isPublic, Bool.and_eq_false_iff, beq_eq_false_iff_ne]
  exact .inr hne

end Trail

/-- A deployment in which everything succeeds. -/
def sampleDeployment : Deployment where
  authMode := .apiKey
  auditFailurePolicy := .failClosed
  rateLimit := fun _ => .allowed
  sink := fun _ => .stored
  handler := fun _ => .ok (200, .null)

/-- An authenticated read of a path. -/
def sampleRead (path : List Char) : Request :=
  ⟨"GET", path, [], ⟨true, some "fingerprint", none, some "principal", some "tenant"⟩⟩

/-- A read the boundary does not recognise is delivered and leaves no record that names the run. -/
theorem sampleRead_unrecorded (h : route path = some (u, r)) (hform : ¬ HyphenatedId path) :
    (enforceSecurityBoundary sampleDeployment (sampleRead path)).run []
      = (.ok (.handled 200 .null), [boundaryRecord (sampleRead path) "AUTHENTICATION" "ALLOWED"
        "AUTHENTICATED" (some "tenant") (some "principal")]) := by
  have hpublic : isPublic (sampleRead path) = false := isPublic_of_route h rfl
  have htarget : sensitiveReadTarget "GET" path = none :=
    sensitiveReadTarget_of_not_hyphenated h hform
  have hproceed : (enforceSecurityBoundary sampleDeployment (sampleRead path)).run []
      = (proceed sampleDeployment (sampleRead path)).run [] := by
    unfold enforceSecurityBoundary
    rw [if_neg (by simp [hpublic])]
    rfl
  rw [hproceed, proceed]
  simp only [sampleRead, htarget]
  rfl

/-- **The read trail is complete exactly on hyphenated ids.** For every path that the router binds
to a run and a resource: the boundary names that run and that resource, and every authenticated
read of the path whose successful response is delivered has left a persisted record of it, exactly
if the id in the path is in the hyphenated form. -/
theorem read_trail_complete_iff {path : List Char} {u : Uuid} {r : Resource}
    (h : route path = some (u, r)) :
    (sensitiveReadTarget "GET" path = some (u, r) ↔ HyphenatedId path)
      ∧ (TrailComplete path u r ↔ HyphenatedId path) := by
  refine ⟨⟨fun hsome => ?_, sensitiveReadTarget_of_hyphenated h⟩, fun htrail => ?_, fun hform => ?_⟩
  · by_contra hform
    rw [sensitiveReadTarget_of_not_hyphenated h hform] at hsome
    exact absurd hsome (by simp)
  · by_contra hform
    obtain ⟨record, hmem, hread, -⟩ := htrail sampleDeployment (sampleRead path) rfl rfl rfl rfl rfl
      200 .null _ (sampleRead_unrecorded h hform) (by decide) (by decide)
    rw [List.mem_singleton.mp hmem] at hread
    exact absurd hread (by simp [boundaryRecord])
  · intro d request hmode hpolicy hmethod hpath _ status body records hrun hok hlt
    have htarget : sensitiveReadTarget request.method request.path = some (u, r) := by
      rw [hmethod, hpath]
      exact sensitiveReadTarget_of_hyphenated h hform
    have hproceed := enforce_handled (isPublic_of_route h hpath) hmode hrun
    unfold proceed at hproceed
    rw [if_neg (by simp [htarget]), htarget] at hproceed
    have hallowed : status < 400 := by omega
    refine ⟨_, callAudited_records hpolicy hproceed, rfl, ?_, rfl, rfl⟩
    simp [readRecord, hallowed]

/-- The path of the events of a run. -/
def samplePath (id : String) : List Char := "/v1/runs/".toList ++ id.toList ++ "/events".toList

theorem read_trail_complete_iff_sample :
    let path := samplePath "123E4567-e89b-12d3-a456-426614174000"
    let u : Uuid := ⟨0x123e4567e89b12d3a456426614174000#128⟩
    (hyphenatedDigits? "123E4567-e89b-12d3-a456-426614174000".toList).isSome = true
      ∧ (sensitiveReadTarget "GET" path = some (u, .events) ↔ HyphenatedId path)
      ∧ (TrailComplete path u .events ↔ HyphenatedId path) :=
  ⟨by decide +kernel, read_trail_complete_iff (by decide +kernel)⟩

/-- Without its hyphens the same id reaches the handler, and its read is delivered without a
record. -/
theorem simple_id_unrecorded :
    let path := samplePath "123e4567e89b12d3a456426614174000"
    route path = some (⟨0x123e4567e89b12d3a456426614174000#128⟩, .events)
      ∧ sensitiveReadTarget "GET" path = none
      ∧ ((enforceSecurityBoundary sampleDeployment (sampleRead path)).run []).2.map
        SecurityAuditRecord.eventType = ["AUTHENTICATION"]
      ∧ (match ((enforceSecurityBoundary sampleDeployment (sampleRead path)).run []).1 with
        | .ok (.handled status _) => status
        | _ => 0) = 200 := by
  decide +kernel

end AgentRuntime.Api
