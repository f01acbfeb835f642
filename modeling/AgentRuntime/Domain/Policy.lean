import AgentRuntime.Domain.Routing

/-!
# Request policies and their resolution

A caller may ask for retry bounds, providers and a token limit. `RunPolicyRequest` accepts what is
within the absolute bounds of the API; `buildPolicySnapshot` fills in the server's defaults, clamps
every number to the server's limits, resolves the routing and reads the result back as a retry
policy, which is what a worker will do with the stored policy.

* `RunPolicyRequest.modelValidate`, `modelDump`: the request model;
* `ServerLimits`: what the server allows;
* `buildPolicySnapshot`: the resolved policy.
-/

namespace AgentRuntime.Domain

open Lib

/-! ### Numbers of a policy -/

/-- The number of a value; integers are exact, floats are what they denote. -/
def Json.number? : Json → Option ℚ
  | .int n => some n
  | .float x => x.value?
  | _ => none

/-- `a < b` for numbers. -/
def numberLt (a b : Json) : Bool :=
  match a.number?, b.number? with
  | some p, some q => decide (p < q)
  | _, _ => false

/-- `min(a, b)`: the first of two equal numbers. -/
def pyMin (a b : Json) : Json := if numberLt b a then b else a

/-- `max(a, b)`: the first of two equal numbers. -/
def pyMax (a b : Json) : Json := if numberLt a b then b else a

/-- A number that a float holds exactly. -/
structure PyNumber where
  json : Json
  value : ℚ
  reads : json.number? = some value
  exact : binary64 value = some value

/-! ### The request model -/

/-- A list of one or two of the known providers. -/
def KnownProviders (names : List String) : Prop :=
  1 ≤ names.length ∧ names.length ≤ 2 ∧ ∀ name ∈ names, name = "deterministic" ∨ name = "openai"

instance (names : List String) : Decidable (KnownProviders names) :=
  inferInstanceAs (Decidable (_ ∧ _ ∧ _))

/-- A float between two bounds. -/
def FloatWithin (low high : ℚ) (x : PyFloat) : Prop :=
  x.value?.any (fun q => decide (low ≤ q ∧ q ≤ high)) = true

instance (low high : ℚ) (x : PyFloat) : Decidable (FloatWithin low high x) :=
  inferInstanceAs (Decidable (_ = true))

structure RoutingRequest where
  strategy : RoutingStrategy
  candidates : Option (List String)

/-- The fields of a request. -/
structure PolicyFields where
  maxAttempts : Option ℤ
  attemptTimeoutSeconds : Option PyFloat
  initialBackoffSeconds : Option PyFloat
  maxBackoffSeconds : Option PyFloat
  providerOrder : Option (List String)
  routing : Option RoutingRequest
  model : Option String
  instructions : Option String
  maxOutputTokens : Option ℤ

/-- The bounds of the fields. -/
structure PolicyFields.Valid (fields : PolicyFields) : Prop where
  attempts : ∀ n ∈ fields.maxAttempts, 1 ≤ n ∧ n ≤ 20
  timeout : ∀ x ∈ fields.attemptTimeoutSeconds, FloatWithin 1 600 x
  initial : ∀ x ∈ fields.initialBackoffSeconds, FloatWithin 1 3600 x
  maxBackoff : ∀ x ∈ fields.maxBackoffSeconds, FloatWithin 1 86400 x
  providers : ∀ names ∈ fields.providerOrder, KnownProviders names
  candidates : ∀ routing ∈ fields.routing, ∀ names ∈ routing.candidates, KnownProviders names
  model : ∀ text ∈ fields.model, 1 ≤ text.length ∧ text.length ≤ 128
  instructions : ∀ text ∈ fields.instructions, 1 ≤ text.length ∧ text.length ≤ 4096
  tokens : ∀ n ∈ fields.maxOutputTokens, 1 ≤ n ∧ n ≤ 8192

instance (fields : PolicyFields) : Decidable fields.Valid :=
  decidable_of_iff
    ((∀ n ∈ fields.maxAttempts, 1 ≤ n ∧ n ≤ 20)
      ∧ (∀ x ∈ fields.attemptTimeoutSeconds, FloatWithin 1 600 x)
      ∧ (∀ x ∈ fields.initialBackoffSeconds, FloatWithin 1 3600 x)
      ∧ (∀ x ∈ fields.maxBackoffSeconds, FloatWithin 1 86400 x)
      ∧ (∀ names ∈ fields.providerOrder, KnownProviders names)
      ∧ (∀ routing ∈ fields.routing, ∀ names ∈ routing.candidates, KnownProviders names)
      ∧ (∀ text ∈ fields.model, 1 ≤ text.length ∧ text.length ≤ 128)
      ∧ (∀ text ∈ fields.instructions, 1 ≤ text.length ∧ text.length ≤ 4096)
      ∧ ∀ n ∈ fields.maxOutputTokens, 1 ≤ n ∧ n ≤ 8192)
    ⟨fun ⟨h1, h2, h3, h4, h5, h6, h7, h8, h9⟩ => ⟨h1, h2, h3, h4, h5, h6, h7, h8, h9⟩,
      fun ⟨h1, h2, h3, h4, h5, h6, h7, h8, h9⟩ => ⟨h1, h2, h3, h4, h5, h6, h7, h8, h9⟩⟩

/-- An accepted request. -/
structure RunPolicyRequest extends PolicyFields where
  valid : toPolicyFields.Valid

/-- An optional field: absent and `None` are the same. -/
def optionalField {α : Type} (object : JsonObject) (key : String) (read : Json → Option α) :
    Option (Option α) :=
  match JsonObject.get? object key with
  | none | some .null => some none
  | some value => (read value).map some

/-- A strict integer: no `bool`, no float. -/
def strictInt : Json → Option ℤ
  | .int n => some n
  | _ => none

/-- A strict float: an integer is converted. -/
def strictFloat [FloatRepr] : Json → Option PyFloat
  | .float x => some x
  | .int n => (binary64 n).map fun r => .finite (FloatRepr.repr r)
  | _ => none

def readText : Json → Option String
  | .str s => some s
  | _ => none

/-- `RoutingRequest.model_validate`; a strategy that is given is no `None`. -/
def RoutingRequest.modelValidate : Json → Option RoutingRequest
  | .obj object => do
      guard (object.all fun m => m.1 ∈ ["strategy", "candidates"])
      let strategy ← RoutingStrategy.ofValue?
        (JsonObject.getD object "strategy" (.str RoutingStrategy.balanced.value))
      let candidates ← optionalField object "candidates" stringList
      pure ⟨strategy, candidates⟩
  | _ => none

/-- The fields `RunPolicyRequest` knows; every other one is refused. -/
def policyFieldNames : List String :=
  ["max_attempts", "attempt_timeout_seconds", "initial_backoff_seconds", "max_backoff_seconds",
    "provider_order", "routing", "model", "instructions", "max_output_tokens"]

/-- `RunPolicyRequest.model_validate`; `none` where it raises `ValidationError`. -/
def RunPolicyRequest.modelValidate [FloatRepr] (object : JsonObject) : Option RunPolicyRequest := do
  guard (object.all fun m => m.1 ∈ policyFieldNames)
  let maxAttempts ← optionalField object "max_attempts" strictInt
  let attemptTimeoutSeconds ← optionalField object "attempt_timeout_seconds" strictFloat
  let initialBackoffSeconds ← optionalField object "initial_backoff_seconds" strictFloat
  let maxBackoffSeconds ← optionalField object "max_backoff_seconds" strictFloat
  let providerOrder ← optionalField object "provider_order" stringList
  let routing ← optionalField object "routing" RoutingRequest.modelValidate
  let model ← optionalField object "model" readText
  let instructions ← optionalField object "instructions" readText
  let maxOutputTokens ← optionalField object "max_output_tokens" strictInt
  let fields : PolicyFields := {
    maxAttempts, attemptTimeoutSeconds, initialBackoffSeconds, maxBackoffSeconds, providerOrder
    routing, model, instructions, maxOutputTokens }
  if h : fields.Valid then some ⟨fields, h⟩ else none

def namesJson (names : List String) : Json := .arr (names.map Json.str)

def RoutingRequest.modelDump (routing : RoutingRequest) : Json :=
  .obj (JsonObject.present [("strategy", some (.str routing.strategy.value)),
    ("candidates", routing.candidates.map namesJson)])

def PolicyFields.members (fields : PolicyFields) : List (String × Option Json) :=
  [("max_attempts", fields.maxAttempts.map Json.int),
    ("attempt_timeout_seconds", fields.attemptTimeoutSeconds.map Json.float),
    ("initial_backoff_seconds", fields.initialBackoffSeconds.map Json.float),
    ("max_backoff_seconds", fields.maxBackoffSeconds.map Json.float),
    ("provider_order", fields.providerOrder.map namesJson),
    ("routing", fields.routing.map RoutingRequest.modelDump),
    ("model", fields.model.map Json.str),
    ("instructions", fields.instructions.map Json.str),
    ("max_output_tokens", fields.maxOutputTokens.map Json.int)]

/-- `model_dump(exclude_none=True)`. -/
def PolicyFields.modelDump (fields : PolicyFields) : JsonObject :=
  JsonObject.present fields.members

/-! ### Resolution -/

/-- What the server allows: the arguments of `build_policy_snapshot`. -/
structure ServerLimits where
  maxAttempts : ℤ
  attemptTimeoutSeconds : PyNumber
  initialBackoffSeconds : PyNumber
  maxBackoffSeconds : PyNumber
  maxOutputTokens : ℤ

/-- The limits that the settings allow. -/
structure ServerLimits.Allowed (limits : ServerLimits) : Prop where
  one_le_attempts : 1 ≤ limits.maxAttempts
  attempts_le : limits.maxAttempts ≤ 20
  one_le_timeout : 1 ≤ limits.attemptTimeoutSeconds.value
  one_le_initial : 1 ≤ limits.initialBackoffSeconds.value
  initial_le_max : limits.initialBackoffSeconds.value ≤ limits.maxBackoffSeconds.value
  one_le_tokens : 1 ≤ limits.maxOutputTokens

/-- `RetryPolicy.as_snapshot`. -/
def RetryPolicy.asSnapshot [FloatRepr] (policy : RetryPolicy) : JsonObject :=
  [("max_attempts", .int policy.maxAttempts),
    ("attempt_timeout_seconds", .float (.finite (FloatRepr.repr policy.attemptTimeoutSeconds))),
    ("initial_backoff_seconds", .float (.finite (FloatRepr.repr policy.initialBackoffSeconds))),
    ("max_backoff_seconds", .float (.finite (FloatRepr.repr policy.maxBackoffSeconds))),
    ("provider_order", namesJson policy.providerOrder)]

/-- `snapshot[key]` of a key that is there. -/
def JsonObject.item (snapshot : JsonObject) (key : String) : Json :=
  JsonObject.getD snapshot key .null

/-- The server's defaults for the fields that were not given. -/
def withDefaults (limits : ServerLimits) (snapshot : JsonObject) : JsonObject :=
  (((snapshot.setDefault "max_attempts" (.int limits.maxAttempts)).setDefault
    "attempt_timeout_seconds" limits.attemptTimeoutSeconds.json).setDefault
    "initial_backoff_seconds" limits.initialBackoffSeconds.json).setDefault
    "max_backoff_seconds" limits.maxBackoffSeconds.json

/-- The numbers within the server's limits, one after the other. -/
def clampNumbers (limits : ServerLimits) (snapshot : JsonObject) : JsonObject :=
  let snapshot := snapshot.set "max_attempts"
    (pyMin (snapshot.item "max_attempts") (.int limits.maxAttempts))
  let snapshot := snapshot.set "attempt_timeout_seconds"
    (pyMin (snapshot.item "attempt_timeout_seconds") limits.attemptTimeoutSeconds.json)
  let snapshot := snapshot.set "initial_backoff_seconds"
    (pyMin limits.maxBackoffSeconds.json
      (pyMax (pyMax (.int 1) limits.initialBackoffSeconds.json)
        (snapshot.item "initial_backoff_seconds")))
  let snapshot := snapshot.set "max_backoff_seconds"
    (pyMax (snapshot.item "initial_backoff_seconds")
      (pyMin (snapshot.item "max_backoff_seconds") limits.maxBackoffSeconds.json))
  snapshot.set "max_output_tokens"
    (pyMin (JsonObject.getD snapshot "max_output_tokens" (.int limits.maxOutputTokens))
      (.int limits.maxOutputTokens))

/-- The routing decision in the policy. -/
def withRouting (decision : RoutingDecision) (snapshot : JsonObject) : JsonObject :=
  (snapshot.set "provider_order" (namesJson decision.providerOrder)).set "routing"
    (.obj [("strategy", .str decision.strategy.value),
      ("candidates", namesJson decision.providerOrder), ("decision", decision.toJson)])

/-- Merge request policy with safe defaults before it is included in the idempotency hash. -/
def buildPolicySnapshot [FloatRepr] (requested : JsonObject) (limits : ServerLimits)
    (availableProviders : Option (List String)) : Except PyError JsonObject :=
  match RunPolicyRequest.modelValidate requested with
  | none => .error (.valueError "validation error for RunPolicyRequest")
  | some request => do
      let snapshot := request.modelDump
      if numberLt (JsonObject.getD snapshot "max_backoff_seconds" limits.maxBackoffSeconds.json)
          (JsonObject.getD snapshot "initial_backoff_seconds" limits.initialBackoffSeconds.json) then
        throw (.valueError "max_backoff_seconds must be at least initial_backoff_seconds")
      let snapshot := clampNumbers limits (withDefaults limits snapshot)
      let decision ← resolveRoutingDecision balancedScore snapshot availableProviders
        defaultProviderCatalog
      let snapshot := withRouting decision snapshot
      let policy ← RetryPolicy.fromSnapshot snapshot
      pure (snapshot.merge policy.asSnapshot)

end AgentRuntime.Domain
