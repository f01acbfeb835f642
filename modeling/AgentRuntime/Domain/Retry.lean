import AgentRuntime.Domain.Primitives
import AgentRuntime.Domain.Text

/-!
# Retry policies

The retry contract stored with every accepted run, how it is read back from the stored JSON
object, the bounded exponential delay, and which error codes are retried.

A `RetryPolicy` carries what `__post_init__` checks, so a policy that fails a check cannot be
built. `fromSnapshot` raises `ValueError` for everything it recognises as invalid; an integer
too large for a float escapes as `OverflowError` instead, because `math.isfinite` converts it
first.
-/

namespace AgentRuntime.Domain

open Lib

/-! ### Error codes -/

/-- The stable error codes of failed attempts. -/
inductive ExecutionErrorCode where
  | providerTimeout
  | providerRateLimited
  | providerUnavailable
  | providerServerError
  | providerAuthFailed
  | providerBadRequest
  | executionError
  | executionLeaseExpired
  | resourceQuotaExceeded
  deriving DecidableEq, Repr

/-- The stored text of an error code. -/
def ExecutionErrorCode.value : ExecutionErrorCode → String
  | .providerTimeout => "PROVIDER_TIMEOUT"
  | .providerRateLimited => "PROVIDER_RATE_LIMITED"
  | .providerUnavailable => "PROVIDER_UNAVAILABLE"
  | .providerServerError => "PROVIDER_SERVER_ERROR"
  | .providerAuthFailed => "PROVIDER_AUTH_FAILED"
  | .providerBadRequest => "PROVIDER_BAD_REQUEST"
  | .executionError => "EXECUTION_ERROR"
  | .executionLeaseExpired => "EXECUTION_LEASE_EXPIRED"
  | .resourceQuotaExceeded => "RESOURCE_QUOTA_EXCEEDED"

/-- All error codes. -/
def ExecutionErrorCode.all : List ExecutionErrorCode :=
  [.providerTimeout, .providerRateLimited, .providerUnavailable, .providerServerError,
    .providerAuthFailed, .providerBadRequest, .executionError, .executionLeaseExpired,
    .resourceQuotaExceeded]

/-- The codes after which an attempt is retried. -/
def retryableErrorCodes : List ExecutionErrorCode :=
  [.providerTimeout, .providerRateLimited, .providerUnavailable, .providerServerError,
    .executionError, .executionLeaseExpired]

/-- Whether a stored error code is retryable; a text that is no error code is not. -/
def isRetryableError (errorCode : String) : Bool :=
  match ExecutionErrorCode.all.find? fun c => c.value == errorCode with
  | some c => decide (c ∈ retryableErrorCodes)
  | none => false

/-- What `classify_exception` looks at in a raised exception. -/
structure RaisedException where
  isQuotaExceeded : Bool
  isTimeout : Bool
  statusCode : Option ℤ

/-- Map a provider-facing failure to its error code. -/
def classifyException (exc : RaisedException) : ExecutionErrorCode :=
  if exc.isQuotaExceeded then .resourceQuotaExceeded
  else if exc.isTimeout then .providerTimeout
  else if exc.statusCode = some 429 then .providerRateLimited
  else if exc.statusCode = some 401 ∨ exc.statusCode = some 403 then .providerAuthFailed
  else
    match exc.statusCode with
    | some code =>
      if 500 ≤ code ∧ code ≤ 599 then .providerServerError
      else if 400 ≤ code ∧ code ≤ 499 then .providerBadRequest
      else .executionError
    | none => .executionError

/-! ### Policies -/

/-- `not text.strip()`. -/
def isBlank (text : String) : Bool := text.toList.all isSpaceChar

/-- The immutable retry contract stored with each accepted run. -/
structure RetryPolicy where
  maxAttempts : ℕ
  attemptTimeoutSeconds : ℚ
  initialBackoffSeconds : ℚ
  maxBackoffSeconds : ℚ
  providerOrder : List String
  one_le_maxAttempts : 1 ≤ maxAttempts
  maxAttempts_le : maxAttempts ≤ 20
  timeout_pos : 0 < attemptTimeoutSeconds
  initial_pos : 0 < initialBackoffSeconds
  initial_le_max : initialBackoffSeconds ≤ maxBackoffSeconds
  providers_ne : providerOrder ≠ []
  providers_named : ∀ provider ∈ providerOrder, isBlank provider = false

namespace RetryPolicy

/-- `RetryPolicy(...)` with the checks of `__post_init__`. The numbers are finite floats. -/
def postInit (maxAttempts : ℕ) (timeout initial maxBackoff : ℚ) (providers : List String) :
    Except PyError RetryPolicy :=
  if hmax : 1 ≤ maxAttempts ∧ maxAttempts ≤ 20 then
    if ht : 0 < timeout then
      if hi : 0 < initial then
        if hb : initial ≤ maxBackoff then
          if hp : providers ≠ [] ∧ ∀ provider ∈ providers, isBlank provider = false then
            .ok ⟨maxAttempts, timeout, initial, maxBackoff, providers, hmax.1, hmax.2, ht, hi, hb,
              hp.1, hp.2⟩
          else .error (.valueError "provider_order must contain at least one non-empty provider")
        else .error (.valueError "max_backoff_seconds must be at least initial_backoff_seconds")
      else .error (.valueError "initial_backoff_seconds must be greater than 0")
    else .error (.valueError "attempt_timeout_seconds must be greater than 0")
  else .error (.valueError "max_attempts must be between 1 and 20")

/-- A bounded exponential delay in seconds; attempt one uses the initial delay. The product with
a power of two is exact, and one that overflows to infinity loses the minimum. -/
def delayAfterAttempt (p : RetryPolicy) (attemptNumber : ℕ) : Except PyError ℚ :=
  if attemptNumber < 1 then .error (.valueError "attempt_number must be at least 1")
  else .ok (max 1 (min p.maxBackoffSeconds
    (p.initialBackoffSeconds * 2 ^ min (attemptNumber - 1) 20)))

theorem delayAfterAttempt_ok (p : RetryPolicy) {n : ℕ} (h : 1 ≤ n) :
    ∃ delay, p.delayAfterAttempt n = .ok delay ∧ 1 ≤ delay :=
  ⟨_, if_neg (Nat.not_lt.mpr h), le_max_left _ _⟩

/-- The provider of attempt `attemptNumber`: the order is walked once and its last entry is kept. -/
def providerFor (p : RetryPolicy) (attemptNumber : ℕ) : String :=
  p.providerOrder.get ⟨min (attemptNumber - 1) (p.providerOrder.length - 1), by
    have := List.length_pos_iff.mpr p.providers_ne
    omega⟩

theorem getElem?_providerFor (p : RetryPolicy) (n : ℕ) :
    p.providerOrder[min (n - 1) (p.providerOrder.length - 1)]? = some (p.providerFor n) := by
  have hpos := List.length_pos_iff.mpr p.providers_ne
  rw [List.getElem?_eq_getElem (by omega)]
  rfl

end RetryPolicy

/-- A positive `int` that is no `bool`. -/
def positiveInt (value : Json) (name : String) : Except PyError ℕ :=
  match value with
  | .int n => if n < 1 then .error (.valueError (name ++ " must be a positive integer"))
      else .ok n.toNat
  | _ => .error (.valueError (name ++ " must be a positive integer"))

/-- A positive finite number as a float. `math.isfinite` converts an integer before anything
else is checked, so one beyond the float range raises `OverflowError`. -/
def positiveFloat (value : Json) (name : String) : Except PyError ℚ :=
  match value with
  | .int n =>
    match binary64 n with
    | none => .error (.overflowError "int too large to convert to float")
    | some q => if n ≤ 0 then .error (.valueError (name ++ " must be a positive number"))
        else .ok q
  | .float x =>
    match x.value? with
    | none => .error (.valueError (name ++ " must be a positive number"))
    | some q => if q ≤ 0 then .error (.valueError (name ++ " must be a positive number"))
        else .ok q
  | _ => .error (.valueError (name ++ " must be a positive number"))

/-- The strings of a JSON list, if it is a list of strings. -/
def stringList : Json → Option (List String)
  | .arr xs => xs.mapM fun x => match x with
      | .str s => some s
      | _ => none
  | _ => none

/-- Read the policy back from the stored object; missing fields take their defaults. -/
def RetryPolicy.fromSnapshot (value : JsonObject) : Except PyError RetryPolicy :=
  match stringList (value.getD "provider_order" (.arr [.str "deterministic"])) with
  | none => .error (.valueError "provider_order must be a list of strings")
  | some providers => do
      let maxAttempts ← positiveInt (value.getD "max_attempts" (.int 3)) "max_attempts"
      let timeout ← positiveFloat (value.getD "attempt_timeout_seconds" (.int 60))
        "attempt_timeout_seconds"
      let initial ← positiveFloat (value.getD "initial_backoff_seconds" (.int 1))
        "initial_backoff_seconds"
      let maxBackoff ← positiveFloat (value.getD "max_backoff_seconds" (.int 60))
        "max_backoff_seconds"
      RetryPolicy.postInit (min 20 maxAttempts) timeout initial maxBackoff providers

/-! ### What reading a policy raises -/

/-- An integer that no float can hold. -/
def ExceedsFloat : Json → Prop
  | .int n => binary64Limit ≤ |(n : ℚ)|
  | _ => False

/-- The stored numbers make `from_snapshot` raise `OverflowError`: everything before the first
number that is no positive float is valid, and that number is an integer beyond the float range. -/
structure OverflowingPolicy (value : JsonObject) : Prop where
  providers : (stringList (value.getD "provider_order" (.arr [.str "deterministic"]))).isSome
  attempts : ∃ n, positiveInt (value.getD "max_attempts" (.int 3)) "max_attempts" = .ok n
  number : ExceedsFloat (value.getD "attempt_timeout_seconds" (.int 60))
    ∨ ((∃ q, positiveFloat (value.getD "attempt_timeout_seconds" (.int 60))
          "attempt_timeout_seconds" = .ok q)
      ∧ (ExceedsFloat (value.getD "initial_backoff_seconds" (.int 1))
        ∨ ((∃ q, positiveFloat (value.getD "initial_backoff_seconds" (.int 1))
              "initial_backoff_seconds" = .ok q)
          ∧ ExceedsFloat (value.getD "max_backoff_seconds" (.int 60)))))

/-- The exceptions of reading a policy. -/
inductive PolicyError : PyError → Prop where
  | value (message : String) : PolicyError (.valueError message)
  | overflow (message : String) : PolicyError (.overflowError message)

/-- How a reading ends: with `OverflowError` exactly if `p`, with `ValueError` or a value
otherwise. -/
def Reads {α : Type} (x : Except PyError α) (p : Prop) : Prop :=
  (∃ a, x = .ok a ∧ ¬ p) ∨ (∃ message, x = .error (.valueError message) ∧ ¬ p)
    ∨ ∃ message, x = .error (.overflowError message) ∧ p

/-- One reading after another. -/
theorem Reads.bind {α β : Type} {x : Except PyError α} {f : α → Except PyError β} {p q : Prop}
    (hx : Reads x p) (hf : ∀ a, Reads (f a) q) : Reads (x.bind f) (p ∨ (∃ a, x = .ok a) ∧ q) := by
  rcases hx with ⟨a, rfl, hnot⟩ | ⟨message, rfl, hnot⟩ | ⟨message, rfl, hover⟩
  · simpa [hnot, Except.bind] using hf a
  · exact .inr (.inl ⟨message, rfl, by simp [hnot]⟩)
  · exact .inr (.inr ⟨message, rfl, .inl hover⟩)

theorem positiveInt_error {value : Json} {name : String} {e : PyError}
    (h : positiveInt value name = .error e) : ∃ message, e = .valueError message := by
  unfold positiveInt at h
  split at h
  · split_ifs at h
    exact ⟨_, (Except.error.inj h).symm⟩
  · exact ⟨_, (Except.error.inj h).symm⟩

theorem positiveFloat_int (n : ℤ) (name : String) :
    positiveFloat (.int n) name =
      match binary64 n with
      | none => .error (.overflowError "int too large to convert to float")
      | some q => if n ≤ 0 then .error (.valueError (name ++ " must be a positive number"))
          else .ok q := (rfl)

theorem positiveFloat_float (x : PyFloat) (name : String) :
    positiveFloat (.float x) name =
      match x.value? with
      | none => .error (.valueError (name ++ " must be a positive number"))
      | some q => if q ≤ 0 then .error (.valueError (name ++ " must be a positive number"))
          else .ok q := (rfl)

/-- A number raises `OverflowError` exactly when it is an integer beyond the float range. -/
theorem positiveFloat_cases (value : Json) (name : String) :
    Reads (positiveFloat value name) (ExceedsFloat value) := by
  cases value with
  | int n =>
    cases hn : binary64 n with
    | none =>
      refine .inr (.inr ⟨"int too large to convert to float", ?_, binary64_eq_none.mp hn⟩)
      rw [positiveFloat_int, hn]
    | some q =>
      have hnot : ¬ ExceedsFloat (.int n) := fun h => by
        rw [binary64_eq_none.mpr h] at hn
        exact absurd hn (by simp)
      by_cases hpos : n ≤ 0
      · refine .inr (.inl ⟨name ++ " must be a positive number", ?_, hnot⟩)
        rw [positiveFloat_int, hn]
        exact if_pos hpos
      · refine .inl ⟨q, ?_, hnot⟩
        rw [positiveFloat_int, hn]
        exact if_neg hpos
  | float x =>
    cases hx : x.value? with
    | none =>
      refine .inr (.inl ⟨name ++ " must be a positive number", ?_, not_false⟩)
      rw [positiveFloat_float, hx]
    | some q =>
      by_cases hpos : q ≤ 0
      · refine .inr (.inl ⟨name ++ " must be a positive number", ?_, not_false⟩)
        rw [positiveFloat_float, hx]
        exact if_pos hpos
      · refine .inl ⟨q, ?_, not_false⟩
        rw [positiveFloat_float, hx]
        exact if_neg hpos
  | _ => exact .inr (.inl ⟨_, rfl, not_false⟩)

namespace RetryPolicy

theorem postInit_error {maxAttempts : ℕ} {timeout initial maxBackoff : ℚ}
    {providers : List String} {e : PyError}
    (h : postInit maxAttempts timeout initial maxBackoff providers = .error e) :
    ∃ message, e = .valueError message := by
  unfold postInit at h
  split_ifs at h <;> exact ⟨_, (Except.error.inj h).symm⟩

/-- The part of `from_snapshot` after the providers and the attempts. -/
theorem fromSnapshot_numbers {value : JsonObject} {providers : List String} {n : ℕ}
    (hproviders : stringList (value.getD "provider_order" (.arr [.str "deterministic"]))
      = some providers)
    (hattempts : positiveInt (value.getD "max_attempts" (.int 3)) "max_attempts" = .ok n) :
    fromSnapshot value
      = (positiveFloat (value.getD "attempt_timeout_seconds" (.int 60))
          "attempt_timeout_seconds").bind fun timeout =>
        (positiveFloat (value.getD "initial_backoff_seconds" (.int 1))
          "initial_backoff_seconds").bind fun initial =>
        (positiveFloat (value.getD "max_backoff_seconds" (.int 60))
          "max_backoff_seconds").bind fun maxBackoff =>
        postInit (min 20 n) timeout initial maxBackoff providers := by
  simp only [fromSnapshot, hproviders, hattempts]
  rfl

/-- **What reading a policy raises**: `OverflowError` for overflowing numbers, `ValueError` for
everything else that is invalid. -/
theorem fromSnapshot_cases (value : JsonObject) :
    Reads (fromSnapshot value) (OverflowingPolicy value) := by
  cases hproviders : stringList (value.getD "provider_order" (.arr [.str "deterministic"])) with
  | none =>
    refine .inr (.inl ⟨"provider_order must be a list of strings", ?_, ?_⟩)
    · simp only [fromSnapshot, hproviders]
    · rintro ⟨hsome, -, -⟩
      rw [hproviders] at hsome
      exact absurd hsome Bool.false_ne_true
  | some providers =>
    cases hattempts : positiveInt (value.getD "max_attempts" (.int 3)) "max_attempts" with
    | error e =>
      obtain ⟨message, rfl⟩ := positiveInt_error hattempts
      refine .inr (.inl ⟨message, ?_, ?_⟩)
      · simp only [fromSnapshot, hproviders, hattempts]
        rfl
      · rintro ⟨-, ⟨n, hn⟩, -⟩
        exact absurd (hattempts.symm.trans hn) (by simp)
    | ok n =>
      have hover : OverflowingPolicy value ↔ _ :=
        ⟨OverflowingPolicy.number, fun h => ⟨by rw [hproviders]; rfl, ⟨n, hattempts⟩, h⟩⟩
      have hpost (t i b : ℚ) : Reads (postInit (min 20 n) t i b providers) False := by
        cases hpolicy : postInit (min 20 n) t i b providers with
        | ok policy => exact .inl ⟨policy, rfl, not_false⟩
        | error e =>
          obtain ⟨message, rfl⟩ := postInit_error hpolicy
          exact .inr (.inl ⟨message, rfl, not_false⟩)
      rw [hover, fromSnapshot_numbers hproviders hattempts]
      -- the three numbers in the order in which they are read
      refine (positiveFloat_cases _ _).bind fun timeout => ?_
      refine (positiveFloat_cases _ _).bind fun initial => ?_
      simpa using (positiveFloat_cases _ _).bind fun maxBackoff => hpost timeout initial maxBackoff

end RetryPolicy

end AgentRuntime.Domain
