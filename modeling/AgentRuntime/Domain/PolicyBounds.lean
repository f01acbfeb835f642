import AgentRuntime.Domain.Policy

/-!
# What a resolved policy promises

The numbers of a resolved policy are the requested ones, or the server's defaults, moved into the
server's limits. Over the rationals that is four clamps, and since every number is one that a float
holds exactly, the resolved policy reads back as the same numbers.

* `clamped_numbers`: the numbers of a clamped policy;
* `buildPolicySnapshot_ok_iff`: when a policy is resolved, and to what;
* `resolved_policy_executable`: a resolved policy is within the limits and can be executed;
* `valid_policy_resolved_iff`: which valid requests are resolved.
-/

namespace AgentRuntime.Domain

open Lib
open JsonObject (get? get?_set getD)

/-! ### Minimum and maximum -/

/-- A value that is a number. -/
def HasNumber (a : Json) (q : ℚ) : Prop := a.number? = some q ∧ binary64 q = some q

variable {a b : Json} {p q : ℚ}

theorem numberLt_iff (ha : a.number? = some p) (hb : b.number? = some q) :
    numberLt a b = true ↔ p < q := by
  unfold numberLt
  rw [ha, hb]
  exact decide_eq_true_iff

theorem HasNumber.pyMin (ha : HasNumber a p) (hb : HasNumber b q) :
    HasNumber (pyMin a b) (min p q) := by
  unfold Domain.pyMin
  split_ifs with hlt
  · rw [min_eq_right ((numberLt_iff hb.1 ha.1).mp hlt).le]
    exact hb
  · rw [numberLt_iff hb.1 ha.1, not_lt] at hlt
    rw [min_eq_left hlt]
    exact ha

theorem HasNumber.pyMax (ha : HasNumber a p) (hb : HasNumber b q) :
    HasNumber (pyMax a b) (max p q) := by
  unfold Domain.pyMax
  split_ifs with hlt
  · rw [max_eq_right ((numberLt_iff ha.1 hb.1).mp hlt).le]
    exact hb
  · rw [numberLt_iff ha.1 hb.1, not_lt] at hlt
    rw [max_eq_left hlt]
    exact ha

theorem pyMin_int (m n : ℤ) : pyMin (.int m) (.int n) = .int (min m n) := by
  have hlt : numberLt (.int n) (.int m) = true ↔ n < m := by
    rw [numberLt_iff rfl rfl, Int.cast_lt]
  unfold pyMin
  split_ifs with h
  · rw [min_eq_right (hlt.mp h).le]
  · rw [min_eq_left (not_lt.mp fun h' => h (hlt.mpr h'))]

theorem PyNumber.hasNumber (n : PyNumber) : HasNumber n.json n.value := ⟨n.reads, n.exact⟩

theorem hasNumber_one : HasNumber (.int 1) 1 := ⟨rfl, by decide +kernel⟩

theorem hasNumber_float {x : PyFloat} {q : ℚ} (h : x.value? = some q) : HasNumber (.float x) q := by
  refine ⟨h, ?_⟩
  cases x with
  | finite t => exact binary64_idem h
  | _ => cases h

theorem HasNumber.positiveFloat {a : Json} {q : ℚ} (h : HasNumber a q) (hpos : 0 < q)
    (name : String) : Domain.positiveFloat a name = .ok q := by
  obtain ⟨hread, hexact⟩ := h
  cases a with
  | int n =>
    obtain rfl : (n : ℚ) = q := Option.some.inj hread
    rw [positiveFloat_int, hexact]
    exact if_neg (not_le.mpr (by exact_mod_cast hpos))
  | float x =>
    rw [positiveFloat_float, show x.value? = some q from hread]
    exact if_neg (not_le.mpr hpos)
  | _ => cases hread

/-! ### The requested numbers -/

/-- The number of an optional field, or a default. -/
def requestedNumber (field : Option PyFloat) (fallback : ℚ) : ℚ :=
  (field.bind PyFloat.value?).getD fallback

theorem floatWithin_iff {low high : ℚ} {x : PyFloat} :
    FloatWithin low high x ↔ ∃ q, x.value? = some q ∧ low ≤ q ∧ q ≤ high := by
  unfold FloatWithin
  cases x.value? <;> simp

variable {field : Option PyFloat}

theorem hasNumber_getD {low high : ℚ} (hfield : ∀ x ∈ field, FloatWithin low high x)
    (n : PyNumber) :
    HasNumber ((field.map Json.float).getD n.json) (requestedNumber field n.value) := by
  cases field with
  | none => exact n.hasNumber
  | some x =>
    obtain ⟨q, hq, -⟩ := floatWithin_iff.mp (hfield x rfl)
    have hvalue : requestedNumber (some x) n.value = q := by
      show (x.value?).getD n.value = q
      rw [hq]
      rfl
    rw [hvalue]
    exact hasNumber_float hq

theorem PolicyFields.get?_modelDump (fields : PolicyFields) {key : String} {field : Option Json}
    (h : (key, field) ∈ fields.members) : get? fields.modelDump key = field := by
  have hnodup : (fields.members.map Prod.fst).Nodup := by
    show policyFieldNames.Nodup
    decide
  exact JsonObject.get?_present hnodup h

/-! ### What the numbers resolve to -/

/-- The numbers of a resolved policy. -/
structure ResolvedNumbers where
  attempts : ℤ
  timeout : ℚ
  initial : ℚ
  maxBackoff : ℚ
  tokens : ℤ

/-- The requested numbers, or the server's, within the server's limits. -/
def resolvedNumbers (fields : PolicyFields) (limits : ServerLimits) : ResolvedNumbers :=
  let initial := min limits.maxBackoffSeconds.value (max (max 1 limits.initialBackoffSeconds.value)
    (requestedNumber fields.initialBackoffSeconds limits.initialBackoffSeconds.value))
  { attempts := min (fields.maxAttempts.getD limits.maxAttempts) limits.maxAttempts
    timeout := min (requestedNumber fields.attemptTimeoutSeconds limits.attemptTimeoutSeconds.value)
      limits.attemptTimeoutSeconds.value
    initial := initial
    maxBackoff := max initial (min (requestedNumber fields.maxBackoffSeconds
      limits.maxBackoffSeconds.value) limits.maxBackoffSeconds.value)
    tokens := min (fields.maxOutputTokens.getD limits.maxOutputTokens) limits.maxOutputTokens }

/-- The numbers are positive and at most the server's, and the backoff starts no lower than the
server's. -/
structure ResolvedNumbers.Within (n : ResolvedNumbers) (limits : ServerLimits) : Prop where
  one_le_attempts : 1 ≤ n.attempts
  attempts_le : n.attempts ≤ limits.maxAttempts
  timeout_pos : 0 < n.timeout
  timeout_le : n.timeout ≤ limits.attemptTimeoutSeconds.value
  initial_le : limits.initialBackoffSeconds.value ≤ n.initial
  initial_le_max : n.initial ≤ n.maxBackoff
  max_le : n.maxBackoff ≤ limits.maxBackoffSeconds.value
  one_le_tokens : 1 ≤ n.tokens
  tokens_le : n.tokens ≤ limits.maxOutputTokens

theorem one_le_requestedNumber {high fallback : ℚ} (hfield : ∀ x ∈ field, FloatWithin 1 high x)
    (hfallback : 1 ≤ fallback) : 1 ≤ requestedNumber field fallback := by
  cases field with
  | none => exact hfallback
  | some x =>
    obtain ⟨q, hq, hone, -⟩ := floatWithin_iff.mp (hfield x rfl)
    show 1 ≤ (x.value?).getD fallback
    rw [hq]
    exact hone

theorem one_le_getD {field : Option ℤ} {high fallback : ℤ}
    (hfield : ∀ n ∈ field, 1 ≤ n ∧ n ≤ high) (hfallback : 1 ≤ fallback) :
    1 ≤ field.getD fallback := by
  cases field with
  | none => exact hfallback
  | some n => exact (hfield n rfl).1

variable {fields : PolicyFields}

/-- **The clamps establish the limits**, whatever was asked for. -/
theorem resolvedNumbers_within (hfields : fields.Valid) {limits : ServerLimits}
    (hlimits : limits.Allowed) :
    (resolvedNumbers fields limits).Within limits where
  one_le_attempts := le_min (one_le_getD hfields.attempts hlimits.one_le_attempts)
    hlimits.one_le_attempts
  attempts_le := min_le_right _ _
  timeout_pos := one_pos.trans_le
    (le_min (one_le_requestedNumber hfields.timeout hlimits.one_le_timeout) hlimits.one_le_timeout)
  timeout_le := min_le_right _ _
  initial_le := le_min hlimits.initial_le_max ((le_max_right _ _).trans (le_max_left _ _))
  initial_le_max := le_max_left _ _
  max_le := max_le (min_le_left _ _) (min_le_right _ _)
  one_le_tokens := le_min (one_le_getD hfields.tokens hlimits.one_le_tokens) hlimits.one_le_tokens
  tokens_le := min_le_right _ _

/-! ### Clamped numbers -/

/-- The clamped fields of an object. -/
theorem get?_clampNumbers (limits : ServerLimits) (object : JsonObject) :
    let clamped := clampNumbers limits (withDefaults limits object)
    let initial := pyMin limits.maxBackoffSeconds.json
      (pyMax (pyMax (.int 1) limits.initialBackoffSeconds.json)
        (getD object "initial_backoff_seconds" limits.initialBackoffSeconds.json))
    get? clamped "max_attempts"
        = some (pyMin (getD object "max_attempts" (.int limits.maxAttempts))
            (.int limits.maxAttempts))
      ∧ get? clamped "attempt_timeout_seconds"
        = some (pyMin (getD object "attempt_timeout_seconds"
            limits.attemptTimeoutSeconds.json) limits.attemptTimeoutSeconds.json)
      ∧ get? clamped "initial_backoff_seconds" = some initial
      ∧ get? clamped "max_backoff_seconds"
        = some (pyMax initial (pyMin (getD object "max_backoff_seconds"
            limits.maxBackoffSeconds.json) limits.maxBackoffSeconds.json))
      ∧ get? clamped "max_output_tokens"
        = some (pyMin (getD object "max_output_tokens" (.int limits.maxOutputTokens))
            (.int limits.maxOutputTokens)) := by
  intro clamped initial
  simp [clamped, initial, clampNumbers, withDefaults, JsonObject.item, getD,
    get?_set, JsonObject.get?_setDefault]

/-- The other fields are kept. -/
theorem get?_clampNumbers_other (limits : ServerLimits) (object : JsonObject) :
    get? (clampNumbers limits (withDefaults limits object)) "provider_order"
        = get? object "provider_order"
      ∧ get? (clampNumbers limits (withDefaults limits object)) "routing"
        = get? object "routing" := by
  simp [clampNumbers, withDefaults, get?_set, JsonObject.get?_setDefault]

/-- An object has the numbers of a resolved policy. -/
structure Carries (object : JsonObject) (n : ResolvedNumbers) : Prop where
  attempts : get? object "max_attempts" = some (.int n.attempts)
  timeout : ∃ a, get? object "attempt_timeout_seconds" = some a
    ∧ HasNumber a n.timeout
  initial : ∃ a, get? object "initial_backoff_seconds" = some a
    ∧ HasNumber a n.initial
  maxBackoff : ∃ a, get? object "max_backoff_seconds" = some a
    ∧ HasNumber a n.maxBackoff
  tokens : get? object "max_output_tokens" = some (.int n.tokens)

theorem PolicyFields.number_getD (fields : PolicyFields) (key : String) {high : ℚ}
    (hmem : (key, field.map Json.float) ∈ fields.members)
    (hfield : ∀ x ∈ field, FloatWithin 1 high x) (n : PyNumber) :
    HasNumber (getD fields.modelDump key n.json) (requestedNumber field n.value) := by
  unfold getD
  rw [fields.get?_modelDump hmem]
  exact hasNumber_getD hfield n

theorem PolicyFields.int_getD (fields : PolicyFields) (key : String) (field : Option ℤ)
    (hmem : (key, field.map Json.int) ∈ fields.members) (n : ℤ) :
    getD fields.modelDump key (.int n) = .int (field.getD n) := by
  unfold getD
  rw [fields.get?_modelDump hmem]
  cases field with
  | none => rfl
  | some m => rfl

/-- **The clamps compute the resolved numbers.** -/
theorem clamped_numbers (hfields : fields.Valid) (limits : ServerLimits) :
    Carries (clampNumbers limits (withDefaults limits fields.modelDump))
      (resolvedNumbers fields limits) := by
  obtain ⟨hattempts, htimeout, hinitial, hmax, htokens⟩ :=
    get?_clampNumbers limits fields.modelDump
  have hrequested := fields.number_getD "initial_backoff_seconds" (by simp [PolicyFields.members])
    hfields.initial limits.initialBackoffSeconds
  have hclamped := limits.maxBackoffSeconds.hasNumber.pyMin
    ((hasNumber_one.pyMax limits.initialBackoffSeconds.hasNumber).pyMax hrequested)
  constructor
  · rw [hattempts, fields.int_getD "max_attempts" fields.maxAttempts
      (by simp [PolicyFields.members]), pyMin_int]
    rfl
  · have hnumber := fields.number_getD "attempt_timeout_seconds" (by simp [PolicyFields.members])
      hfields.timeout limits.attemptTimeoutSeconds
    exact ⟨_, htimeout, hnumber.pyMin limits.attemptTimeoutSeconds.hasNumber⟩
  · exact ⟨_, hinitial, hclamped⟩
  · have hnumber := fields.number_getD "max_backoff_seconds" (by simp [PolicyFields.members])
      hfields.maxBackoff limits.maxBackoffSeconds
    exact ⟨_, hmax, hclamped.pyMax (hnumber.pyMin limits.maxBackoffSeconds.hasNumber)⟩
  · rw [htokens, fields.int_getD "max_output_tokens" fields.maxOutputTokens
      (by simp [PolicyFields.members]), pyMin_int]
    rfl

/-! ### Reading the policy back -/

theorem RetryPolicy.postInit_ok {attempts : ℕ} {timeout initial maxBackoff : ℚ}
    {providers : List String} (hattempts : 1 ≤ attempts ∧ attempts ≤ 20) (htimeout : 0 < timeout)
    (hinitial : 0 < initial) (hmax : initial ≤ maxBackoff)
    (hproviders : providers ≠ [] ∧ ∀ provider ∈ providers, isBlank provider = false) :
    postInit attempts timeout initial maxBackoff providers
      = .ok ⟨attempts, timeout, initial, maxBackoff, providers, hattempts.1, hattempts.2, htimeout,
          hinitial, hmax, hproviders.1, hproviders.2⟩ := by
  unfold postInit
  rw [dif_pos hattempts, dif_pos htimeout, dif_pos hinitial, dif_pos hmax, dif_pos hproviders]

section Resolved

variable [FloatRepr] {object : JsonObject} {n : ResolvedNumbers} {limits : ServerLimits}
  {providers : List String}

omit [FloatRepr] in
/-- An object that carries numbers within the limits and names providers reads as a policy. -/
theorem Carries.fromSnapshot (h : Carries object n) (hwithin : n.Within limits)
    (hlimits : limits.Allowed)
    (hproviders : get? object "provider_order" = some (namesJson providers))
    (hnonempty : providers ≠ []) (hnamed : ∀ name ∈ providers, isBlank name = false) :
    ∃ policy, RetryPolicy.fromSnapshot object = .ok policy
      ∧ (policy.maxAttempts : ℤ) = n.attempts
      ∧ policy.attemptTimeoutSeconds = n.timeout ∧ policy.initialBackoffSeconds = n.initial
      ∧ policy.maxBackoffSeconds = n.maxBackoff ∧ policy.providerOrder = providers := by
  obtain ⟨t, hreadT, ht⟩ := h.timeout
  obtain ⟨i, hreadI, hi⟩ := h.initial
  obtain ⟨b, hreadB, hb⟩ := h.maxBackoff
  have hone := hlimits.one_le_initial.trans hwithin.initial_le
  have hattempts : positiveInt (object.getD "max_attempts" (.int 3)) "max_attempts"
      = .ok n.attempts.toNat := by
    have hitem : object.getD "max_attempts" (.int 3) = .int n.attempts := by
      unfold getD
      rw [h.attempts]
      rfl
    rw [hitem]
    exact if_neg (not_lt.mpr hwithin.one_le_attempts)
  have hlist : stringList (object.getD "provider_order" (.arr [.str "deterministic"]))
      = some providers := by
    unfold getD
    rw [hproviders]
    exact stringList_strings providers
  have hread := RetryPolicy.fromSnapshot_numbers hlist hattempts
  unfold getD at hread
  rw [hreadT, hreadI, hreadB] at hread
  simp only [Option.getD_some, ht.positiveFloat hwithin.timeout_pos,
    hi.positiveFloat (one_pos.trans_le hone),
    hb.positiveFloat (one_pos.trans_le (hone.trans hwithin.initial_le_max))] at hread
  have hlow := hwithin.one_le_attempts
  have hhigh := hwithin.attempts_le.trans hlimits.attempts_le
  have hinitial := one_pos.trans_le hone
  refine ⟨_, hread.trans (RetryPolicy.postInit_ok (by omega) hwithin.timeout_pos hinitial
    hwithin.initial_le_max ⟨hnonempty, hnamed⟩), ?_, rfl, rfl, rfl, rfl⟩
  show ((min 20 n.attempts.toNat : ℕ) : ℤ) = n.attempts
  omega

theorem asSnapshot_nodup (policy : RetryPolicy) : (policy.asSnapshot.map Prod.fst).Nodup := by
  show ["max_attempts", "attempt_timeout_seconds", "initial_backoff_seconds",
    "max_backoff_seconds", "provider_order"].Nodup
  decide

/-- Merging what was read leaves the numbers as they are. -/
theorem Carries.merge {policy : RetryPolicy} (h : Carries object n)
    (hattempts : (policy.maxAttempts : ℤ) = n.attempts)
    (htimeout : policy.attemptTimeoutSeconds = n.timeout)
    (hinitial : policy.initialBackoffSeconds = n.initial)
    (hmax : policy.maxBackoffSeconds = n.maxBackoff) :
    Carries (object.merge policy.asSnapshot) n := by
  have hmerged {key : String} {value : Json} (hmem : (key, value) ∈ policy.asSnapshot) :
      get? (object.merge policy.asSnapshot) key = some value :=
    JsonObject.get?_merge_of_mem (asSnapshot_nodup policy) hmem
  have hnumber {a : Json} {q : ℚ} (ha : HasNumber a q) :
      HasNumber (.float (.finite (FloatRepr.repr q))) q :=
    ⟨FloatRepr.value?_repr ha.2, ha.2⟩
  obtain ⟨_, -, ht⟩ := h.timeout
  obtain ⟨_, -, hi⟩ := h.initial
  obtain ⟨_, -, hb⟩ := h.maxBackoff
  constructor
  · rw [← hattempts]
    exact hmerged (by simp [RetryPolicy.asSnapshot])
  · rw [← htimeout] at ht ⊢
    exact ⟨_, hmerged (by simp [RetryPolicy.asSnapshot]), hnumber ht⟩
  · rw [← hinitial] at hi ⊢
    exact ⟨_, hmerged (by simp [RetryPolicy.asSnapshot]), hnumber hi⟩
  · rw [← hmax] at hb ⊢
    exact ⟨_, hmerged (by simp [RetryPolicy.asSnapshot]), hnumber hb⟩
  · rw [JsonObject.get?_merge_of_not_mem (by simp [RetryPolicy.asSnapshot])]
    exact h.tokens

end Resolved

/-! ### Routing a request -/

/-- The candidates of a request: those of the routing, else the provider order, else the default. -/
def PolicyFields.candidates (fields : PolicyFields) : List String :=
  (fields.routing.bind RoutingRequest.candidates).getD
    (fields.providerOrder.getD ["deterministic"])

def PolicyFields.strategy (fields : PolicyFields) : RoutingStrategy :=
  (fields.routing.map RoutingRequest.strategy).getD .balanced

theorem PolicyFields.provider_order_getD (fields : PolicyFields) :
    getD fields.modelDump "provider_order" (.arr [.str "deterministic"])
      = namesJson (fields.providerOrder.getD ["deterministic"]) := by
  have hdump : get? fields.modelDump "provider_order"
      = fields.providerOrder.map namesJson := fields.get?_modelDump (by simp [members])
  unfold getD
  rw [hdump]
  cases fields.providerOrder with
  | none => rfl
  | some names => rfl

theorem asks_clamped (fields : PolicyFields) (limits : ServerLimits) :
    Asks (clampNumbers limits (withDefaults limits fields.modelDump)) fields.strategy
      fields.candidates := by
  obtain ⟨horder, hrouting⟩ := get?_clampNumbers_other limits fields.modelDump
  have hproviders := fields.provider_order_getD
  unfold getD at hproviders
  rw [← horder] at hproviders
  have hdump : get? fields.modelDump "routing"
      = fields.routing.map RoutingRequest.modelDump :=
    fields.get?_modelDump (by simp [PolicyFields.members])
  rw [hdump] at hrouting
  constructor
  unfold PolicyFields.strategy PolicyFields.candidates requestedCandidates getD
  rw [hrouting, hproviders]
  cases fields.routing with
  | none => exact ⟨[], rfl, by decide, rfl⟩
  | some routing =>
    obtain ⟨strategy, candidates⟩ := routing
    cases candidates with
    | none => exact ⟨_, rfl, strategy.ofValue?_value, rfl⟩
    | some names => exact ⟨_, rfl, strategy.ofValue?_value, rfl⟩

theorem PolicyFields.Valid.known (h : fields.Valid) : KnownProviders fields.candidates := by
  have hdefault : KnownProviders (fields.providerOrder.getD ["deterministic"]) := by
    cases horder : fields.providerOrder with
    | none => decide
    | some names => exact h.providers names horder
  unfold PolicyFields.candidates
  cases hrouting : fields.routing with
  | none => exact hdefault
  | some routing =>
    cases hnames : routing.candidates with
    | none =>
      rw [Option.bind_some, hnames]
      exact hdefault
    | some names =>
      rw [Option.bind_some, hnames]
      exact h.candidates routing hrouting names hnames

/-- Known providers can be candidates of the default catalog. -/
theorem KnownProviders.admissible {names : List String} (h : KnownProviders names)
    (hnodup : names.Nodup) : Admissible defaultProviderCatalog names where
  nonempty := fun hnil => by
    rw [hnil] at h
    exact absurd h.1 (by decide)
  named := fun name hname => by
    rcases h.2.2 name hname with rfl | rfl
    · decide
    · decide
  nodup := hnodup
  known := fun name hname => by
    rcases h.2.2 name hname with rfl | rfl
    · decide
    · decide

/-- Every provider of the default catalog has a balanced score. -/
theorem weightedSum_default : ∀ entry ∈ defaultProviderCatalog,
    (match weightedSum entry.2 with
      | .ok (.finite q) => (binary64 (roundTo 6 q)).isSome
      | _ => false) = true := by
  decide +kernel

theorem rankable_default [FloatRepr] (strategy : RoutingStrategy) {name : String}
    {m : ProviderHistoricalMetrics} (h : defaultProviderCatalog.get? name = some m) :
    Rankable balancedScore strategy m := by
  obtain ⟨entry, hentry, rfl⟩ := Option.map_eq_some_iff.mp h
  have hmem := List.mem_of_find?_eq_some hentry
  have hrates : RatesComparable entry.2 := by
    rcases List.mem_cons.mp hmem with rfl | hmem
    · exact ⟨by decide, by decide⟩
    · obtain rfl := List.mem_singleton.mp hmem
      exact ⟨by decide, by decide⟩
  have hfloats : (binary64 entry.2.medianLatencyMs).isSome
      ∧ (binary64 entry.2.estimatedCostMicrousd).isSome := by
    rcases List.mem_cons.mp hmem with rfl | hmem
    · exact ⟨by decide +kernel, by decide +kernel⟩
    · obtain rfl := List.mem_singleton.mp hmem
      exact ⟨by decide +kernel, by decide +kernel⟩
  cases strategy with
  | lowestLatency => exact ⟨hrates, hfloats.1⟩
  | lowestCost => exact ⟨hrates, hfloats.2⟩
  | qualityFirst => exact hrates
  | balanced =>
    have hsum := weightedSum_default entry hmem
    cases hweighted : weightedSum entry.2 with
    | error e => simp [hweighted] at hsum
    | ok x =>
      rw [hweighted] at hsum
      cases x with
      | finite q =>
        obtain ⟨r, hr⟩ := Option.isSome_iff_exists.mp hsum
        obtain ⟨t, ht⟩ := roundFloat_finite hr
        refine ⟨.finite t, ?_, by simp⟩
        unfold balancedScore
        rw [hweighted]
        exact ht
      | infinity => cases hsum
      | negInfinity => cases hsum
      | nan => cases hsum

/-! ### Resolving a request -/

section Build

variable [FloatRepr] {requested : JsonObject} {request : RunPolicyRequest} {limits : ServerLimits}
  {availableProviders : Option (List String)}

/-- The clamped numbers of a request. -/
def clampedRequest (request : RunPolicyRequest) (limits : ServerLimits) : JsonObject :=
  clampNumbers limits (withDefaults limits request.modelDump)

/-- The upper bound of the backoff, as given or by default, is below the lower one. -/
def Crossing (fields : PolicyFields) (limits : ServerLimits) : Prop :=
  requestedNumber fields.maxBackoffSeconds limits.maxBackoffSeconds.value
    < requestedNumber fields.initialBackoffSeconds limits.initialBackoffSeconds.value

instance (fields : PolicyFields) (limits : ServerLimits) : Decidable (Crossing fields limits) :=
  inferInstanceAs (Decidable (_ < _))

/-- The steps after the check of the two bounds. -/
def routeAndRead (clamped : JsonObject) (availableProviders : Option (List String)) :
    Except PyError JsonObject :=
  (resolveRoutingDecision balancedScore clamped availableProviders defaultProviderCatalog).bind
    fun decision =>
      (RetryPolicy.fromSnapshot (withRouting decision clamped)).bind fun policy =>
        .ok ((withRouting decision clamped).merge policy.asSnapshot)

theorem buildPolicySnapshot_eq
    (haccepted : RunPolicyRequest.modelValidate requested = some request) :
    buildPolicySnapshot requested limits availableProviders
      = if Crossing request.toPolicyFields limits then
          .error (.valueError "max_backoff_seconds must be at least initial_backoff_seconds")
        else routeAndRead (clampedRequest request limits) availableProviders := by
  have hmax := request.number_getD "max_backoff_seconds" (by simp [PolicyFields.members])
    request.valid.maxBackoff limits.maxBackoffSeconds
  have hinitial := request.number_getD "initial_backoff_seconds" (by simp [PolicyFields.members])
    request.valid.initial limits.initialBackoffSeconds
  have hcross := numberLt_iff hmax.1 hinitial.1
  unfold buildPolicySnapshot
  rw [haccepted]
  dsimp only
  by_cases h : Crossing request.toPolicyFields limits
  · rw [if_pos (hcross.mpr h), if_pos h]
    rfl
  · rw [if_neg fun hlt => h (hcross.mp hlt), if_neg h]
    rfl

variable {decision : RoutingDecision}

/-- A decision about a request. -/
theorem request_decision
    (h : resolveRoutingDecision balancedScore (clampedRequest request limits) availableProviders
      defaultProviderCatalog = .ok decision) :
    decision.providerOrder.Perm
        (request.candidates.filter (isAvailable availableProviders defaultProviderCatalog))
      ∧ decision.providerOrder ≠ [] ∧ decision.providerOrder.Nodup
      ∧ ∀ name ∈ decision.providerOrder, isBlank name = false := by
  have hasks := asks_clamped request.toPolicyFields limits
  obtain ⟨hadmissible, hmeets⟩ := hasks.usable_of_ok h
  obtain ⟨ranked, decision', -, -, hresolve, -, -, hperm, hselected, -⟩ :=
    hasks.resolve_ok keyed_default hadmissible hmeets
      fun name _ _ m hm => rankable_default _ hm
  obtain rfl : decision = decision' := Except.ok.inj (h.symm.trans hresolve)
  refine ⟨hperm, ?_, hperm.nodup_iff.mpr (hadmissible.nodup.filter _), ?_⟩
  · intro hnil
    rw [hnil] at hselected
    cases hselected
  · intro name hname
    exact hadmissible.named name (List.mem_filter.mp (hperm.mem_iff.mp hname)).1

omit [FloatRepr] in
/-- The numbers do not depend on the routing. -/
theorem Carries.withRouting {object : JsonObject} {n : ResolvedNumbers} (h : Carries object n)
    (decision : RoutingDecision) : Carries (withRouting decision object) n := by
  have hother {key : String} (hkey : key ≠ "provider_order") (hkey' : key ≠ "routing") :
      get? (Domain.withRouting decision object) key = get? object key := by
    unfold Domain.withRouting
    rw [get?_set, if_neg hkey', get?_set, if_neg hkey]
  constructor
  · rw [hother (by decide) (by decide)]
    exact h.attempts
  · rw [hother (by decide) (by decide)]
    exact h.timeout
  · rw [hother (by decide) (by decide)]
    exact h.initial
  · rw [hother (by decide) (by decide)]
    exact h.maxBackoff
  · rw [hother (by decide) (by decide)]
    exact h.tokens

/-- **A routed request is resolved**, and what it resolves to is read back as it was written. -/
theorem routeAndRead_ok (hlimits : limits.Allowed)
    (h : resolveRoutingDecision balancedScore (clampedRequest request limits) availableProviders
      defaultProviderCatalog = .ok decision) :
    ∃ s, routeAndRead (clampedRequest request limits) availableProviders = .ok s
      ∧ Carries s (resolvedNumbers request.toPolicyFields limits)
      ∧ get? s "provider_order" = some (namesJson decision.providerOrder)
      ∧ ∃ policy, RetryPolicy.fromSnapshot s = .ok policy
          ∧ ∀ field ∈ policy.asSnapshot, get? s field.1 = some field.2 := by
  obtain ⟨-, hnonempty, -, hnamed⟩ := request_decision h
  have hwithin := resolvedNumbers_within request.valid hlimits
  have hclamped : Carries (clampedRequest request limits)
      (resolvedNumbers request.toPolicyFields limits) := clamped_numbers request.valid limits
  have hcarries := hclamped.withRouting decision
  have hproviders : get? (withRouting decision (clampedRequest request limits))
      "provider_order" = some (namesJson decision.providerOrder) := by
    unfold withRouting
    rw [get?_set, if_neg (by decide), get?_set, if_pos rfl]
  obtain ⟨policy, hpolicy, hattempts, htimeout, hinitial, hmax, horder⟩ :=
    hcarries.fromSnapshot hwithin hlimits hproviders hnonempty hnamed
  have hmerged := hcarries.merge hattempts htimeout hinitial hmax
  have hfields : ∀ field ∈ policy.asSnapshot, get?
      ((withRouting decision (clampedRequest request limits)).merge policy.asSnapshot) field.1
        = some field.2 := fun field hfield => JsonObject.get?_merge_of_mem (asSnapshot_nodup policy) hfield
  have horder' := hfields ("provider_order", namesJson policy.providerOrder)
    (by simp [RetryPolicy.asSnapshot])
  rw [horder] at horder'
  -- read again: the same numbers and the same providers, so the same fields
  obtain ⟨policy', hpolicy', hattempts', htimeout', hinitial', hmax', horder''⟩ :=
    hmerged.fromSnapshot hwithin hlimits horder' hnonempty hnamed
  have hsame : policy'.asSnapshot = policy.asSnapshot := by
    unfold RetryPolicy.asSnapshot
    rw [hattempts, hattempts', htimeout, htimeout', hinitial, hinitial', hmax, hmax', horder,
      horder'']
  refine ⟨_, ?_, hmerged, horder', policy', hpolicy', ?_⟩
  · simp only [routeAndRead, h, hpolicy, Except.bind]
  · rw [hsame]
    exact hfields

/-- A requested value within the server's range is kept. -/
structure Kept (fields : PolicyFields) (limits : ServerLimits) (n : ResolvedNumbers) : Prop where
  attempts : ∀ m ∈ fields.maxAttempts, m ≤ limits.maxAttempts → n.attempts = m
  timeout : ∀ x ∈ fields.attemptTimeoutSeconds, ∀ q, x.value? = some q →
    q ≤ limits.attemptTimeoutSeconds.value → n.timeout = q
  initial : ∀ x ∈ fields.initialBackoffSeconds, ∀ q, x.value? = some q →
    limits.initialBackoffSeconds.value ≤ q → q ≤ limits.maxBackoffSeconds.value → n.initial = q
  maxBackoff : ∀ x ∈ fields.maxBackoffSeconds, ∀ q, x.value? = some q →
    limits.initialBackoffSeconds.value ≤ q → q ≤ limits.maxBackoffSeconds.value →
      n.maxBackoff = q
  tokens : ∀ m ∈ fields.maxOutputTokens, m ≤ limits.maxOutputTokens → n.tokens = m

omit [FloatRepr] in
theorem resolvedNumbers_kept (hlimits : limits.Allowed) (hcross : ¬ Crossing fields limits) :
    Kept fields limits (resolvedNumbers fields limits) := by
  have hrequested {field : Option PyFloat} {x : PyFloat} {q fallback : ℚ} (hx : x ∈ field)
      (hq : x.value? = some q) : requestedNumber field fallback = q := by
    obtain rfl := hx
    show (x.value?).getD fallback = q
    rw [hq]
    rfl
  have hone := hlimits.one_le_initial
  constructor
  · intro m hm hle
    show min (fields.maxAttempts.getD limits.maxAttempts) limits.maxAttempts = m
    rw [show fields.maxAttempts = some m from hm]
    exact min_eq_left hle
  · intro x hx q hq hle
    show min (requestedNumber _ _) _ = q
    rw [hrequested hx hq]
    exact min_eq_left hle
  · intro x hx q hq hlow hhigh
    show min _ (max (max 1 _) (requestedNumber _ _)) = q
    rw [hrequested hx hq, max_eq_right (max_le (hone.trans hlow) hlow), min_eq_right hhigh]
  · intro x hx q hq hlow hhigh
    unfold Crossing at hcross
    rw [hrequested hx hq, not_lt] at hcross
    show max (min _ (max (max 1 _) (requestedNumber _ _))) (min (requestedNumber _ _) _) = q
    rw [hrequested hx hq, min_eq_left hhigh]
    exact max_eq_right ((min_le_right _ _).trans (max_le (max_le (hone.trans hlow) hlow) hcross))
  · intro m hm hle
    show min (fields.maxOutputTokens.getD limits.maxOutputTokens) limits.maxOutputTokens = m
    rw [show fields.maxOutputTokens = some m from hm]
    exact min_eq_left hle

/-- **A resolved policy can be executed within the server's limits.** Its numbers are positive and
at most the server's, its backoff starts no lower than the server's and does not exceed its own
maximum, requested values within the server's range are kept, its providers are exactly the
available candidates, and reading it as a retry policy gives back what it says. -/
theorem resolved_policy_executable
    (haccepted : RunPolicyRequest.modelValidate requested = some request)
    (hlimits : limits.Allowed) {s : JsonObject}
    (hbuild : buildPolicySnapshot requested limits availableProviders = .ok s) :
    ∃ n providers, Carries s n ∧ n.Within limits ∧ Kept request.toPolicyFields limits n
      ∧ get? s "provider_order" = some (namesJson providers)
      ∧ providers ≠ [] ∧ providers.Nodup
      ∧ (∀ name, name ∈ providers ↔ name ∈ request.candidates
          ∧ isAvailable availableProviders defaultProviderCatalog name = true)
      ∧ ∃ policy, RetryPolicy.fromSnapshot s = .ok policy
          ∧ ∀ field ∈ policy.asSnapshot, get? s field.1 = some field.2 := by
  rw [buildPolicySnapshot_eq haccepted] at hbuild
  split at hbuild
  · cases hbuild
  · rename_i hcross
    cases hdecision : resolveRoutingDecision balancedScore (clampedRequest request limits)
        availableProviders defaultProviderCatalog with
    | error e =>
      unfold routeAndRead at hbuild
      rw [hdecision] at hbuild
      cases hbuild
    | ok decision =>
      obtain ⟨s', hs', hcarries, horder, hread⟩ := routeAndRead_ok hlimits hdecision
      obtain rfl : s' = s := Except.ok.inj (hs'.symm.trans hbuild)
      obtain ⟨hperm, hnonempty, hnodup, -⟩ := request_decision hdecision
      refine ⟨_, _, hcarries, resolvedNumbers_within request.valid hlimits,
        resolvedNumbers_kept hlimits hcross, horder, hnonempty, hnodup, ?_, hread⟩
      intro name
      rw [hperm.mem_iff, List.mem_filter]

/-- **Which valid requests are resolved.** A request with distinct candidates, one of them
available, is resolved exactly when the upper bound of its backoff, or the server's, is not below
the lower bound of its backoff, or the server's. -/
theorem valid_policy_resolved_iff
    (haccepted : RunPolicyRequest.modelValidate requested = some request)
    (hlimits : limits.Allowed) (hnodup : request.candidates.Nodup)
    (hmeets : ∃ name ∈ request.candidates,
      isAvailable availableProviders defaultProviderCatalog name = true) :
    (∃ s, buildPolicySnapshot requested limits availableProviders = .ok s)
      ↔ requestedNumber request.initialBackoffSeconds limits.initialBackoffSeconds.value
        ≤ requestedNumber request.maxBackoffSeconds limits.maxBackoffSeconds.value := by
  rw [buildPolicySnapshot_eq haccepted]
  constructor
  · rintro ⟨s, hs⟩
    by_contra hlt
    have hcross : Crossing request.toPolicyFields limits := not_le.mp hlt
    rw [if_pos hcross] at hs
    cases hs
  · intro hle
    have hcross : ¬ Crossing request.toPolicyFields limits := not_lt.mpr hle
    rw [if_neg hcross]
    have hasks := asks_clamped request.toPolicyFields limits
    obtain ⟨ranked, decision, -, -, hresolve, -⟩ :=
      hasks.resolve_ok keyed_default (request.valid.known.admissible hnodup) hmeets
        fun name _ _ m hm => rankable_default _ hm
    obtain ⟨s, hs, -⟩ := routeAndRead_ok hlimits hresolve
    exact ⟨s, hs⟩

end Build

/-! ### Samples -/

/-- A number as a float. -/
def sampleFive : PyNumber :=
  ⟨.float (.finite ⟨"5.0".toList, by decide +kernel⟩), 5, by decide +kernel, by decide +kernel⟩

def sampleSixty : PyNumber := ⟨.int 60, 60, rfl, by decide +kernel⟩

/-- A server whose retries wait at least five seconds. -/
def sampleLimits : ServerLimits where
  maxAttempts := 3
  attemptTimeoutSeconds := sampleSixty
  initialBackoffSeconds := sampleFive
  maxBackoffSeconds := sampleSixty
  maxOutputTokens := 2048

theorem sampleLimits_allowed : sampleLimits.Allowed :=
  ⟨by decide, by decide, by decide +kernel, by decide +kernel, by decide +kernel, by decide⟩

/-- A request for a number. -/
def askNumber (key : String) (n : ℤ) : JsonObject := [(key, .int n)]

theorem resolved_policy_executable_sample :
    let _ : FloatRepr := exactRepr
    ∃ s, buildPolicySnapshot (askNumber "initial_backoff_seconds" 2) sampleLimits none = .ok s
      ∧ ∃ n providers, Carries s n ∧ n.Within sampleLimits ∧ providers.Nodup
        ∧ get? s "provider_order" = some (namesJson providers) := by
  intro _
  have haccepted : (RunPolicyRequest.modelValidate
      (askNumber "initial_backoff_seconds" 2)).isSome = true := by decide +kernel
  obtain ⟨request, hrequest⟩ := Option.isSome_iff_exists.mp haccepted
  have hbuild : errorOf (buildPolicySnapshot (askNumber "initial_backoff_seconds" 2) sampleLimits
      none) = none := by decide +kernel
  obtain ⟨s, hs⟩ := exists_ok_of_errorOf hbuild
  obtain ⟨n, providers, hcarries, hwithin, -, horder, -, hnodup, -⟩ :=
    resolved_policy_executable hrequest sampleLimits_allowed hs
  exact ⟨s, hs, n, providers, hcarries, hwithin, hnodup, horder⟩

theorem valid_policy_resolved_sample :
    let _ : FloatRepr := exactRepr
    ∃ s, buildPolicySnapshot (askNumber "max_backoff_seconds" 7) sampleLimits none = .ok s := by
  intro _
  have haccepted : (RunPolicyRequest.modelValidate (askNumber "max_backoff_seconds" 7)).map
      (fun request => (request.candidates, request.initialBackoffSeconds.isSome,
        requestedNumber request.maxBackoffSeconds 60)) = some (["deterministic"], false, 7) := by
    decide +kernel
  obtain ⟨request, hrequest, hfields⟩ := Option.map_eq_some_iff.mp haccepted
  obtain ⟨hcandidates, hinitial, hmax⟩ : request.candidates = ["deterministic"]
      ∧ request.initialBackoffSeconds.isSome = false
      ∧ requestedNumber request.maxBackoffSeconds 60 = 7 := by
    simpa using hfields
  refine (valid_policy_resolved_iff hrequest sampleLimits_allowed ?_ ?_).mpr ?_
  · rw [hcandidates]
    decide
  · rw [hcandidates]
    exact ⟨"deterministic", by decide, by decide⟩
  · rw [Option.isSome_eq_false_iff, Option.isNone_iff_eq_none] at hinitial
    rw [hinitial]
    show (5 : ℚ) ≤ requestedNumber request.maxBackoffSeconds 60
    rw [hmax]
    norm_num

/-- An upper bound below the server's lower default, or a lower bound above the server's upper
default, is refused, although the request gives no other bound to cross. -/
theorem single_bound_refused :
    let _ : FloatRepr := exactRepr
    buildPolicySnapshot (askNumber "max_backoff_seconds" 2) sampleLimits none
        = .error (.valueError "max_backoff_seconds must be at least initial_backoff_seconds")
      ∧ buildPolicySnapshot (askNumber "initial_backoff_seconds" 100) sampleLimits none
        = .error (.valueError "max_backoff_seconds must be at least initial_backoff_seconds") := by
  intro _
  exact ⟨eq_error_of_errorOf (by decide +kernel), eq_error_of_errorOf (by decide +kernel)⟩

end AgentRuntime.Domain
