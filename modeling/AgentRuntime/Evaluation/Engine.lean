import AgentRuntime.Evaluation.Safety
import AgentRuntime.Lib.Fallible

/-!
# Evaluation rules

`evaluate_rules` applies every rule to the result of a run. A path leads through objects by key
and through arrays by index; the verdict of a rule depends on the value it leads to.

Once the rules and the result have passed their checks, one thing can still go wrong: a path may
arrive at an array with a segment that `isdigit` accepts and `int()` does not, such as `²`.

* `valueAtPath`, `evaluateRule`, `evaluateRules`: the engine;
* `Leads`: where a path leads, as a relation between values;
* `Unreadable`, `Blocked`: the segments that break the engine, and the paths that meet one;
* `walk_error_iff`: when following a path fails;
* `validated_rules_evaluate`: when the engine returns an outcome, and which.
-/

namespace AgentRuntime.Evaluation

open Domain Lib
open JsonObject (get? getD)

/-! ### Comparing values -/

/-- A number up to Python's `==`: booleans, integers and floats compare by value. -/
inductive Number where
  | finite (q : ℚ)
  | infinity
  | negInfinity
  deriving DecidableEq

def number? : Json → Option Number
  | .bool b => some (.finite (if b then 1 else 0))
  | .int n => some (.finite n)
  | .float .infinity => some .infinity
  | .float .negInfinity => some .negInfinity
  | .float x => x.value?.map Number.finite
  | _ => none

/-- The values are numbers, and the same one. -/
def sameNumber (a b : Json) : Bool :=
  match number? a, number? b with
  | some x, some y => decide (x = y)
  | _, _ => false

mutual

/-- `a == b`. -/
def pyEq : Json → Json → Bool
  | .null, b => (match b with | .null => true | _ => false)
  | .str a, b => (match b with | .str b => a == b | _ => false)
  | .arr xs, b => (match b with | .arr ys => pyEqList xs ys | _ => false)
  | .obj ms, b => (match b with | .obj ns => ms.length == ns.length && pyEqMembers ms ns | _ => false)
  | .bool a, b => sameNumber (.bool a) b
  | .int a, b => sameNumber (.int a) b
  | .float a, b => sameNumber (.float a) b

def pyEqList : List Json → List Json → Bool
  | [], ys => ys.isEmpty
  | x :: xs, ys => (match ys with | [] => false | y :: ys => pyEq x y && pyEqList xs ys)

/-- Every member is in the other dictionary. -/
def pyEqMembers : List (String × Json) → JsonObject → Bool
  | [], _ => true
  | (k, v) :: ms, ns =>
    (match get? ns k with | some w => pyEq v w | none => false) && pyEqMembers ms ns

end

/-! ### Paths -/

/-- `int(part)` after `part.isdigit()`. -/
def intOfPart (part : List Char) : Except EngineError ℕ :=
  match intOfText? part with
  | some n => .ok n
  | none => .error (.valueError
      ("invalid literal for int() with base 10: '" ++ String.ofList part ++ "'"))

/-- One segment of a path; `none` if it leads nowhere. -/
def child (value : Json) (part : List Char) : Except EngineError (Option Json) :=
  match value with
  | .obj ms => .ok (get? ms (String.ofList part))
  | .arr xs =>
    if part.length ≤ 10 ∧ isDigitText part = true then (intOfPart part).map fun n => xs[n]?
    else .ok none
  | _ => .ok none

/-- The loop of `_value_at_path`. -/
def walk (value : Json) : List (List Char) → Except EngineError (Option Json)
  | [] => .ok (some value)
  | part :: parts =>
    match child value part with
    | .ok (some v) => walk v parts
    | .ok none => .ok none
    | .error e => .error e

/-- The value a path leads to, or `none`. -/
def valueAtPath (payload : Json) (path : String) : Except EngineError (Option Json) :=
  if path.isEmpty then .ok (some payload) else walk payload (splitDots path.toList)

/-! ### Rules -/

/-- The entry of one rule in the persisted result. -/
structure RuleResult where
  kind : String
  path : String
  passed : Bool
  message : String
  deriving DecidableEq, Repr

def isNonEmpty : Json → Bool
  | .null => false
  | .str s => s.toList.any fun c => !isSpaceChar c
  | .arr xs => !xs.isEmpty
  | .obj ms => !ms.isEmpty
  | _ => true

/-- `expected in text`. -/
def isSubtext (expected text : List Char) : Bool := text.tails.any fun t => expected.isPrefixOf t

/-- The `contains` operator. -/
def containsValue (value expected : Json) : Bool :=
  match value, expected with
  | .arr xs, _ => xs.any fun x => pyEq x expected
  | .str s, .str e => isSubtext e.toList s.toList
  | .obj ms, .str e => ms.any fun m => m.1 == e
  | _, _ => false

/-- The verdict of a comparison rule. -/
def compareValue (operator : String) (value : Option Json) (expected : Json) : Bool :=
  match operator with
  | "exists" => value.isSome
  | "equals" => value.any fun v => pyEq v expected
  | "not_equals" => value.any fun v => !pyEq v expected
  | _ => value.any fun v => containsValue v expected

section Evaluator

variable [SchemaLibrary]

/-- A rule of the four types, its path read. -/
def evaluateKind (kind path : String) (rule : JsonObject) (payload : Json) (latency : Option ℤ) :
    Except EngineError RuleResult :=
  match kind with
  | "non_empty" => do
      let value ← valueAtPath payload path
      let passed := value.any isNonEmpty
      pure ⟨kind, path, passed, if passed then "value is non-empty" else "value is empty"⟩
  | "json_schema" =>
    match get? rule "schema" with
    | some (.obj schema) => do
        match ← valueAtPath payload path with
        | none => pure ⟨kind, path, false, "path was not found"⟩
        | some value =>
          match SchemaLibrary.validate schema value with
          | .ok () => pure ⟨kind, path, true, "schema validation passed"⟩
          | .error .validationError => pure ⟨kind, path, false, "schema validation failed"⟩
          | .error .other => .error .library
    | _ => .error (.configuration "json_schema rule requires an object schema")
  | "latency_budget" =>
    match get? rule "max_ms" with
    | some (.int budget) =>
      if budget < 0 then
        .error (.configuration "latency_budget rule requires non-negative integer max_ms")
      else
        let passed := latency.any fun ms => decide (ms ≤ budget)
        .ok ⟨kind, "", passed, if passed then "latency is within budget"
          else "latency budget exceeded or unavailable"⟩
    | _ => .error (.configuration "latency_budget rule requires non-negative integer max_ms")
  | "rule" =>
    match get? rule "operator" with
    | some (.str operator) =>
      if operators.contains operator then do
        let value ← valueAtPath payload path
        let passed := compareValue operator value (getD rule "value" .null)
        pure ⟨kind, path, passed,
          operator ++ " check " ++ if passed then "passed" else "failed"⟩
      else .error (.configuration
        "rule evaluator operator must be exists, equals, not_equals, or contains")
    -- Lists and dictionaries have no hash to look up.
    | some (.arr _) => .error .typeError
    | some (.obj _) => .error .typeError
    | _ => .error (.configuration
        "rule evaluator operator must be exists, equals, not_equals, or contains")
  | _ => .error (.configuration ("unsupported evaluation rule type: " ++ kind))

def evaluateRule (payload : Json) (latency : Option ℤ) : Json → Except EngineError RuleResult
  | .obj rule =>
    match get? rule "type" with
    | some (.str kind) =>
      match getD rule "path" (.str "") with
      | .str path => evaluateKind kind path rule payload latency
      | _ => .error (.configuration "evaluation rule path must be a string")
    | _ => .error (.configuration "every evaluation rule requires a string type")
  | _ => .error .attributeError

structure EvaluationOutcome where
  passed : Bool
  ruleResults : List RuleResult
  deriving DecidableEq, Repr

/-- Apply configured checks without retaining a provider response in the result. -/
def evaluateRules (rules : List Json) (payload : Json) (latency : Option ℤ) :
    Except EngineError EvaluationOutcome := do
  validateRules rules
  boundedValue payload 10000 16
  let results ← rules.mapM (evaluateRule payload latency)
  pure ⟨results.all RuleResult.passed, results⟩

end Evaluator

/-! ### Where paths lead -/

/-- The segments of a path; the empty path has none. -/
def segments (path : String) : List (List Char) :=
  if path.isEmpty then [] else splitDots path.toList

/-- The segments lead from one value to another: through objects by key, through arrays by a
decimal index of at most ten digits. -/
inductive Leads : Json → List (List Char) → Json → Prop
  | here (v : Json) : Leads v [] v
  | key {ms : JsonObject} {part : List Char} {parts : List (List Char)} {v u : Json} :
      get? ms (String.ofList part) = some v → Leads v parts u →
      Leads (.obj ms) (part :: parts) u
  | index {xs : List Json} {part : List Char} {parts : List (List Char)} {n : ℕ} {v u : Json} :
      part.length ≤ 10 → isDigitText part = true → intOfText? part = some n → xs[n]? = some v →
      Leads v parts u → Leads (.arr xs) (part :: parts) u

/-- A segment of at most ten digits that are not all decimal. -/
structure Unreadable (part : List Char) : Prop where
  short : part.length ≤ 10
  digits : isDigitText part = true
  notDecimal : ∃ c ∈ part, decimalValue? c = none

/-- The segments lead to an array and go on with an unreadable one. -/
def Blocked (value : Json) (parts : List (List Char)) : Prop :=
  ∃ before part after xs, parts = before ++ part :: after ∧ Leads value before (.arr xs)
    ∧ Unreadable part

theorem intOfText?_eq_none_iff {part : List Char} :
    intOfText? part = none ↔ ∃ c ∈ part, decimalValue? c = none := by
  unfold intOfText?
  rw [Option.map_eq_none_iff]
  induction part with
  | nil => simp
  | cons c cs ih =>
    rw [List.mapM_cons]
    cases hc : decimalValue? c with
    | none => simp [hc]
    | some d =>
      rw [Option.eq_none_iff_forall_ne_some] at ih
      simpa [hc] using ih

theorem child_error_iff {value : Json} {part : List Char} :
    (∃ e, child value part = .error e) ↔ (∃ xs, value = .arr xs) ∧ Unreadable part := by
  cases value with
  | arr xs =>
    simp only [child]
    split
    · rename_i hdigits
      simp only [intOfPart]
      cases hint : intOfText? part with
      | none =>
        have hpart : Unreadable part :=
          ⟨hdigits.1, hdigits.2, intOfText?_eq_none_iff.mp hint⟩
        simp [Except.map, hpart]
      | some n =>
        simp only [Except.map, reduceCtorEq, exists_false, false_iff]
        rintro ⟨-, hpart⟩
        exact absurd (intOfText?_eq_none_iff.mpr hpart.notDecimal) (by simp [hint])
    · rename_i hdigits
      simp only [reduceCtorEq, exists_false, false_iff]
      rintro ⟨-, hpart⟩
      exact hdigits ⟨hpart.short, hpart.digits⟩
  | _ => simp [child]

theorem child_some_iff {value v : Json} {part : List Char} :
    child value part = .ok (some v) ↔ Leads value [part] v := by
  constructor
  · intro h
    cases value with
    | obj ms => exact .key (Except.ok.inj h) (.here v)
    | arr xs =>
      simp only [child] at h
      split at h
      · rename_i hdigits
        simp only [intOfPart] at h
        split at h
        · rename_i n hint
          exact .index hdigits.1 hdigits.2 hint (Except.ok.inj h) (.here v)
        · exact absurd h (by simp [Except.map])
      · exact absurd h (by simp)
    | _ => exact absurd h (by simp [child])
  · intro h
    cases h with
    | key hget hrest =>
      cases hrest
      simp [child, hget]
    | index hshort hdigits hint hget hrest =>
      cases hrest
      simp [child, intOfPart, hshort, hdigits, hint, hget, Except.map]

theorem leads_cons_iff {value u : Json} {part : List Char} {parts : List (List Char)} :
    Leads value (part :: parts) u ↔ ∃ v, Leads value [part] v ∧ Leads v parts u := by
  constructor
  · intro h
    cases h with
    | key hget hrest => exact ⟨_, .key hget (.here _), hrest⟩
    | index hshort hdigits hint hget hrest =>
      exact ⟨_, .index hshort hdigits hint hget (.here _), hrest⟩
  · rintro ⟨v, hfirst, hrest⟩
    cases hfirst with
    | key hget hhere =>
      cases hhere
      exact .key hget hrest
    | index hshort hdigits hint hget hhere =>
      cases hhere
      exact .index hshort hdigits hint hget hrest

theorem blocked_cons_iff {value : Json} {part : List Char} {parts : List (List Char)} :
    Blocked value (part :: parts) ↔ ((∃ xs, value = .arr xs) ∧ Unreadable part)
      ∨ ∃ v, Leads value [part] v ∧ Blocked v parts := by
  constructor
  · rintro ⟨before, bad, after, xs, hparts, hleads, hbad⟩
    cases before with
    | nil =>
      obtain ⟨rfl, rfl⟩ := List.cons.inj hparts
      cases hleads
      exact .inl ⟨⟨xs, rfl⟩, hbad⟩
    | cons first before =>
      obtain ⟨rfl, rfl⟩ := List.cons.inj hparts
      obtain ⟨v, hfirst, hrest⟩ := leads_cons_iff.mp hleads
      exact .inr ⟨v, hfirst, before, bad, after, xs, rfl, hrest, hbad⟩
  · rintro (⟨⟨xs, rfl⟩, hbad⟩ | ⟨v, hfirst, before, bad, after, xs, rfl, hleads, hbad⟩)
    · exact ⟨[], part, parts, xs, rfl, .here _, hbad⟩
    · exact ⟨part :: before, bad, after, xs, rfl, leads_cons_iff.mpr ⟨v, hfirst, hleads⟩, hbad⟩

/-- Following the segments raises exactly if they are blocked. -/
theorem walk_error_iff {value : Json} {parts : List (List Char)} :
    (∃ e, walk value parts = .error e) ↔ Blocked value parts := by
  induction parts generalizing value with
  | nil => simp [walk, Blocked]
  | cons part parts ih =>
    rw [blocked_cons_iff, ← child_error_iff, walk]
    cases hchild : child value part with
    | error e => simp
    | ok found =>
      simp only [reduceCtorEq, exists_false, false_or, ← child_some_iff, hchild, Except.ok.injEq]
      cases found with
      | none => simp
      | some v => simp [ih]

theorem valueAtPath_eq (payload : Json) (path : String) :
    valueAtPath payload path = walk payload (segments path) := by
  unfold valueAtPath segments
  split
  · rfl
  · rfl

theorem valueAtPath_ok_iff {payload : Json} {path : String} :
    (∃ v, valueAtPath payload path = .ok v) ↔ ¬ Blocked payload (segments path) := by
  rw [← walk_error_iff, valueAtPath_eq]
  cases walk payload (segments path) with
  | ok v => simp
  | error e => simp

/-! ### Validated rules -/

/-- The path a rule follows; latency rules follow none. -/
def rulePath : Json → Option String
  | .obj rule =>
    match get? rule "type", getD rule "path" (.str "") with
    | some (.str "latency_budget"), _ => none
    | _, .str path => some path
    | _, _ => none
  | _ => none

/-- The rule follows a path that is blocked in the result. -/
def BlockedRule (payload rule : Json) : Prop :=
  ∃ path, rulePath rule = some path ∧ Blocked payload (segments path)

/-- On a schema that `validate_schema` accepts, `validate` raises `ValidationError` or nothing. -/
def SchemaLibrary.Sound [SchemaLibrary] : Prop :=
  ∀ schema value, validateSchema (.obj schema) = .ok () →
    SchemaLibrary.validate schema value ≠ .error .other

section Validated

variable [SchemaLibrary] {payload rule : Json} {latency : Option ℤ}

theorem evaluateRule_ok_iff (hlib : SchemaLibrary.Sound) (h : validateRule rule = .ok ()) :
    (∃ result, evaluateRule payload latency rule = .ok result) ↔ ¬ BlockedRule payload rule := by
  obtain ⟨ms, kind, path, rfl, hkind, hknown, hpath, hfields⟩ := validateRule_ok h
  have hvalue : ∀ {f : Option Json → Except EngineError RuleResult},
      (∀ v, ∃ result, f v = .ok result) →
      ((∃ result, (valueAtPath payload path >>= f) = .ok result) ↔
        ¬ Blocked payload (segments path)) := by
    intro f hf
    rw [← valueAtPath_ok_iff]
    cases valueAtPath payload path with
    | error e => simp [bind, Except.bind]
    | ok v => simp [bind, Except.bind, hf v]
  have hrule : kind ≠ "latency_budget" → (BlockedRule payload (.obj ms) ↔
      Blocked payload (segments path)) := by
    intro hne
    simp [BlockedRule, rulePath, hkind, hpath, hne]
  simp only [evaluateRule, hkind, hpath]
  rcases allowedFields_isSome hknown with rfl | rfl | rfl | rfl
  · rw [hrule (by decide)]
    exact hvalue fun v => ⟨_, rfl⟩
  · rw [hrule (by decide)]
    obtain ⟨schema, hschema, hvalid⟩ := validateFields_schema hfields
    simp only [evaluateKind, hschema]
    refine hvalue fun v => ?_
    cases v with
    | none => exact ⟨_, rfl⟩
    | some value =>
      have hsound := hlib schema value hvalid
      dsimp only
      split
      · exact ⟨_, rfl⟩
      · exact ⟨_, rfl⟩
      · exact absurd ‹_› hsound
  · obtain ⟨budget, hbudget, hnonneg⟩ := validateFields_budget hfields
    have hfree : ¬ BlockedRule payload (.obj ms) := by simp [BlockedRule, rulePath, hkind]
    simp [evaluateKind, hbudget, not_lt.mpr hnonneg, hfree]
  · rw [hrule (by decide)]
    obtain ⟨operator, hoperator, hknownOp⟩ := validateFields_operator hfields
    simp only [evaluateKind, hoperator, hknownOp, if_true]
    exact hvalue fun v => ⟨_, rfl⟩

/-- **Validated rules break the evaluator exactly on unreadable segments.** On rules and a result
that have passed their checks the engine returns an outcome, with one result for each rule in the
order of the rules and the conjunction of their verdicts, exactly if no rule follows a path that is
blocked in the result. -/
theorem validated_rules_evaluate (hlib : SchemaLibrary.Sound) {rules : List Json}
    (hrules : validateRules rules = .ok ()) (hpayload : boundedValue payload 10000 16 = .ok ()) :
    (∃ outcome, evaluateRules rules payload latency = .ok outcome
        ∧ List.Forall₂ (fun rule result => evaluateRule payload latency rule = .ok result) rules
          outcome.ruleResults
        ∧ outcome.passed = outcome.ruleResults.all RuleResult.passed)
      ↔ ∀ rule ∈ rules, ¬ BlockedRule payload rule := by
  have heval : evaluateRules rules payload latency
      = (rules.mapM (evaluateRule payload latency)).map
        fun results => ⟨results.all RuleResult.passed, results⟩ := by
    simp only [evaluateRules, hrules, hpayload]
    cases rules.mapM (evaluateRule payload latency) <;> rfl
  have hresults : (∃ results, List.Forall₂ (fun rule result =>
      evaluateRule payload latency rule = .ok result) rules results) ↔
      ∀ rule ∈ rules, ¬ BlockedRule payload rule := by
    rw [exists_forall₂_iff]
    exact forall₂_congr fun rule hmem =>
      evaluateRule_ok_iff hlib (validateRules_ok hrules rule hmem)
  rw [← hresults]
  constructor
  · rintro ⟨outcome, -, heach, -⟩
    exact ⟨outcome.ruleResults, heach⟩
  · rintro ⟨results, heach⟩
    refine ⟨⟨results.all RuleResult.passed, results⟩, ?_, heach, rfl⟩
    rw [heval, mapM_eq_ok_iff_forall₂.mpr heach]
    rfl

end Validated

/-- A schema library that accepts every schema and every value. -/
@[reducible] def sampleSchemas : SchemaLibrary := ⟨fun _ => true, fun _ _ => .ok ()⟩

/-- A rule that asks for a value at a path. -/
def sampleRule (path : String) : Json := .obj [("type", .str "non_empty"), ("path", .str path)]

def samplePayload : Json := .obj [("items", .arr [.str "a", .str " "])]

theorem validated_rules_evaluate_sample :
    letI := sampleSchemas
    let rules := [sampleRule "items.0", sampleRule "items.1", sampleRule "missing.²"]
    (evaluateRules rules samplePayload none).isOk = true
      ∧ ((∃ outcome, evaluateRules rules samplePayload none = .ok outcome
        ∧ List.Forall₂ (fun rule result => evaluateRule samplePayload none rule = .ok result) rules
          outcome.ruleResults
        ∧ outcome.passed = outcome.ruleResults.all RuleResult.passed)
      ↔ ∀ rule ∈ rules, ¬ BlockedRule samplePayload rule) := by
  let := sampleSchemas
  exact ⟨by decide +kernel,
    validated_rules_evaluate (fun _ _ _ => by simp) (by decide +kernel) (by decide +kernel)⟩

/-- The rules and the result pass their checks, and the engine raises `ValueError`. -/
theorem superscript_index_raises :
    letI := sampleSchemas
    validateRules [sampleRule "items.²"] = .ok () ∧ boundedValue samplePayload 10000 16 = .ok ()
      ∧ evaluateRules [sampleRule "items.²"] samplePayload none
        = .error (.valueError "invalid literal for int() with base 10: '²'") := by
  decide +kernel

end AgentRuntime.Evaluation
