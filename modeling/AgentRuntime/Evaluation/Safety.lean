import AgentRuntime.Evaluation.Bounded

/-!
# Schemas and rules

`validate_schema` admits a small subset of JSON Schema; `validate_rules` admits a rules list whose
every rule has a known type, only the fields of that type, and values of the right shape.

* `validateSchema`, `validateRules`: the two checks;
* `validateRule_ok`, `validateEach_ok_iff`: what they say about the rules they let through.
-/

namespace AgentRuntime.Evaluation

open Domain
open JsonObject (get? getD)

/-- `bounded_value` on a value whose texts hold no surrogate. -/
def boundedValue (value : Json) (maxNodes : ℕ) (maxDepth : ℕ) : Except EngineError Unit :=
  PyValue.boundedValue (.ofJson value) maxNodes maxDepth

/-! ### Schemas -/

/-- How `Draft202012Validator.validate` can fail. -/
inductive SchemaFailure where
  | validationError
  | other
  deriving DecidableEq

/-- The schema library the engine calls. -/
class SchemaLibrary where
  /-- `Draft202012Validator.check_schema(schema)` raises no `SchemaError`. -/
  checkSchema : Json → Bool
  /-- `Draft202012Validator(schema).validate(value)`. -/
  validate : JsonObject → Json → Except SchemaFailure Unit

/-- The keywords of the admitted subset. -/
def schemaKeywords : List String :=
  ["type", "properties", "required", "additionalProperties", "items", "enum", "const", "minimum",
    "maximum", "minLength", "maxLength", "minItems", "maxItems"]

def isBool : Json → Bool
  | .bool _ => true
  | _ => false

def isShortList : Json → Bool
  | .arr xs => xs.length ≤ 32
  | _ => false

/-- The checks on one schema object; returns its subschemas in the order they are pushed. -/
def schemaNode (node : JsonObject) : Except EngineError (List Json) :=
  if node.any fun m => !schemaKeywords.contains m.1 then
    .error (.configuration "unsupported or overly complex JSON Schema")
  else
    match getD node "properties" (.obj []) with
    | .obj properties =>
      if properties.length > 32 then
        .error (.configuration "schema properties limit exceeded")
      else if properties.any fun m => m.1.length > 128 then
        .error (.configuration "schema property name limit exceeded")
      else if (get? node "additionalProperties").any fun v => !isBool v then
        .error (.configuration "additionalProperties must be a boolean")
      else if (get? node "enum").any fun v => !isShortList v then
        .error (.configuration "schema enum limit exceeded")
      else .ok (properties.map Prod.snd ++ (get? node "items").toList)
    | _ => .error (.configuration "schema properties limit exceeded")

/-- The loop of `validate_schema`, on a stack as in `boundedLoop`. -/
def schemaLoop : ℕ → List (Json × ℕ) → Except EngineError Unit
  | _, [] => .ok ()
  | 0, _ :: _ => .error (.configuration "unsupported or overly complex JSON Schema")
  | left + 1, (.obj node, depth) :: pending =>
    if depth > 6 then .error (.configuration "unsupported or overly complex JSON Schema")
    else do
      let subschemas ← schemaNode node
      schemaLoop left ((subschemas.map fun v => (v, depth + 1)).reverse ++ pending)
  | _ + 1, (_, _) :: _ => .error (.configuration "unsupported or overly complex JSON Schema")

def validateSchema [SchemaLibrary] (schema : Json) : Except EngineError Unit := do
  schemaLoop 128 [(schema, 0)]
  if SchemaLibrary.checkSchema schema then pure ()
  else .error (.configuration "invalid JSON Schema")

/-! ### Rules -/

/-- The fields a rule may have, by its type. -/
def allowedFields : String → Option (List String)
  | "non_empty" => some ["type", "path"]
  | "json_schema" => some ["type", "path", "schema"]
  | "latency_budget" => some ["type", "max_ms"]
  | "rule" => some ["type", "path", "operator", "value"]
  | _ => none

def operators : List String := ["exists", "equals", "not_equals", "contains"]

/-- The checks of `validate_rules` on the fields of its own of each type of rule. -/
def validateFields [SchemaLibrary] (kind : String) (rule : JsonObject) : Except EngineError Unit :=
  match kind with
  | "json_schema" => validateSchema (getD rule "schema" .null)
  | "rule" =>
    match get? rule "operator" with
    | some (.str operator) =>
      if operators.contains operator then .ok ()
      else .error (.configuration "unsupported operator; regex matches is disabled")
    | _ => .error (.configuration "unsupported operator; regex matches is disabled")
  | "latency_budget" =>
    match get? rule "max_ms" with
    | some (.int budget) =>
      if 0 ≤ budget ∧ budget ≤ 86400000 then .ok ()
      else .error (.configuration "invalid latency budget")
    | _ => .error (.configuration "invalid latency budget")
  | _ => .ok ()

/-- The checks of `validate_rules` on one rule. -/
def validateRule [SchemaLibrary] : Json → Except EngineError Unit
  | .obj rule =>
    match get? rule "type" with
    | some (.str kind) =>
      match allowedFields kind with
      | some fields =>
        if rule.any fun m => !fields.contains m.1 then
          .error (.configuration "unsupported evaluation rule or field")
        else
          match getD rule "path" (.str "") with
          | .str path =>
            if path.length > 256 ∨ (splitDots path.toList).length > 16 then
              .error (.configuration "invalid evaluation path")
            else validateFields kind rule
          | _ => .error (.configuration "invalid evaluation path")
      | none => .error (.configuration "unsupported evaluation rule or field")
    | _ => .error (.configuration "unsupported evaluation rule or field")
  -- `rule.get` on anything but a dictionary.
  | _ => .error .attributeError

/-- `for rule in rules`: the first rule that is refused ends the loop. -/
def validateEach [SchemaLibrary] : List Json → Except EngineError Unit
  | [] => .ok ()
  | rule :: rules => do
      validateRule rule
      validateEach rules

def validateRules [SchemaLibrary] (rules : List Json) : Except EngineError Unit := do
  boundedValue (.arr rules) 2048 16
  if 1 ≤ rules.length ∧ rules.length ≤ 16 then validateEach rules
  else .error (.configuration "evaluation requires 1-16 rules")

/-! ### Rules that pass -/

section Accepted

variable [SchemaLibrary]

/-- A rule that passes is an object with a known type and a path; the fields of its own have passed
the checks of its type. -/
theorem validateRule_ok {rule : Json} (h : validateRule rule = .ok ()) :
    ∃ ms kind path, rule = .obj ms ∧ get? ms "type" = some (.str kind)
      ∧ (allowedFields kind).isSome = true ∧ getD ms "path" (.str "") = .str path
      ∧ validateFields kind ms = .ok () := by
  cases rule with
  | obj ms =>
    simp only [validateRule] at h
    split at h
    · rename_i kind hkind
      split at h
      · rename_i fields hfields
        split at h
        · exact absurd h (by simp)
        · split at h
          · rename_i path hpath
            split at h
            · exact absurd h (by simp)
            · exact ⟨ms, kind, path, rfl, hkind, by rw [hfields]; rfl, hpath, h⟩
          · exact absurd h (by simp)
      · exact absurd h (by simp)
    · exact absurd h (by simp)
  | _ => exact absurd h (by simp [validateRule])

omit [SchemaLibrary] in
/-- The types of rules. -/
theorem allowedFields_isSome {kind : String} (h : (allowedFields kind).isSome = true) :
    kind = "non_empty" ∨ kind = "json_schema" ∨ kind = "latency_budget" ∨ kind = "rule" := by
  unfold allowedFields at h
  split at h
  · exact .inl rfl
  · exact .inr (.inl rfl)
  · exact .inr (.inr (.inl rfl))
  · exact .inr (.inr (.inr rfl))
  · exact absurd h (by simp)

/-- Only objects are schemas. -/
theorem validateSchema_ok {schema : Json} (h : validateSchema schema = .ok ()) :
    ∃ node, schema = .obj node := by
  cases schema with
  | obj node => exact ⟨node, rfl⟩
  | _ => exact absurd h (by simp [validateSchema, schemaLoop, bind, Except.bind])

theorem validateFields_schema {rule : JsonObject} (h : validateFields "json_schema" rule = .ok ()) :
    ∃ schema, get? rule "schema" = some (.obj schema)
      ∧ validateSchema (.obj schema) = .ok () := by
  have hschema : validateSchema (getD rule "schema" .null) = .ok () := h
  obtain ⟨node, hnode⟩ := validateSchema_ok hschema
  rw [hnode] at hschema
  cases hget : get? rule "schema" with
  | none => exact absurd hnode (by simp [getD, hget])
  | some j =>
    rw [getD, hget, Option.getD_some] at hnode
    exact ⟨node, by rw [hnode], hschema⟩

theorem validateFields_operator {rule : JsonObject} (h : validateFields "rule" rule = .ok ()) :
    ∃ operator, get? rule "operator" = some (.str operator)
      ∧ operators.contains operator = true := by
  simp only [validateFields] at h
  split at h
  · rename_i operator hget
    split at h
    · exact ⟨operator, hget, ‹_›⟩
    · exact absurd h (by simp)
  · exact absurd h (by simp)

theorem validateFields_budget {rule : JsonObject}
    (h : validateFields "latency_budget" rule = .ok ()) :
    ∃ budget, get? rule "max_ms" = some (.int budget) ∧ 0 ≤ budget := by
  simp only [validateFields] at h
  split at h
  · rename_i budget hget
    split at h
    · rename_i hrange
      exact ⟨budget, hget, hrange.1⟩
    · exact absurd h (by simp)
  · exact absurd h (by simp)

theorem validateEach_ok_iff {rules : List Json} :
    validateEach rules = .ok () ↔ ∀ rule ∈ rules, validateRule rule = .ok () := by
  induction rules with
  | nil => simp [validateEach]
  | cons rule rules ih =>
    rw [List.forall_mem_cons, ← ih, validateEach]
    cases hrule : validateRule rule with
    | ok _ => exact ⟨fun h => ⟨rfl, h⟩, fun h => h.2⟩
    | error e =>
      exact ⟨fun h => absurd h (by simp [bind, Except.bind]), fun h => absurd h.1 (by simp)⟩

theorem validateRules_ok {rules : List Json} (h : validateRules rules = .ok ()) :
    ∀ rule ∈ rules, validateRule rule = .ok () := by
  unfold validateRules at h
  cases hbounded : boundedValue (.arr rules) 2048 16 with
  | ok _ =>
    rw [hbounded] at h
    simp only [bind, Except.bind] at h
    split at h
    · exact validateEach_ok_iff.mp h
    · exact absurd h (by simp)
  | error e =>
    rw [hbounded] at h
    exact absurd h (by simp [bind, Except.bind])

end Accepted

end AgentRuntime.Evaluation
