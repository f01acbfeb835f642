import AgentRuntime.Evaluation.Engine

/-!
# The equals operator and the const keyword

The same comparison can be written as an `equals` rule and as a schema with `const`. The first is
Python's `==`, for which `True` is the number one and `False` the number zero; the second is
equality of JSON Schema, which keeps booleans and numbers apart. They differ exactly where a
boolean of one value stands at the place of an equal number of the other.

* `schemaEq`: equality of JSON Schema;
* `boolMeetsNumber`: a boolean of one value stands where the other has a number;
* `schemaEq_eq`: the first is Python's equality without the second;
* `equals_agrees_with_const_iff`: when the two rules agree.
-/

namespace AgentRuntime.Evaluation

open Domain Lib

/-! ### Two equalities -/

mutual

/-- Equality of JSON Schema: numbers by their value, booleans apart from numbers, arrays item by
item, objects by their keys and members. -/
def schemaEq : Json → Json → Bool
  | .null, b => (match b with | .null => true | _ => false)
  | .str a, b => (match b with | .str b => a == b | _ => false)
  | .arr xs, b => (match b with | .arr ys => schemaEqList xs ys | _ => false)
  | .obj ms, b =>
    (match b with | .obj ns => ms.length == ns.length && schemaEqMembers ms ns | _ => false)
  | .bool a, b => (match b with | .bool b => a == b | _ => false)
  | .int a, b => (match b with | .bool _ => false | b => sameNumber (.int a) b)
  | .float a, b => (match b with | .bool _ => false | b => sameNumber (.float a) b)

def schemaEqList : List Json → List Json → Bool
  | [], ys => ys.isEmpty
  | x :: xs, ys => (match ys with | [] => false | y :: ys => schemaEq x y && schemaEqList xs ys)

def schemaEqMembers : List (String × Json) → JsonObject → Bool
  | [], _ => true
  | (k, v) :: ms, ns =>
    (match JsonObject.get? ns k with | some w => schemaEq v w | none => false)
      && schemaEqMembers ms ns

end

mutual

/-- At some place that both values have, one holds a boolean and the other a number. -/
def boolMeetsNumber : Json → Json → Bool
  | .bool _, b => (match b with | .int _ => true | .float _ => true | _ => false)
  | .int _, b => (match b with | .bool _ => true | _ => false)
  | .float _, b => (match b with | .bool _ => true | _ => false)
  | .arr xs, b => (match b with | .arr ys => boolMeetsNumberList xs ys | _ => false)
  | .obj ms, b => (match b with | .obj ns => boolMeetsNumberMembers ms ns | _ => false)
  | _, _ => false

def boolMeetsNumberList : List Json → List Json → Bool
  | [], _ => false
  | x :: xs, ys =>
    (match ys with | [] => false | y :: ys => boolMeetsNumber x y || boolMeetsNumberList xs ys)

def boolMeetsNumberMembers : List (String × Json) → JsonObject → Bool
  | [], _ => false
  | (k, v) :: ms, ns =>
    (match JsonObject.get? ns k with | some w => boolMeetsNumber v w | none => false)
      || boolMeetsNumberMembers ms ns

end

theorem schemaEqList_eq {xs : List Json}
    (h : ∀ x ∈ xs, ∀ y, schemaEq x y = (pyEq x y && !boolMeetsNumber x y)) (ys : List Json) :
    schemaEqList xs ys = (pyEqList xs ys && !boolMeetsNumberList xs ys) := by
  induction xs generalizing ys with
  | nil => simp [schemaEqList, pyEqList, boolMeetsNumberList]
  | cons x xs ih =>
    cases ys with
    | nil => rfl
    | cons y ys =>
      rw [schemaEqList, pyEqList, boolMeetsNumberList, h x List.mem_cons_self y,
        ih (fun z hz => h z (List.mem_cons_of_mem _ hz)) ys, Bool.not_or]
      ac_rfl

theorem schemaEqMembers_eq {ms : List (String × Json)}
    (h : ∀ m ∈ ms, ∀ y, schemaEq m.2 y = (pyEq m.2 y && !boolMeetsNumber m.2 y))
    (ns : JsonObject) :
    schemaEqMembers ms ns = (pyEqMembers ms ns && !boolMeetsNumberMembers ms ns) := by
  induction ms with
  | nil => rfl
  | cons m ms ih =>
    obtain ⟨k, v⟩ := m
    rw [schemaEqMembers, pyEqMembers, boolMeetsNumberMembers,
      ih fun n hn => h n (List.mem_cons_of_mem _ hn), Bool.not_or]
    cases JsonObject.get? ns k with
    | none => simp
    | some w =>
      dsimp only
      rw [h (k, v) List.mem_cons_self w]
      ac_rfl

/-- **Equality of JSON Schema** is Python's, except where a boolean meets a number. -/
theorem schemaEq_eq (v w : Json) : schemaEq v w = (pyEq v w && !boolMeetsNumber v w) := by
  induction v using Json.induction generalizing w with
  | null => cases w <;> rfl
  | bool a =>
    cases w with
    | bool b => cases a <;> cases b <;> rfl
    | _ => simp [schemaEq, pyEq, boolMeetsNumber, sameNumber, number?]
  | arr xs ih =>
    cases w with
    | arr ys => exact schemaEqList_eq ih ys
    | _ => rfl
  | obj ms ih =>
    cases w with
    | obj ns =>
      rw [schemaEq, pyEq, boolMeetsNumber, schemaEqMembers_eq ih ns, Bool.and_assoc]
    | _ => rfl
  | _ => cases w <;> simp [schemaEq, pyEq, boolMeetsNumber]

/-! ### Two rules -/

/-- `{"type": "rule", "path": …, "operator": …, "value": …}`. -/
def comparisonRule (operator path : String) (v : Json) : JsonObject :=
  [("type", .str "rule"), ("path", .str path), ("operator", .str operator), ("value", v)]

/-- `{"type": "json_schema", "path": …, "schema": {"const": …}}`. -/
def constRule (path : String) (v : Json) : JsonObject :=
  [("type", .str "json_schema"), ("path", .str path), ("schema", .obj [("const", v)])]

section Rules

variable [SchemaLibrary]

/-- The rule is evaluated and passes. -/
def Passes (payload : Json) (latency : Option ℤ) (rule : JsonObject) : Prop :=
  ∃ result, evaluateRule payload latency (.obj rule) = .ok result ∧ result.passed = true

/-- The library follows JSON Schema on `const`. -/
def FollowsConst : Prop :=
  ∀ v w, SchemaLibrary.validate [("const", v)] w
    = if schemaEq w v then .ok () else .error .validationError

variable {payload w : Json} {path : String} (latency : Option ℤ)
  (hfound : valueAtPath payload path = .ok (some w))

include hfound

theorem passes_comparison (operator : String) (hoperator : operators.contains operator = true)
    (v : Json) :
    Passes payload latency (comparisonRule operator path v)
      ↔ compareValue operator (some w) v = true := by
  have heval : evaluateRule payload latency (.obj (comparisonRule operator path v))
      = .ok ⟨"rule", path, compareValue operator (some w) v,
          operator ++ " check "
            ++ if compareValue operator (some w) v then "passed" else "failed"⟩ := by
    show (if operators.contains operator then do
        let value ← valueAtPath payload path
        pure _
      else _) = _
    rw [if_pos hoperator, hfound]
    rfl
  unfold Passes
  rw [heval]
  simp

theorem passes_const (hconst : FollowsConst) (v : Json) :
    Passes payload latency (constRule path v) ↔ schemaEq w v = true := by
  have heval : evaluateRule payload latency (.obj (constRule path v))
      = .ok ⟨"json_schema", path, schemaEq w v,
          if schemaEq w v then "schema validation passed" else "schema validation failed"⟩ := by
    have hschema : JsonObject.get? (constRule path v) "schema" = some (.obj [("const", v)]) := rfl
    show evaluateKind "json_schema" path (constRule path v) payload latency = _
    unfold evaluateKind
    simp only [hschema, hfound, bind, Except.bind]
    rw [hconst v w]
    cases schemaEq w v with
    | true => rfl
    | false => rfl
  unfold Passes
  rw [heval]
  simp

/-- **When the two rules agree.** At a path that leads to a value, `equals` passes exactly if
`const` does, unless the value and the expected one are equal for Python although a boolean of one
stands where the other has a number; and `not_equals` passes there exactly if `equals` does not. -/
theorem equals_agrees_with_const_iff (hconst : FollowsConst) (v : Json) :
    ((Passes payload latency (comparisonRule "equals" path v)
        ↔ Passes payload latency (constRule path v))
      ↔ ¬ (pyEq w v = true ∧ boolMeetsNumber w v = true))
    ∧ (Passes payload latency (comparisonRule "not_equals" path v)
        ↔ ¬ Passes payload latency (comparisonRule "equals" path v)) := by
  rw [passes_comparison latency hfound "equals" (by decide) v,
    passes_comparison latency hfound "not_equals" (by decide) v,
    passes_const latency hfound hconst v, schemaEq_eq]
  show ((pyEq w v = true ↔ (pyEq w v && !boolMeetsNumber w v) = true)
      ↔ ¬ (pyEq w v = true ∧ boolMeetsNumber w v = true))
    ∧ ((!pyEq w v) = true ↔ ¬ pyEq w v = true)
  cases pyEq w v with
  | true => cases boolMeetsNumber w v <;> simp
  | false => simp

end Rules

/-- A schema library that knows `const` and nothing else. -/
@[reducible] def constLibrary : SchemaLibrary where
  checkSchema _ := true
  validate schema w :=
    match JsonObject.get? schema "const" with
    | some v => if schemaEq w v then .ok () else .error .validationError
    | none => .ok ()

theorem constLibrary_followsConst : @FollowsConst constLibrary := fun _ _ => rfl

/-- The output `true` passes the check that it equals one, and fails the schema that says so. -/
theorem true_equals_one :
    let _ : SchemaLibrary := constLibrary
    Passes (.obj [("ok", .bool true)]) none (comparisonRule "equals" "ok" (.int 1))
      ∧ ¬ Passes (.obj [("ok", .bool true)]) none (constRule "ok" (.int 1)) := by
  intro _
  have hfound : valueAtPath (.obj [("ok", .bool true)]) "ok" = .ok (some (.bool true)) := by rfl
  rw [passes_comparison none hfound "equals" (by decide),
    passes_const none hfound constLibrary_followsConst]
  decide

/-- Nested values are compared alike, also where the members of an object are in another order. -/
theorem equals_agrees_on_nested_values :
    let _ : SchemaLibrary := constLibrary
    let found : Json := .obj [("rows", .arr [.int 1, .obj [("ok", .bool true), ("n", .int 2)]])]
    let wanted : Json := .obj [("rows", .arr [.int 1, .obj [("n", .int 2), ("ok", .bool true)]])]
    Passes (.obj [("out", found)]) none (comparisonRule "equals" "out" wanted)
      ∧ Passes (.obj [("out", found)]) none (constRule "out" wanted) := by
  intro _ found wanted
  have hfound : valueAtPath (.obj [("out", found)]) "out" = .ok (some found) := by rfl
  have hequals : Passes (.obj [("out", found)]) none (comparisonRule "equals" "out" wanted) :=
    (passes_comparison none hfound "equals" (by decide) wanted).mpr (by decide +kernel)
  exact ⟨hequals, ((equals_agrees_with_const_iff none hfound constLibrary_followsConst
    wanted).1.mpr (by decide +kernel)).mp hequals⟩

end AgentRuntime.Evaluation
