import AgentRuntime.Evaluation.Safety

/-!
# The schema subset

A schema that passes `validate_schema` is handed to a full JSON Schema validator, so the walk has to
see every position the validator interprets as a schema. The positions are those reached through
`properties` and `items`; every other keyword that leads to a schema is refused where it stands, and
`additionalProperties` must be a boolean. The values of `enum` and `const` are data and are not
walked.

* `Restricted`: the admitted subset, in terms of the positions of the schema;
* `schemaLoop_ok_iff`: the walk accepts exactly the subset;
* `Interpreted`: what a Draft 2020-12 validator may interpret as a schema;
* `Restricted.interpreted`: in the subset these are positions of the walk, or booleans.
-/

namespace AgentRuntime.Evaluation

open Lib Domain
open JsonObject (get? getD mem_of_get?)

/-! ### The subset -/

/-- The properties of a schema object. -/
def propertiesOf (node : JsonObject) : JsonObject :=
  match get? node "properties" with
  | some (.obj properties) => properties
  | _ => []

/-- The subschemas of a schema: the values of its properties and its items. -/
def subschemas : Json → List Json
  | .obj node => (propertiesOf node).map Prod.snd ++ (get? node "items").toList
  | _ => []

theorem sizeOf_value_lt {node : JsonObject} {key : String} {value : Json}
    (h : (key, value) ∈ node) : sizeOf value < sizeOf (Json.obj node) := by
  have hlt := List.sizeOf_lt_of_mem h
  have hmem : sizeOf (key, value) = 1 + sizeOf key + sizeOf value := rfl
  simp only [Json.obj.sizeOf_spec]
  omega

theorem sizeOf_lt_of_mem_subschemas (s : Json) : ∀ t ∈ subschemas s, sizeOf t < sizeOf s := by
  intro t ht
  cases s with
  | obj node =>
    rcases List.mem_append.mp ht with hprop | hitem
    · obtain ⟨m, hm, rfl⟩ := List.mem_map.mp hprop
      unfold propertiesOf at hm
      split at hm
      · rename_i properties hget
        exact (sizeOf_value_lt hm).trans (sizeOf_value_lt (mem_of_get? hget))
      · exact absurd hm List.not_mem_nil
    · exact sizeOf_value_lt (mem_of_get? (Option.mem_toList.mp hitem))
  | _ => exact absurd ht List.not_mem_nil

/-- Schemas and their subschemas. -/
def schemaNesting : Nesting Json := ⟨subschemas, sizeOf, sizeOf_lt_of_mem_subschemas⟩

/-- The subschema positions of a schema, each with its depth. -/
def schemaPositions (s : Json) : List (Json × ℕ) := schemaNesting.positions s 0

/-- What is admitted of one schema object. -/
structure AdmittedNode (node : JsonObject) : Prop where
  keywords : ∀ m ∈ node, m.1 ∈ schemaKeywords
  properties : ∀ v, get? node "properties" = some v →
    ∃ ps, v = .obj ps ∧ ps.length ≤ 32 ∧ ∀ m ∈ ps, m.1.length ≤ 128
  additional : ∀ v, get? node "additionalProperties" = some v → ∃ b, v = .bool b
  enum : ∀ v, get? node "enum" = some v → ∃ xs, v = .arr xs ∧ xs.length ≤ 32

/-- A schema object that is admitted. -/
def Admitted (s : Json) : Prop := ∃ node, s = .obj node ∧ AdmittedNode node

/-- **The restricted subset.** -/
structure Restricted (s : Json) : Prop where
  count : (schemaPositions s).length ≤ 128
  depth : ∀ p ∈ schemaPositions s, p.2 ≤ 6
  admitted : ∀ p ∈ schemaPositions s, Admitted p.1

/-! ### The walk -/

theorem isBool_iff {v : Json} : isBool v = true ↔ ∃ b, v = .bool b := by
  cases v <;> simp [isBool]

theorem isShortList_iff {v : Json} :
    isShortList v = true ↔ ∃ xs, v = .arr xs ∧ xs.length ≤ 32 := by
  cases v <;> simp [isShortList]

/-- A member that is checked where it is present. -/
theorem not_any_not_iff {v : Option Json} {check : Json → Bool} {P : Json → Prop}
    (hcheck : ∀ w, check w = true ↔ P w) :
    ¬ (v.any fun w => !check w) = true ↔ ∀ w, v = some w → P w := by
  cases v with
  | none => simp
  | some w => simp [← hcheck]

/-- `node.get("properties", {})` is an object, or what it is makes the node inadmissible. -/
theorem properties_cases (node : JsonObject) :
    (getD node "properties" (.obj []) = .obj (propertiesOf node)
        ∧ ((∀ v, get? node "properties" = some v →
            ∃ ps, v = .obj ps ∧ ps.length ≤ 32 ∧ ∀ m ∈ ps, m.1.length ≤ 128)
          ↔ (propertiesOf node).length ≤ 32 ∧ ∀ m ∈ propertiesOf node, m.1.length ≤ 128))
      ∨ (∀ ps, getD node "properties" (.obj []) ≠ .obj ps) ∧ ¬ AdmittedNode node := by
  cases hget : get? node "properties" with
  | none => simp [getD, propertiesOf, hget]
  | some v =>
    cases v with
    | obj ps => simp [getD, propertiesOf, hget]
    | _ =>
      refine .inr ⟨by simp [getD, hget], fun h => ?_⟩
      obtain ⟨ps, hps, -⟩ := h.properties _ hget
      exact absurd hps (by simp)

/-- The checks on one schema object let through exactly the admitted ones, and go on with their
subschemas. -/
theorem schemaNode_eq_ok {node : JsonObject} {subs : List Json} :
    schemaNode node = .ok subs ↔ AdmittedNode node ∧ subs = subschemas (.obj node) := by
  have hfails {message : String} (hnot : ¬ AdmittedNode node) :
      Except.error (EngineError.configuration message) = Except.ok subs
        ↔ AdmittedNode node ∧ subs = subschemas (.obj node) :=
    ⟨fun h => absurd h (by simp), fun h => absurd h.1 hnot⟩
  have hadditional := not_any_not_iff (v := get? node "additionalProperties")
    fun w => isBool_iff (v := w)
  have henum := not_any_not_iff (v := get? node "enum") fun w => isShortList_iff (v := w)
  unfold schemaNode
  split
  · rename_i hbad
    obtain ⟨m, hm, hkey⟩ := List.any_eq_true.mp hbad
    exact hfails fun h => absurd (h.keywords m hm) (by simpa using hkey)
  rename_i hkeywords
  rcases properties_cases node with ⟨hread, hfits⟩ | ⟨hread, hnot⟩
  · rw [hread]
    dsimp only
    split
    · rename_i hmany
      exact hfails fun h => absurd (hfits.mp h.properties).1 (by omega)
    split
    · rename_i hlong
      obtain ⟨m, hm, hlength⟩ := List.any_eq_true.mp hlong
      exact hfails fun h => absurd ((hfits.mp h.properties).2 m hm) (by simpa using hlength)
    split
    · rename_i hbad
      exact hfails fun h => hadditional.mpr h.additional hbad
    split
    · rename_i hbad
      exact hfails fun h => henum.mpr h.enum hbad
    rename_i hcount hnames hbool hlist
    have hnode : AdmittedNode node :=
      ⟨by simpa using hkeywords, hfits.mpr ⟨by omega, by simpa using hnames⟩,
        hadditional.mp hbool, henum.mp hlist⟩
    exact ⟨fun h => ⟨hnode, (Except.ok.inj h).symm⟩, fun h => by rw [h.2]; rfl⟩
  · split
    · rename_i properties hobj
      exact absurd hobj (hread properties)
    · exact hfails hnot

/-- **The loop**: with `left` more visits allowed it succeeds exactly when everything pending is
admitted and lies at most six levels deep. -/
theorem schemaLoop_ok_iff {left : ℕ} {pending : List (Json × ℕ)} :
    schemaLoop left pending = .ok ()
      ↔ (schemaNesting.pendingPositions pending).length ≤ left
        ∧ ∀ p ∈ schemaNesting.pendingPositions pending, p.2 ≤ 6 ∧ Admitted p.1 := by
  induction left generalizing pending with
  | zero =>
    cases pending with
    | nil => simp [schemaLoop]
    | cons p pending =>
      have hlength := schemaNesting.length_le_pendingPositions (p :: pending)
      rw [List.length_cons] at hlength
      exact ⟨fun h => absurd h (by simp [schemaLoop]), fun h => absurd h.1 (by omega)⟩
  | succ left ih =>
    cases pending with
    | nil => simp [schemaLoop]
    | cons p pending =>
      obtain ⟨schema, depth⟩ := p
      have hperm := schemaNesting.pendingPositions_push schema depth pending
      rw [hperm.length_eq, List.length_cons]
      simp only [hperm.mem_iff, List.forall_mem_cons]
      cases schema with
      | obj node =>
        rw [schemaLoop]
        split
        · rename_i hdepth
          exact ⟨fun h => absurd h (by simp), fun h => absurd h.2.1.1 (by omega)⟩
        rename_i hdepth
        cases hnode : schemaNode node with
        | error e =>
          refine ⟨fun h => absurd h (by simp [bind, Except.bind]), fun h => ?_⟩
          obtain ⟨node', heq, hadmitted⟩ := h.2.1.2
          obtain rfl := Json.obj.inj heq
          have hok := schemaNode_eq_ok.mpr ⟨hadmitted, rfl⟩
          exact absurd (hnode.symm.trans hok) (by simp)
        | ok subs =>
          obtain ⟨hadmitted, rfl⟩ := schemaNode_eq_ok.mp hnode
          show schemaLoop left (schemaNesting.push (.obj node) depth pending) = _ ↔ _
          rw [ih]
          constructor
          · rintro ⟨hlength, hall⟩
            exact ⟨by omega, ⟨by omega, node, rfl, hadmitted⟩, hall⟩
          · rintro ⟨hlength, -, hall⟩
            exact ⟨by omega, hall⟩
      | _ =>
        refine ⟨fun h => absurd h (by simp [schemaLoop]), fun h => ?_⟩
        obtain ⟨node, heq, -⟩ := h.2.1.2
        exact absurd heq (by simp)

theorem validateSchema_ok_iff [SchemaLibrary] {s : Json} :
    validateSchema s = .ok () ↔ SchemaLibrary.checkSchema s = true ∧ Restricted s := by
  have hloop : schemaLoop 128 [(s, 0)] = .ok () ↔ Restricted s := by
    rw [schemaLoop_ok_iff, Nesting.pendingPositions_singleton]
    exact ⟨fun h => ⟨h.1, fun p hp => (h.2 p hp).1, fun p hp => (h.2 p hp).2⟩,
      fun h => ⟨h.count, fun p hp => ⟨h.depth p hp, h.admitted p hp⟩⟩⟩
  rw [← hloop]
  unfold validateSchema
  cases hwalk : schemaLoop 128 [(s, 0)] with
  | error e => simp [bind, Except.bind]
  | ok u =>
    by_cases hcheck : SchemaLibrary.checkSchema s = true
    · simp [bind, Except.bind, hcheck, pure, Except.pure]
    · simp [bind, Except.bind, hcheck]

/-! ### What the validator interprets -/

/-- Keywords whose value is one schema. -/
def oneSchema : List String :=
  ["additionalProperties", "items", "contains", "not", "if", "then", "else", "propertyNames",
    "unevaluatedItems", "unevaluatedProperties", "contentSchema"]

/-- Keywords whose value is a list of schemas. -/
def listedSchemas : List String := ["allOf", "anyOf", "oneOf", "prefixItems"]

/-- Keywords whose value is an object of schemas. -/
def namedSchemas : List String := ["properties", "patternProperties", "dependentSchemas", "$defs"]

/-- Keywords that refer to a schema elsewhere. -/
def references : List String := ["$ref", "$dynamicRef"]

/-- **What a Draft 2020-12 validator may interpret as a schema** when it validates against `s`. A
reference may lead to any schema, also to a remote one. -/
inductive Interpreted (s : Json) : Json → Prop where
  | root : Interpreted s s
  | one {node : JsonObject} {key : String} {t : Json} : Interpreted s (.obj node) →
      key ∈ oneSchema → get? node key = some t → Interpreted s t
  | listed {node : JsonObject} {key : String} {ts : List Json} {t : Json} :
      Interpreted s (.obj node) → key ∈ listedSchemas → get? node key = some (.arr ts) →
      t ∈ ts → Interpreted s t
  | named {node : JsonObject} {key : String} {ms : JsonObject} {m : String × Json} :
      Interpreted s (.obj node) → key ∈ namedSchemas → get? node key = some (.obj ms) →
      m ∈ ms → Interpreted s m.2
  | reference {node : JsonObject} {key : String} {target t : Json} :
      Interpreted s (.obj node) → key ∈ references → get? node key = some target →
      Interpreted s t

/-- Keywords with which a schema could run a pattern, follow a reference or combine schemas. -/
def refusedKeywords : List String :=
  ["$ref", "$dynamicRef", "$defs", "pattern", "patternProperties", "propertyNames", "allOf", "anyOf",
    "oneOf", "not", "if", "then", "else", "dependentSchemas", "contains", "prefixItems",
    "unevaluatedItems", "unevaluatedProperties", "uniqueItems", "format", "multipleOf"]

/-- Of the keywords with one schema two are allowed: one is walked, the other is a boolean. -/
theorem allowed_oneSchema : ∀ key ∈ oneSchema, key ∈ schemaKeywords →
    key = "additionalProperties" ∨ key = "items" := by decide

theorem allowed_named : ∀ key ∈ namedSchemas, key ∈ schemaKeywords → key = "properties" := by
  decide

theorem not_allowed_listed : ∀ key ∈ listedSchemas, key ∉ schemaKeywords := by decide

theorem not_allowed_reference : ∀ key ∈ references, key ∉ schemaKeywords := by decide

theorem not_allowed_refused : ∀ key ∈ refusedKeywords, key ∉ schemaKeywords := by decide

theorem AdmittedNode.key_mem {node : JsonObject} (h : AdmittedNode node) {key : String} {v : Json}
    (hget : get? node key = some v) : key ∈ schemaKeywords :=
  h.keywords _ (mem_of_get? hget)

/-- A schema object at a position is admitted, and its subschemas are at positions. -/
theorem Restricted.node {s : Json} (h : Restricted s) {node : JsonObject} {depth : ℕ}
    (hmem : (.obj node, depth) ∈ schemaPositions s) :
    AdmittedNode node ∧ ∀ t ∈ subschemas (.obj node), (t, depth + 1) ∈ schemaPositions s := by
  obtain ⟨node', heq, hnode⟩ := h.admitted _ hmem
  obtain rfl := Json.obj.inj heq
  exact ⟨hnode, fun t ht => schemaNesting.child_mem_positions hmem ht⟩

/-- **In the subset the validator interprets nothing but the positions of the walk**, and the
booleans of `additionalProperties`. -/
theorem Restricted.interpreted {s t : Json} (h : Restricted s) (ht : Interpreted s t) :
    (∃ depth, (t, depth) ∈ schemaPositions s) ∨ ∃ b, t = .bool b := by
  induction ht with
  | root => exact .inl ⟨0, schemaNesting.self_mem_positions s 0⟩
  | @one node key t _ hkey hget ih =>
    rcases ih with ⟨depth, hmem⟩ | ⟨b, hb⟩
    · obtain ⟨hnode, hsubs⟩ := h.node hmem
      rcases allowed_oneSchema key hkey (hnode.key_mem hget) with rfl | rfl
      · exact .inr (hnode.additional t hget)
      · exact .inl ⟨depth + 1, hsubs t (List.mem_append_right _ (by simp [hget]))⟩
    · exact absurd hb (by simp)
  | @listed node key ts t _ hkey hget _ ih =>
    rcases ih with ⟨depth, hmem⟩ | ⟨b, hb⟩
    · exact absurd ((h.node hmem).1.key_mem hget) (not_allowed_listed key hkey)
    · exact absurd hb (by simp)
  | @named node key ms m _ hkey hget hin ih =>
    rcases ih with ⟨depth, hmem⟩ | ⟨b, hb⟩
    · obtain ⟨hnode, hsubs⟩ := h.node hmem
      obtain rfl := allowed_named key hkey (hnode.key_mem hget)
      refine .inl ⟨depth + 1, hsubs m.2 (List.mem_append_left _ (List.mem_map_of_mem ?_))⟩
      simpa only [propertiesOf, hget] using hin
    · exact absurd hb (by simp)
  | @reference node key target t _ hkey hget ih =>
    rcases ih with ⟨depth, hmem⟩ | ⟨b, hb⟩
    · exact absurd ((h.node hmem).1.key_mem hget) (not_allowed_reference key hkey)
    · exact absurd hb (by simp)

/-- In the subset no schema object the validator interprets has a refused keyword. -/
theorem Restricted.no_refused {s : Json} (h : Restricted s) {node : JsonObject}
    (hnode : Interpreted s (.obj node)) : ∀ key ∈ refusedKeywords, get? node key = none := by
  intro key hkey
  rcases h.interpreted hnode with ⟨depth, hmem⟩ | ⟨b, hb⟩
  · cases hget : get? node key with
    | none => rfl
    | some v => exact absurd ((h.node hmem).1.key_mem hget) (not_allowed_refused key hkey)
  · exact absurd hb (by simp)

/-- **`validate_schema` admits exactly the restricted subset**, and nothing in an admitted schema
that the validator interprets as a schema has a refused keyword. -/
theorem validateSchema_admits_subset [SchemaLibrary] (s : Json) :
    (validateSchema s = .ok () ↔ SchemaLibrary.checkSchema s = true ∧ Restricted s)
      ∧ (validateSchema s = .ok () → ∀ node, Interpreted s (.obj node) →
          ∀ key ∈ refusedKeywords, get? node key = none) :=
  ⟨validateSchema_ok_iff, fun hok _ hnode => (validateSchema_ok_iff.mp hok).2.no_refused hnode⟩

end AgentRuntime.Evaluation
