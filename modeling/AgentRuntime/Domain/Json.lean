import AgentRuntime.Lib.Binary64

/-!
# JSON values as Python holds them

Requests, policies and results are JSON objects decoded into Python values: integers are
unbounded, floats are binary64, objects are insertion-ordered dictionaries. A finite float is
carried as the text Python writes for it (`repr`, the shortest text that reads back to it), which
determines both its value and its place in a serialized document.
-/

namespace AgentRuntime.Domain

open Lib

/-! ### Float texts -/

/-- The number a string of decimal digits denotes. -/
def digitsValue (ds : List Char) : ℕ := ds.foldl (fun n c => 10 * n + (c.toNat - '0'.toNat)) 0

/-- The exponent part of a float text: nothing, or `e`, a sign and digits. -/
def exponentValue : List Char → Option ℤ
  | [] => some 0
  | 'e' :: '+' :: ds => if ds ≠ [] ∧ ds.all Char.isDigit then some (digitsValue ds) else none
  | 'e' :: '-' :: ds => if ds ≠ [] ∧ ds.all Char.isDigit then some (-digitsValue ds) else none
  | _ => none

/-- The value of an unsigned float text: digits, then a fraction, an exponent or both. -/
def unsignedValue (cs : List Char) : Option ℚ :=
  let whole := cs.takeWhile Char.isDigit
  if whole = [] then none
  else
    match cs.dropWhile Char.isDigit with
    | '.' :: rest =>
      let fraction := rest.takeWhile Char.isDigit
      if fraction = [] then none
      else (exponentValue (rest.dropWhile Char.isDigit)).map fun e =>
        (digitsValue whole + digitsValue fraction / 10 ^ fraction.length : ℚ) * 10 ^ e
    | 'e' :: rest => (exponentValue ('e' :: rest)).map fun e => (digitsValue whole : ℚ) * 10 ^ e
    | _ => none

/-- The value of a float text; `none` for any other text. -/
def floatTextValue : List Char → Option ℚ
  | '-' :: cs => (unsignedValue cs).map fun q => -q
  | cs => unsignedValue cs

/-- The text of a finite float. -/
structure FloatText where
  chars : List Char
  wellFormed : (floatTextValue chars).isSome = true
  deriving DecidableEq

/-- The decimal a float text denotes. -/
def FloatText.decimal (t : FloatText) : ℚ := (floatTextValue t.chars).get t.wellFormed

/-- A Python float. -/
inductive PyFloat where
  | finite (t : FloatText)
  | infinity
  | negInfinity
  | nan
  deriving DecidableEq

/-- The value of a float; `none` unless it is finite (`math.isfinite`). -/
def PyFloat.value? : PyFloat → Option ℚ
  | .finite t => binary64 t.decimal
  | _ => none

/-! ### Values -/

/-- A JSON value. -/
inductive Json where
  | null
  | bool (b : Bool)
  | int (n : ℤ)
  | float (x : PyFloat)
  | str (s : String)
  | arr (xs : List Json)
  | obj (ms : List (String × Json))

/-- Induction over a value, with the hypothesis for every item and for the value of every member. -/
@[elab_as_elim]
theorem Json.induction {P : Json → Prop} (null : P .null) (bool : ∀ b, P (.bool b))
    (int : ∀ n, P (.int n)) (float : ∀ x, P (.float x)) (str : ∀ s, P (.str s))
    (arr : ∀ xs, (∀ x ∈ xs, P x) → P (.arr xs)) (obj : ∀ ms, (∀ m ∈ ms, P m.2) → P (.obj ms))
    (v : Json) : P v :=
  @Json.rec P (fun xs => ∀ x ∈ xs, P x) (fun ms => ∀ m ∈ ms, P m.2) (fun m => P m.2)
    null bool int float str arr obj
    (fun _ h => absurd h List.not_mem_nil)
    (fun _ _ hx hxs => List.forall_mem_cons.mpr ⟨hx, hxs⟩)
    (fun _ h => absurd h List.not_mem_nil)
    (fun _ _ hm hms => List.forall_mem_cons.mpr ⟨hm, hms⟩)
    (fun _ _ hv => hv) v

/-- A Python dictionary with string keys, in insertion order. -/
abbrev JsonObject := List (String × Json)

/-- `dict.get(key)`. -/
def JsonObject.get? (ms : JsonObject) (key : String) : Option Json :=
  (ms.find? fun m => m.1 == key).map Prod.snd

/-- `dict.get(key, default)`. -/
def JsonObject.getD (ms : JsonObject) (key : String) (fallback : Json) : Json :=
  (JsonObject.get? ms key).getD fallback

/-- `{**ms, key: value}`: an existing key keeps its place, a new one goes last. -/
def JsonObject.set (ms : JsonObject) (key : String) (value : Json) : JsonObject :=
  if ms.any fun m => m.1 == key then ms.map fun m => if m.1 == key then (key, value) else m
  else ms ++ [(key, value)]

theorem JsonObject.mem_of_get? {node : JsonObject} {key : String} {value : Json}
    (h : JsonObject.get? node key = some value) : (key, value) ∈ node := by
  obtain ⟨m, hm, rfl⟩ := Option.map_eq_some_iff.mp h
  have hkey : m.1 = key := by simpa using List.find?_some hm
  rw [← hkey]
  exact List.mem_of_find?_eq_some hm

/-- `dict.setdefault(key, value)`. -/
def JsonObject.setDefault (ms : JsonObject) (key : String) (value : Json) : JsonObject :=
  if ms.any fun m => m.1 == key then ms else ms ++ [(key, value)]

/-- `ms | others`. -/
def JsonObject.merge (ms others : JsonObject) : JsonObject :=
  others.foldl (fun acc m => JsonObject.set acc m.1 m.2) ms

/-- The object of the members that are not `None` (`exclude_none=True`). -/
def JsonObject.present (members : List (String × Option Json)) : JsonObject :=
  members.filterMap fun m => m.2.map fun value => (m.1, value)

/-! ### Looking up -/

namespace JsonObject

variable {ms : JsonObject} {key other : String} {value : Json}

theorem get?_cons (m : String × Json) (ms : JsonObject) :
    get? (m :: ms) key = if m.1 = key then some m.2 else get? ms key := by
  unfold get?
  rw [List.find?_cons]
  by_cases h : m.1 = key
  · simp [h]
  · rw [beq_eq_false_iff_ne.mpr h, if_neg h]

theorem get?_append (ms others : JsonObject) :
    get? (ms ++ others) key = (get? ms key).or (get? others key) := by
  induction ms with
  | nil => rfl
  | cons m ms ih =>
    rw [List.cons_append, get?_cons, get?_cons, ih]
    split
    · rfl
    · rfl

theorem any_key_iff : (ms.any fun m => m.1 == key) = true ↔ (get? ms key).isSome := by
  unfold get?
  rw [Option.isSome_map, List.find?_isSome, List.any_eq_true]

theorem get?_eq_none_of_not_any (h : ¬ (ms.any fun m => m.1 == key) = true) :
    get? ms key = none := by
  rw [← Option.not_isSome_iff_eq_none, ← any_key_iff]
  exact h

theorem get?_append_new (h : ¬ (ms.any fun m => m.1 == key) = true) :
    get? (ms ++ [(key, value)]) other = if other = key then some value else get? ms other := by
  rw [get?_append, get?_cons]
  split_ifs with hsame hkey hkey
  · rw [hkey, get?_eq_none_of_not_any h]
    rfl
  · exact absurd hsame.symm hkey
  · exact absurd hkey.symm hsame
  · exact Option.or_none

theorem get?_map_set (ms : JsonObject) :
    get? (ms.map fun m => if m.1 == key then (key, value) else m) other
      = if other = key then (get? ms key).map fun _ => value else get? ms other := by
  induction ms with
  | nil =>
    split
    · rfl
    · rfl
  | cons m ms ih =>
    rw [List.map_cons, get?_cons, ih, get?_cons, get?_cons]
    by_cases hm : m.1 = key
    · by_cases ho : other = key
      · simp [hm, ho]
      · have hko : ¬ key = other := fun h => ho h.symm
        simp [hm, ho, hko]
    · by_cases ho : other = key
      · subst ho
        simp [hm]
      · simp [hm, ho]

theorem get?_set (ms : JsonObject) :
    get? (set ms key value) other = if other = key then some value else get? ms other := by
  unfold set
  split_ifs with hany hkey hkey
  · rw [get?_map_set, if_pos hkey]
    obtain ⟨v, hv⟩ := Option.isSome_iff_exists.mp (any_key_iff.mp hany)
    rw [hv, Option.map_some]
  · rw [get?_map_set, if_neg hkey]
  · rw [get?_append_new hany, if_pos hkey]
  · rw [get?_append_new hany, if_neg hkey]

theorem get?_setDefault (ms : JsonObject) :
    get? (setDefault ms key value) other
      = if other = key then some (getD ms key value) else get? ms other := by
  unfold setDefault getD
  split_ifs with hany hkey hkey
  · subst hkey
    obtain ⟨v, hv⟩ := Option.isSome_iff_exists.mp (any_key_iff.mp hany)
    rw [hv]
    rfl
  · rfl
  · subst hkey
    rw [get?_append_new hany, if_pos rfl, get?_eq_none_of_not_any hany]
    rfl
  · rw [get?_append_new hany, if_neg hkey]

theorem get?_merge_of_not_mem {others : JsonObject} (h : key ∉ others.map Prod.fst) :
    get? (merge ms others) key = get? ms key := by
  induction others generalizing ms with
  | nil => rfl
  | cons m others ih =>
    rw [List.map_cons, List.mem_cons, not_or] at h
    show get? (merge (set ms m.1 m.2) others) key = _
    rw [ih h.2, get?_set, if_neg h.1]

/-- The later of two objects wins. -/
theorem get?_merge_of_mem {others : JsonObject} (hnodup : (others.map Prod.fst).Nodup)
    (h : (key, value) ∈ others) : get? (merge ms others) key = some value := by
  induction others generalizing ms with
  | nil => cases h
  | cons m others ih =>
    obtain ⟨hfresh, hnodup'⟩ := List.nodup_cons.mp hnodup
    show get? (merge (set ms m.1 m.2) others) key = _
    rcases List.mem_cons.mp h with rfl | hmem
    · rw [get?_merge_of_not_mem hfresh, get?_set, if_pos rfl]
    · exact ih hnodup' hmem

theorem get?_present_of_not_mem {members : List (String × Option Json)}
    (h : key ∉ members.map Prod.fst) : get? (present members) key = none := by
  induction members with
  | nil => rfl
  | cons m members ih =>
    rw [List.map_cons, List.mem_cons, not_or] at h
    obtain ⟨name, field⟩ := m
    cases field with
    | none => exact ih h.2
    | some value =>
      show get? ((name, value) :: present members) key = none
      rw [get?_cons, if_neg fun heq => h.1 heq.symm, ih h.2]

/-- A member of a dumped model. -/
theorem get?_present {members : List (String × Option Json)}
    (hnodup : (members.map Prod.fst).Nodup) {field : Option Json} (h : (key, field) ∈ members) :
    get? (present members) key = field := by
  induction members with
  | nil => cases h
  | cons m members ih =>
    obtain ⟨hfresh, hnodup'⟩ := List.nodup_cons.mp hnodup
    rcases List.mem_cons.mp h with rfl | hmem
    · cases field with
      | none =>
        show get? (present members) key = none
        exact get?_present_of_not_mem hfresh
      | some value =>
        show get? ((key, value) :: present members) key = some value
        rw [get?_cons, if_pos rfl]
    · obtain ⟨name, first⟩ := m
      have hne : ¬ name = key := fun heq => by
        subst heq
        exact hfresh (List.mem_map.mpr ⟨_, hmem, rfl⟩)
      cases first with
      | none => exact ih hnodup' hmem
      | some value =>
        show get? ((name, value) :: present members) key = field
        rw [get?_cons, if_neg hne, ih hnodup' hmem]

end JsonObject

/-- Python truth value. -/
def Json.truthy : Json → Bool
  | .null => false
  | .bool b => b
  | .int n => n != 0
  | .float x => x.value? != some 0
  | .str s => s != ""
  | .arr xs => !xs.isEmpty
  | .obj ms => !ms.isEmpty

end AgentRuntime.Domain
