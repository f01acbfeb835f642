import AgentRuntime.Domain.Json
import AgentRuntime.Domain.Text
import AgentRuntime.Lib.Worklist

/-!
# Bounded values

`bounded_value` walks a value with an explicit stack, counts nodes, nesting and bytes on the way,
and gives up as early as it can. Texts are Python texts: a lone surrogate in one of them has no
UTF-8 encoding and refuses the value.

* `boundedValue`: the walk;
* `Bounded`: what it is for, in terms of the positions of the value alone;
* `boundedValue_ok_iff`: the two agree: the early exits refuse nothing that is within the bounds;
* `Bounded.reorder`: the bounds do not see the order of elements and members.
-/

namespace AgentRuntime.Evaluation

open Lib Domain

/-- The exceptions of the evaluation engine. -/
inductive EngineError where
  /-- `EvaluationConfigurationError`. -/
  | configuration (message : String)
  | valueError (message : String)
  | attributeError
  | typeError
  /-- An exception of the schema library other than a `ValidationError`. -/
  | library
  deriving DecidableEq, Repr

/-- A JSON value whose texts are Python texts. -/
inductive PyValue where
  | null
  | bool (b : Bool)
  | int (n : ℤ)
  | float (x : PyFloat)
  | str (s : PyText)
  | arr (xs : List PyValue)
  | obj (ms : List (PyText × PyValue))

namespace PyValue

mutual

/-- A JSON value as a Python value. -/
def ofJson : Json → PyValue
  | .null => .null
  | .bool b => .bool b
  | .int n => .int n
  | .float x => .float x
  | .str s => .str (.ofString s)
  | .arr xs => .arr (ofJsonList xs)
  | .obj ms => .obj (ofJsonMembers ms)

def ofJsonList : List Json → List PyValue
  | [] => []
  | x :: xs => ofJson x :: ofJsonList xs

def ofJsonMembers : List (String × Json) → List (PyText × PyValue)
  | [] => []
  | (k, x) :: ms => (.ofString k, ofJson x) :: ofJsonMembers ms

end

/-- What one value puts on the stack. -/
def children : PyValue → List PyValue
  | .arr xs => xs
  | .obj ms => ms.map Prod.snd
  | _ => []

theorem sizeOf_lt_of_mem_children (v : PyValue) : ∀ w ∈ v.children, sizeOf w < sizeOf v := by
  intro w hw
  cases v with
  | arr xs =>
    have hlt : sizeOf w < sizeOf xs := List.sizeOf_lt_of_mem hw
    simp only [arr.sizeOf_spec]
    omega
  | obj ms =>
    obtain ⟨m, hm, rfl⟩ := List.mem_map.mp hw
    have hlt := List.sizeOf_lt_of_mem hm
    have hmem : sizeOf m = 1 + sizeOf m.1 + sizeOf m.2 := rfl
    simp only [obj.sizeOf_spec]
    omega
  | _ => exact absurd hw List.not_mem_nil

/-- Values and the values in them. -/
def nesting : Nesting PyValue := ⟨children, sizeOf, sizeOf_lt_of_mem_children⟩

/-! ### The walk -/

/-- The texts of a value itself: its characters, or its keys. -/
def texts : PyValue → List PyText
  | .str s => [s]
  | .obj ms => ms.map Prod.fst
  | _ => []

/-- `size += ...`: the bytes of the texts of a value. -/
def encodeTexts (texts : List PyText) : Except EngineError ℕ :=
  match texts.mapM PyText.utf8Length? with
  | some sizes => .ok sizes.sum
  | none => .error (.configuration "invalid evaluation text")

/-- What one visit checks of the value itself; returns the bytes it counts for. -/
def visit (maxNodes : ℕ) : PyValue → Except EngineError ℕ
  | .obj ms =>
    if ms.length > maxNodes then .error (.configuration "evaluation object limit exceeded")
    else encodeTexts (ms.map Prod.fst)
  | .arr xs =>
    if xs.length > maxNodes then .error (.configuration "evaluation array limit exceeded")
    else .ok 0
  | .str s => encodeTexts [s]
  | .float x =>
    if x.value?.isNone then .error (.configuration "evaluation values must be finite")
    else .ok 0
  | _ => .ok 0

/-- The loop of `bounded_value`. The top of the stack is the head of `pending`; the first argument
is the number of values that may still be looked at. -/
def boundedLoop (maxNodes maxDepth : ℕ) :
    ℕ → List (PyValue × ℕ) → ℕ → Except EngineError Unit
  | _, [], _ => .ok ()
  | 0, _ :: _, _ => .error (.configuration "evaluation value complexity limit exceeded")
  | left + 1, (item, depth) :: pending, size =>
    if depth > maxDepth then
      .error (.configuration "evaluation value complexity limit exceeded")
    else do
      let bytes ← visit maxNodes item
      if size + bytes > 65536 ∨ (nesting.push item depth pending).length > maxNodes then
        .error (.configuration "evaluation value size limit exceeded")
      else boundedLoop maxNodes maxDepth left (nesting.push item depth pending) (size + bytes)

def boundedValue (value : PyValue) (maxNodes : ℕ) (maxDepth : ℕ) : Except EngineError Unit :=
  boundedLoop maxNodes maxDepth maxNodes [(value, 0)] 0

/-! ### The bounds -/

/-- The value itself and every element and member value in it, each with its nesting depth. -/
def positions (v : PyValue) : List (PyValue × ℕ) := nesting.positions v 0

/-- The bytes of the texts of a value itself. -/
def ownSize (v : PyValue) : ℕ := (v.texts.map PyText.utf8Size).sum

/-- The texts of a value itself can be encoded, and it is no infinity and no NaN. -/
structure Sound (v : PyValue) : Prop where
  texts_encodable : ∀ t ∈ v.texts, t.encodable = true
  finite : ∀ x, v = .float x → x.value?.isSome = true

/-- **The bounded values.** -/
structure Bounded (maxNodes maxDepth : ℕ) (v : PyValue) : Prop where
  nodes : v.positions.length ≤ maxNodes
  depth : ∀ p ∈ v.positions, p.2 ≤ maxDepth
  size : (v.positions.map fun p => p.1.ownSize).sum ≤ 65536
  sound : ∀ p ∈ v.positions, p.1.Sound

theorem sound_arr (xs : List PyValue) : (PyValue.arr xs).Sound :=
  ⟨fun _ ht => absurd ht List.not_mem_nil, fun _ hx => absurd hx (by simp)⟩

theorem sound_obj_iff {ms : List (PyText × PyValue)} :
    (PyValue.obj ms).Sound ↔ ∀ t ∈ ms.map Prod.fst, t.encodable = true :=
  ⟨Sound.texts_encodable, fun h => ⟨h, fun _ hx => absurd hx (by simp)⟩⟩

variable {texts : List PyText}

theorem mapM_utf8Length?_of_encodable (h : ∀ t ∈ texts, t.encodable = true) :
    texts.mapM PyText.utf8Length? = some (texts.map PyText.utf8Size) := by
  induction texts with
  | nil => rfl
  | cons t texts ih =>
    obtain ⟨ht, hrest⟩ := List.forall_mem_cons.mp h
    have hsize : PyText.utf8Length? t = some t.utf8Size := if_pos ht
    rw [List.mapM_cons, hsize, ih hrest]
    rfl

theorem mapM_utf8Length?_of_not_encodable {t : PyText} (hmem : t ∈ texts)
    (h : t.encodable = false) : texts.mapM PyText.utf8Length? = none := by
  induction texts with
  | nil => exact absurd hmem List.not_mem_nil
  | cons u texts ih =>
    rw [List.mapM_cons]
    cases hu : PyText.utf8Length? u with
    | none => rfl
    | some n =>
      rcases List.mem_cons.mp hmem with rfl | hrest
      · exact absurd hu (by simp [PyText.utf8Length?, h])
      · rw [ih hrest]
        rfl

theorem encodeTexts_eq_ok {n : ℕ} :
    encodeTexts texts = .ok n
      ↔ (∀ t ∈ texts, t.encodable = true) ∧ n = (texts.map PyText.utf8Size).sum := by
  unfold encodeTexts
  by_cases h : ∀ t ∈ texts, t.encodable = true
  · rw [mapM_utf8Length?_of_encodable h]
    exact ⟨fun heq => ⟨h, (Except.ok.inj heq).symm⟩, fun heq => by rw [heq.2]⟩
  · obtain ⟨t, ht, hbad⟩ : ∃ t ∈ texts, t.encodable = false := by simpa using h
    rw [mapM_utf8Length?_of_not_encodable ht hbad]
    exact ⟨fun heq => absurd heq (by simp), fun heq => absurd heq.1 h⟩

/-- One visit succeeds on a sound value with few enough values in it. -/
theorem visit_eq_ok {maxNodes n : ℕ} {v : PyValue} :
    visit maxNodes v = .ok n ↔ v.children.length ≤ maxNodes ∧ v.Sound ∧ n = v.ownSize := by
  cases v with
  | obj ms =>
    rw [sound_obj_iff, visit, children, List.length_map]
    split
    · rename_i hmany
      exact ⟨fun h => absurd h (by simp), fun h => absurd h.1 (by omega)⟩
    · rename_i hfew
      rw [encodeTexts_eq_ok]
      exact ⟨fun h => ⟨by omega, h⟩, fun h => h.2⟩
  | arr xs =>
    rw [visit, children]
    split
    · rename_i hmany
      exact ⟨fun h => absurd h (by simp), fun h => absurd h.1 (by omega)⟩
    · rename_i hfew
      exact ⟨fun h => ⟨by omega, sound_arr xs, (Except.ok.inj h).symm⟩, fun h => by rw [h.2.2]; rfl⟩
  | str s =>
    have hsound : (PyValue.str s).Sound ↔ ∀ t ∈ [s], t.encodable = true :=
      ⟨Sound.texts_encodable, fun h => ⟨h, fun x hx => absurd hx (by simp)⟩⟩
    rw [hsound, visit, encodeTexts_eq_ok]
    exact ⟨fun h => ⟨Nat.zero_le _, h⟩, fun h => h.2⟩
  | float x =>
    rw [visit]
    split
    · rename_i hnone
      refine ⟨fun h => absurd h (by simp), fun h => ?_⟩
      have hsome := h.2.1.finite x rfl
      rw [Option.isNone_iff_eq_none] at hnone
      exact absurd hsome (by simp [hnone])
    · rename_i hsome
      have hsound : (PyValue.float x).Sound := by
        refine ⟨fun t ht => absurd ht List.not_mem_nil, fun y hy => ?_⟩
        obtain rfl := PyValue.float.inj hy
        simpa [Option.isNone_iff_eq_none, Option.isSome_iff_ne_none] using hsome
      exact ⟨fun h => ⟨Nat.zero_le _, hsound, (Except.ok.inj h).symm⟩, fun h => by rw [h.2.2]; rfl⟩
  | _ =>
    refine ⟨fun h => ⟨Nat.zero_le _, ⟨fun t ht => absurd ht List.not_mem_nil, ?_⟩,
      (Except.ok.inj h).symm⟩, fun h => by rw [h.2.2]; rfl⟩
    exact fun x hx => absurd hx (by simp)

/-- **The loop**: with `left` more visits allowed it succeeds exactly when everything pending fits
the bounds. A stack never holds more than what is left to visit, so its own limit adds nothing. -/
theorem boundedLoop_ok_iff {maxNodes maxDepth left size : ℕ} {pending : List (PyValue × ℕ)}
    (hleft : left ≤ maxNodes) (hsize : size ≤ 65536) :
    boundedLoop maxNodes maxDepth left pending size = .ok ()
      ↔ (nesting.pendingPositions pending).length ≤ left
        ∧ (∀ p ∈ nesting.pendingPositions pending, p.2 ≤ maxDepth ∧ p.1.Sound)
        ∧ size + ((nesting.pendingPositions pending).map fun p => p.1.ownSize).sum ≤ 65536 := by
  induction left generalizing pending size with
  | zero =>
    cases pending with
    | nil => simpa [boundedLoop] using hsize
    | cons p pending =>
      have hlength := nesting.length_le_pendingPositions (p :: pending)
      rw [List.length_cons] at hlength
      exact ⟨fun h => absurd h (by simp [boundedLoop]), fun h => absurd h.1 (by omega)⟩
  | succ left ih =>
    cases pending with
    | nil => simpa [boundedLoop] using hsize
    | cons p pending =>
      obtain ⟨item, depth⟩ := p
      have hperm := nesting.pendingPositions_push item depth pending
      have hstack := nesting.length_le_pendingPositions (nesting.push item depth pending)
      have hchildren : item.children.length ≤ (nesting.push item depth pending).length :=
        nesting.length_children_le_push item depth pending
      rw [hperm.length_eq, (hperm.map _).sum_eq, List.length_cons, List.map_cons, List.sum_cons]
      simp only [hperm.mem_iff, List.forall_mem_cons]
      rw [boundedLoop]
      by_cases hdepth : depth > maxDepth
      · rw [if_pos hdepth]
        exact ⟨fun h => absurd h (by simp), fun h => absurd h.2.1.1.1 (by omega)⟩
      · rw [if_neg hdepth]
        cases hvisit : visit maxNodes item with
        | error e =>
          refine ⟨fun h => absurd h (by simp [bind, Except.bind]), fun h => ?_⟩
          have hok : visit maxNodes item = .ok item.ownSize :=
            visit_eq_ok.mpr ⟨by have := h.1; omega, h.2.1.1.2, rfl⟩
          exact absurd (hvisit.symm.trans hok) (by simp)
        | ok bytes =>
          obtain ⟨-, hsound, rfl⟩ := visit_eq_ok.mp hvisit
          show (if _ then _ else _) = _ ↔ _
          split
          · rename_i hover
            refine ⟨fun h => absurd h (by simp), fun h => ?_⟩
            obtain ⟨hlength, -, htotal⟩ := h
            omega
          · rename_i hwithin
            rw [ih (by omega) (by omega)]
            constructor
            · rintro ⟨hlength, hall, htotal⟩
              exact ⟨by omega, ⟨⟨by omega, hsound⟩, hall⟩, by omega⟩
            · rintro ⟨hlength, ⟨-, hall⟩, htotal⟩
              exact ⟨by omega, hall, by omega⟩

variable {maxNodes maxDepth : ℕ}

/-- **Exactly the bounded values pass.** -/
theorem boundedValue_ok_iff {v : PyValue} :
    boundedValue v maxNodes maxDepth = .ok () ↔ Bounded maxNodes maxDepth v := by
  rw [boundedValue, boundedLoop_ok_iff (le_refl _) (Nat.zero_le _),
    Nesting.pendingPositions_singleton, Nat.zero_add]
  constructor
  · rintro ⟨hnodes, hall, hsize⟩
    exact ⟨hnodes, fun p hp => (hall p hp).1, hsize, fun p hp => (hall p hp).2⟩
  · rintro ⟨hnodes, hdepth, hsize, hsound⟩
    exact ⟨hnodes, fun p hp => ⟨hdepth p hp, hsound p hp⟩, hsize⟩

/-! ### The order of elements and members -/

/-- The same value up to the order of elements and members, at any depth. -/
inductive Reorders : PyValue → PyValue → Prop where
  | refl (v : PyValue) : Reorders v v
  | trans {u v w : PyValue} : Reorders u v → Reorders v w → Reorders u w
  | elements {xs ys : List PyValue} : xs.Perm ys → Reorders (.arr xs) (.arr ys)
  | members {ms ns : List (PyText × PyValue)} : ms.Perm ns → Reorders (.obj ms) (.obj ns)
  | element {l r : List PyValue} {x y : PyValue} :
      Reorders x y → Reorders (.arr (l ++ x :: r)) (.arr (l ++ y :: r))
  | member {l r : List (PyText × PyValue)} {k : PyText} {x y : PyValue} :
      Reorders x y → Reorders (.obj (l ++ (k, x) :: r)) (.obj (l ++ (k, y) :: r))

/-- What the bounds look at in the positions of a value. -/
def marks (v : PyValue) (depth : ℕ) : List (ℕ × ℕ × Prop) :=
  (nesting.positions v depth).map fun p => (p.2, p.1.ownSize, p.1.Sound)

theorem marks_cons (v : PyValue) (depth : ℕ) :
    marks v depth
      = (depth, v.ownSize, v.Sound) :: v.children.flatMap fun w => marks w (depth + 1) := by
  rw [marks, Nesting.positions_cons, List.map_cons, List.map_flatMap]
  rfl

variable {u v : PyValue}

theorem marks_perm {depth : ℕ} (hsize : u.ownSize = v.ownSize) (hsound : u.Sound ↔ v.Sound)
    (hbelow : (u.children.flatMap fun w => marks w (depth + 1)).Perm
      (v.children.flatMap fun w => marks w (depth + 1))) :
    (marks u depth).Perm (marks v depth) := by
  rw [marks_cons, marks_cons, hsize, propext hsound]
  exact hbelow.cons _

theorem Reorders.marks_perm (h : Reorders u v) (depth : ℕ) :
    (marks u depth).Perm (marks v depth) := by
  induction h generalizing depth with
  | refl v => exact .refl _
  | trans _ _ ih1 ih2 => exact (ih1 depth).trans (ih2 depth)
  | @elements xs ys hperm =>
    exact PyValue.marks_perm rfl (iff_of_true (sound_arr xs) (sound_arr ys))
      (hperm.flatMap_right _)
  | @members ms ns hperm =>
    have hkeys := hperm.map Prod.fst
    refine PyValue.marks_perm (hkeys.map PyText.utf8Size).sum_eq ?_
      ((hperm.map Prod.snd).flatMap_right _)
    simp only [sound_obj_iff, hkeys.mem_iff]
  | @element l r x y _ ih =>
    refine PyValue.marks_perm rfl (iff_of_true (sound_arr _) (sound_arr _)) ?_
    simp only [children, List.flatMap_append, List.flatMap_cons]
    exact ((ih (depth + 1)).append_right _).append_left _
  | @member l r k x y _ ih =>
    have hkeys : (l ++ (k, x) :: r).map Prod.fst = (l ++ (k, y) :: r).map Prod.fst := by simp
    refine PyValue.marks_perm ?_ ?_ ?_
    · simp only [ownSize, texts, hkeys]
    · simp only [sound_obj_iff, hkeys]
    · simp only [children, List.map_append, List.map_cons, List.flatMap_append, List.flatMap_cons]
      exact ((ih (depth + 1)).append_right _).append_left _

theorem bounded_iff_marks {v : PyValue} :
    Bounded maxNodes maxDepth v
      ↔ (marks v 0).length ≤ maxNodes ∧ (∀ m ∈ marks v 0, m.1 ≤ maxDepth ∧ m.2.2)
        ∧ ((marks v 0).map fun m => m.2.1).sum ≤ 65536 := by
  simp only [marks, List.length_map, List.forall_mem_map, List.map_map, Function.comp_def]
  constructor
  · rintro ⟨hnodes, hdepth, hsize, hsound⟩
    exact ⟨hnodes, fun p hp => ⟨hdepth p hp, hsound p hp⟩, hsize⟩
  · rintro ⟨hnodes, hall, hsize⟩
    exact ⟨hnodes, fun p hp => (hall p hp).1, hsize, fun p hp => (hall p hp).2⟩

/-- The bounds do not see the order of elements and members. -/
theorem Bounded.reorder (h : Reorders u v) :
    Bounded maxNodes maxDepth u ↔ Bounded maxNodes maxDepth v := by
  have hperm := h.marks_perm 0
  rw [bounded_iff_marks, bounded_iff_marks, hperm.length_eq, (hperm.map _).sum_eq]
  simp only [hperm.mem_iff]

/-- **`bounded_value` accepts exactly the bounded values**: at most `maxNodes` values nested at most
`maxDepth` deep, with texts that can be encoded in at most 65536 bytes together and no number that
is not finite. The order of elements and members does not matter. -/
theorem boundedValue_decides_bounded (v : PyValue) (maxNodes maxDepth : ℕ) :
    (boundedValue v maxNodes maxDepth = .ok () ↔ Bounded maxNodes maxDepth v)
      ∧ ∀ w, Reorders v w →
          (boundedValue w maxNodes maxDepth = .ok () ↔ boundedValue v maxNodes maxDepth = .ok ()) :=
  ⟨boundedValue_ok_iff, fun w hw => by
    rw [boundedValue_ok_iff, boundedValue_ok_iff]
    exact (Bounded.reorder hw).symm⟩

end PyValue

end AgentRuntime.Evaluation
