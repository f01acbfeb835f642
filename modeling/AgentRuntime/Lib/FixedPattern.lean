import Mathlib.Data.List.Basic

/-!
# Patterns of fixed width

A pattern with one class of characters for each position. A text matches it if it has the same
length and each character is in its class. Patterns are put together with `++` from literals and
repeated classes, and the text of a composed pattern falls apart in the same way.

* `FixedPattern.accepts`: the match of a whole text;
* `FixedPattern.accepts_append_iff`: a text of a composed pattern is composed;
* `FixedPattern.accepts_literal_iff`, `FixedPattern.accepts_times_iff`: the two building blocks.
-/

namespace AgentRuntime.Lib

variable {α : Type}

/-- A class of characters for each position. -/
abbrev FixedPattern (α : Type) := List (α → Bool)

namespace FixedPattern

/-- The whole text matches. -/
def accepts : FixedPattern α → List α → Bool
  | [], [] => true
  | p :: ps, c :: cs => p c && accepts ps cs
  | [], _ :: _ => false
  | _ :: _, [] => false

/-- The pattern of one text. -/
def literal [DecidableEq α] (text : List α) : FixedPattern α := text.map fun c d => decide (d = c)

/-- A class that is repeated. -/
def times (n : ℕ) (p : α → Bool) : FixedPattern α := List.replicate n p

theorem accepts_cons_iff {p : α → Bool} {ps : FixedPattern α} {cs : List α} :
    accepts (p :: ps) cs = true
      ↔ ∃ c rest, cs = c :: rest ∧ p c = true ∧ accepts ps rest = true := by
  cases cs with
  | nil => simp [accepts]
  | cons c rest => simp [accepts]

theorem accepts_nil_iff {cs : List α} : accepts [] cs = true ↔ cs = [] := by
  cases cs with
  | nil => simp [accepts]
  | cons c rest => simp [accepts]

/-- A text of a composed pattern is composed of texts of its parts. -/
theorem accepts_append_iff {P Q : FixedPattern α} {cs : List α} :
    accepts (P ++ Q) cs = true
      ↔ ∃ as bs, cs = as ++ bs ∧ accepts P as = true ∧ accepts Q bs = true := by
  induction P generalizing cs with
  | nil =>
    constructor
    · intro h
      exact ⟨[], cs, rfl, rfl, h⟩
    · rintro ⟨as, bs, rfl, has, hbs⟩
      rw [accepts_nil_iff.mp has]
      exact hbs
  | cons p ps ih =>
    rw [List.cons_append, accepts_cons_iff]
    constructor
    · rintro ⟨c, rest, rfl, hc, hrest⟩
      obtain ⟨as, bs, rfl, has, hbs⟩ := ih.mp hrest
      exact ⟨c :: as, bs, rfl, accepts_cons_iff.mpr ⟨c, as, rfl, hc, has⟩, hbs⟩
    · rintro ⟨as, bs, rfl, has, hbs⟩
      obtain ⟨c, rest, rfl, hc, hrest⟩ := accepts_cons_iff.mp has
      exact ⟨c, rest ++ bs, rfl, hc, ih.mpr ⟨rest, bs, rfl, hrest, hbs⟩⟩

theorem accepts_literal_iff [DecidableEq α] {text cs : List α} :
    accepts (literal text) cs = true ↔ cs = text := by
  induction text generalizing cs with
  | nil => exact accepts_nil_iff
  | cons t text ih =>
    show accepts ((fun d => decide (d = t)) :: literal text) cs = true ↔ _
    rw [accepts_cons_iff]
    constructor
    · rintro ⟨c, rest, rfl, hc, hrest⟩
      rw [of_decide_eq_true hc, ih.mp hrest]
    · rintro rfl
      exact ⟨t, text, rfl, decide_eq_true rfl, ih.mpr rfl⟩

theorem accepts_times_iff {n : ℕ} {p : α → Bool} {cs : List α} :
    accepts (times n p) cs = true ↔ cs.length = n ∧ ∀ c ∈ cs, p c = true := by
  induction n generalizing cs with
  | zero =>
    show accepts [] cs = true ↔ _
    rw [accepts_nil_iff]
    constructor
    · rintro rfl
      exact ⟨rfl, List.forall_mem_nil _⟩
    · intro h
      exact List.length_eq_zero_iff.mp h.1
  | succ n ih =>
    show accepts (p :: times n p) cs = true ↔ _
    rw [accepts_cons_iff]
    constructor
    · rintro ⟨c, rest, rfl, hc, hrest⟩
      obtain ⟨hlength, hall⟩ := ih.mp hrest
      exact ⟨congrArg (· + 1) hlength, List.forall_mem_cons.mpr ⟨hc, hall⟩⟩
    · rintro ⟨hlength, hall⟩
      obtain ⟨c, rest, rfl⟩ := List.exists_cons_of_length_eq_add_one hlength
      obtain ⟨hc, hrest⟩ := List.forall_mem_cons.mp hall
      exact ⟨c, rest, rfl, hc, ih.mpr ⟨Nat.succ.inj hlength, hrest⟩⟩

end FixedPattern

end AgentRuntime.Lib
