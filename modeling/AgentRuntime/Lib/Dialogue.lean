import Mathlib.Tactic.Common

/-!
# Dialogues

A program that depends on a component it does not control is a tree of questions: it asks, and goes
on with whatever the component answers. What the component answers is a sequence, one answer to
each question in the order they are asked, so that a statement about every behaviour of the
component is a statement about every sequence.

* `Dialogue.run`: the questions asked and the result, with the answers from the `n`-th on;
* `Dialogue.run_bind`: one program after the other.
-/

namespace AgentRuntime.Lib

/-- A program that asks questions and goes on with the answers. -/
inductive Dialogue (Q R α : Type) where
  | done (a : α)
  | ask (q : Q) (next : R → Dialogue Q R α)

namespace Dialogue

variable {Q R α β : Type}

/-- One program after the other. -/
def bind : Dialogue Q R α → (α → Dialogue Q R β) → Dialogue Q R β
  | .done a, f => f a
  | .ask q next, f => .ask q fun r => (next r).bind f

/-- The questions asked and the result, when the answers start with the `n`-th. -/
def run (answers : ℕ → R) : Dialogue Q R α → ℕ → List Q × α
  | .done a, _ => ([], a)
  | .ask q next, n =>
    let rest := (next (answers n)).run answers (n + 1)
    (q :: rest.1, rest.2)

variable (answers : ℕ → R)

@[simp] theorem run_done (a : α) (n : ℕ) : (done a : Dialogue Q R α).run answers n = ([], a) := rfl

theorem run_ask (q : Q) (next : R → Dialogue Q R α) (n : ℕ) :
    (ask q next).run answers n
      = (q :: ((next (answers n)).run answers (n + 1)).1,
        ((next (answers n)).run answers (n + 1)).2) := rfl

/-- **One program after the other** asks the questions of the first, then those of the second. -/
theorem run_bind (x : Dialogue Q R α) (f : α → Dialogue Q R β) (n : ℕ) :
    (x.bind f).run answers n
      = ((x.run answers n).1
          ++ ((f (x.run answers n).2).run answers (n + (x.run answers n).1.length)).1,
        ((f (x.run answers n).2).run answers (n + (x.run answers n).1.length)).2) := by
  induction x generalizing n with
  | done a => simp [bind]
  | ask q next ih =>
    simp only [bind, run_ask, ih, List.cons_append, List.length_cons]
    rw [show n + 1 + ((next (answers n)).run answers (n + 1)).1.length
      = n + (((next (answers n)).run answers (n + 1)).1.length + 1) by omega]

end Dialogue

end AgentRuntime.Lib
