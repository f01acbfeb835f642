import AgentRuntime.Lib.Transaction

/-!
# Two runs of one transaction

What a transaction may not depend on is said by two runs of it: started in two states that differ
only in that respect, it returns the same or raises the same, and leaves states that again differ
only so. One rule for every statement proves this along the `do` block of the transaction; at a
read the two states have to give one answer, at a write they both have to accept it or to refuse it
with one exception.

* `Tx.Alike`: the judgement about two runs;
* `alike_read`, `alike_exec`, `Alike.bind`, …: its rules;
* `Request.Alike`, `Request.alike`: the same for a transaction with an `except` clause.
-/

namespace AgentRuntime.Lib

/-- Both results are the same exception, or one value with states related by `Q`. -/
inductive SameResult {σ ε α : Type} (Q : α → σ → σ → Prop) :
    Except ε (α × σ) → Except ε (α × σ) → Prop where
  | ok {a : α} {s1 s2 : σ} (h : Q a s1 s2) : SameResult Q (.ok (a, s1)) (.ok (a, s2))
  | error (e : ε) : SameResult Q (.error e) (.error e)

namespace SameResult

variable {σ ε α β : Type} {Q : α → σ → σ → Prop} {R : β → σ → σ → Prop}
  {x1 x2 : Except ε (α × σ)}

theorem bind {f : α × σ → Except ε (β × σ)} (h : SameResult Q x1 x2)
    (hf : ∀ a s1 s2, Q a s1 s2 → SameResult R (f (a, s1)) (f (a, s2))) :
    SameResult R (x1.bind f) (x2.bind f) := by
  cases h with
  | ok hQ => exact hf _ _ _ hQ
  | error e => exact .error e

theorem map {f : α → β} (h : SameResult Q x1 x2)
    (hf : ∀ a s1 s2, Q a s1 s2 → R (f a) s1 s2) :
    SameResult R (x1.map fun p => (f p.1, p.2)) (x2.map fun p => (f p.1, p.2)) := by
  cases h with
  | ok hQ => exact .ok (hf _ _ _ hQ)
  | error e => exact .error e

end SameResult

namespace Tx

variable {σ ω ℓ ε α β : Type} [Writes σ ω ε] {busy : ℓ → Bool} {s1 s2 : σ}

/-- The transaction does the same from `s1` and from `s2`, and if it commits then `Q`. -/
def Alike (busy : ℓ → Bool) (t : Tx σ ω ℓ ε α) (s1 s2 : σ) (Q : α → σ → σ → Prop) : Prop :=
  SameResult Q (t.run busy s1) (t.run busy s2)

variable {Q Q' : α → σ → σ → Prop}

theorem alike_done {a : α} (h : Q a s1 s2) : Alike busy (.done a : Tx σ ω ℓ ε α) s1 s2 Q := .ok h

theorem alike_raise (e : ε) : Alike busy (.raise e : Tx σ ω ℓ ε α) s1 s2 Q := .error e

theorem Alike.bind {R : β → σ → σ → Prop} {t : Tx σ ω ℓ ε α} {f : α → Tx σ ω ℓ ε β}
    (h : Alike busy t s1 s2 Q) (hf : ∀ a s1 s2, Q a s1 s2 → Alike busy (f a) s1 s2 R) :
    Alike busy (t.bind f) s1 s2 R := by
  unfold Alike
  rw [run_bind, run_bind]
  exact SameResult.bind h hf

/-- A read has to give one answer. -/
theorem alike_read {f : σ → α} (hread : f s1 = f s2) (h : Q (f s1) s1 s2) :
    Alike busy (read f : Tx σ ω ℓ ε α) s1 s2 Q := by
  unfold Alike
  rw [run_read, run_read, ← hread]
  exact .ok h

theorem alike_acquire {Q : Unit → σ → σ → Prop} (l : ℓ) (h : Q () s1 s2) :
    Alike busy (acquire l : Tx σ ω ℓ ε Unit) s1 s2 Q := .ok h

theorem alike_ofExcept {x : Except ε α} (h : ∀ a, x = .ok a → Q a s1 s2) :
    Alike busy (ofExcept x : Tx σ ω ℓ ε α) s1 s2 Q := by
  cases x with
  | ok a => exact .ok (h a rfl)
  | error e => exact .error e

/-- A write has to be accepted by both or refused by both. -/
theorem alike_exec {Q : Unit → σ → σ → Prop} {w : ω}
    (h : (∃ u1 u2, Writes.apply w s1 = .ok u1 ∧ Writes.apply w s2 = .ok u2 ∧ Q () u1 u2)
      ∨ ∃ e, Writes.apply w s1 = .error e ∧ Writes.apply w s2 = .error e) :
    Alike busy (exec w : Tx σ ω ℓ ε Unit) s1 s2 Q := by
  unfold Alike
  rw [run_exec, run_exec]
  rcases h with ⟨u1, u2, h1, h2, hQ⟩ | ⟨e, h1, h2⟩
  · rw [h1, h2]
    exact .ok hQ
  · rw [h1, h2]
    exact .error e

end Tx

section Requests

variable {σ ω ℓ ε α β : Type} [Writes σ ω ε] {busy : ℓ → Bool} {s1 s2 : σ} {Q : α → σ → σ → Prop}

/-- The request does the same from `s1` and from `s2`, and if it returns then `Q`. -/
def Request.Alike (busy : ℓ → Bool) (r : Request σ ω ℓ ε α) (s1 s2 : σ) (Q : α → σ → σ → Prop) :
    Prop :=
  SameResult Q (r.run busy s1) (r.run busy s2)

/-- **The `except` clause** starts from the same two states as the body. -/
theorem Request.alike {r : Request σ ω ℓ ε α} (hbody : Tx.Alike busy r.body s1 s2 Q)
    (hhandler : ∀ e t, r.handler e = some t → Tx.Alike busy t s1 s2 Q) :
    r.Alike busy s1 s2 Q := by
  unfold Request.Alike Request.run
  unfold Tx.Alike at hbody
  generalize r.body.run busy s1 = x1 at hbody
  generalize r.body.run busy s2 = x2 at hbody
  cases hbody with
  | ok hQ => exact .ok hQ
  | error e =>
    dsimp only
    cases ht : r.handler e with
    | none => exact .error e
    | some t => exact hhandler e t ht

theorem Tx.Alike.toRequest {t : Tx σ ω ℓ ε α} (h : t.Alike busy s1 s2 Q) :
    t.toRequest.Alike busy s1 s2 Q :=
  Request.alike h fun _ _ ht => absurd ht (by simp [Tx.toRequest])

/-- Wrapping the result. -/
theorem Request.Alike.map {R : β → σ → σ → Prop} {r : Request σ ω ℓ ε α} {f : α → β}
    (h : r.Alike busy s1 s2 Q) (hf : ∀ a s1 s2, Q a s1 s2 → R (f a) s1 s2) :
    (r.map f).Alike busy s1 s2 R := by
  unfold Request.Alike
  rw [Request.run_map, Request.run_map]
  exact SameResult.map h hf

end Requests

end AgentRuntime.Lib
