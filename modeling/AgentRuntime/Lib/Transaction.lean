import Mathlib.Tactic.Common

/-!
# Transactions as statement programs

A database transaction is the tree of SQL statements it may issue: each statement is answered by
the database and the answer decides the next one. The tree is a monad, so a service method is
written once, in the order in which it talks to the database, and has two meanings.

* `Tx.run`: the transaction runs alone: the locks it takes are free and its writes are applied
  as they come; `busy` tells a `SKIP LOCKED` statement which locks other transactions hold.
* The interleaved meaning, statement by statement among other transactions, is given in the
  interleaving library.

A `Request` is a transaction with an `except` clause around it. `Tx.run_bind` and its companions
push `run` through `do` blocks; `applyAll` replays the writes a transaction has made.
-/

namespace AgentRuntime.Lib

/-- What a write statement does to the stored state, or the constraint it violates. -/
class Writes (σ ω : Type) (ε : outParam Type) where
  apply : ω → σ → Except ε σ

/-- A transaction over states `σ`, write statements `ω`, locks `ℓ` and exceptions `ε`. -/
inductive Tx (σ ω ℓ ε α : Type) where
  /-- Commit and return. -/
  | done (a : α)
  /-- Raise, which rolls back. -/
  | raise (e : ε)
  /-- Wait for a lock; it is held to the end of the transaction. -/
  | lock (l : ℓ) (next : Tx σ ω ℓ ε α)
  /-- Take the locks `pick` chooses among those nobody else holds (`FOR UPDATE SKIP LOCKED`). -/
  | lockFree (pick : σ → (ℓ → Bool) → List ℓ) (next : List ℓ → Tx σ ω ℓ ε α)
  /-- A read statement. -/
  | query (next : σ → Tx σ ω ℓ ε α)
  /-- A write statement. -/
  | write (w : ω) (next : Tx σ ω ℓ ε α)

namespace Tx

variable {σ ω ℓ ε α β : Type}

/-- Sequencing. -/
def bind : Tx σ ω ℓ ε α → (α → Tx σ ω ℓ ε β) → Tx σ ω ℓ ε β
  | .done a, f => f a
  | .raise e, _ => .raise e
  | .lock l next, f => .lock l (next.bind f)
  | .lockFree pick next, f => .lockFree pick fun ls => (next ls).bind f
  | .query next, f => .query fun s => (next s).bind f
  | .write w next, f => .write w (next.bind f)

instance : Monad (Tx σ ω ℓ ε) where
  pure := .done
  bind := bind

/-- Read a value from the current state. -/
def read (f : σ → α) : Tx σ ω ℓ ε α := .query fun s => .done (f s)

/-- Wait for one lock. -/
def acquire (l : ℓ) : Tx σ ω ℓ ε Unit := .lock l (.done ())

/-- Take every free lock of those `pick` lists, and say which. -/
def acquireFree (pick : σ → (ℓ → Bool) → List ℓ) : Tx σ ω ℓ ε (List ℓ) := .lockFree pick .done

/-- Issue one write statement. -/
def exec (w : ω) : Tx σ ω ℓ ε Unit := .write w (.done ())

/-- Raise a value computed outside the database. -/
def ofExcept : Except ε α → Tx σ ω ℓ ε α
  | .ok a => .done a
  | .error e => .raise e

/-- Run a statement sequence for every element of a list. -/
def forEach : List β → (β → Tx σ ω ℓ ε Unit) → Tx σ ω ℓ ε Unit
  | [], _ => .done ()
  | x :: xs, f => (f x).bind fun _ => forEach xs f

@[simp] theorem pure_eq (a : α) : (pure a : Tx σ ω ℓ ε α) = .done a := rfl

@[simp] theorem bind_eq (t : Tx σ ω ℓ ε α) (f : α → Tx σ ω ℓ ε β) : (t >>= f) = t.bind f := rfl

theorem done_bind (a : α) (f : α → Tx σ ω ℓ ε β) : (Tx.done a : Tx σ ω ℓ ε α).bind f = f a := rfl

theorem bind_done (t : Tx σ ω ℓ ε α) : t.bind .done = t := by
  induction t with
  | done a => rfl
  | raise e => rfl
  | lock l next ih => exact congrArg (Tx.lock l) ih
  | lockFree pick next ih => exact congrArg (Tx.lockFree pick) (funext ih)
  | query next ih => exact congrArg Tx.query (funext ih)
  | write w next ih => exact congrArg (Tx.write w) ih

theorem bind_assoc {γ : Type} (t : Tx σ ω ℓ ε α) (f : α → Tx σ ω ℓ ε β) (g : β → Tx σ ω ℓ ε γ) :
    (t.bind f).bind g = t.bind fun a => (f a).bind g := by
  induction t with
  | done a => rfl
  | raise e => rfl
  | lock l next ih => exact congrArg (Tx.lock l) ih
  | lockFree pick next ih => exact congrArg (Tx.lockFree pick) (funext ih)
  | query next ih => exact congrArg Tx.query (funext ih)
  | write w next ih => exact congrArg (Tx.write w) ih

/-! ### Running alone -/

variable [Writes σ ω ε]

/-- The transaction runs alone from `s`; `busy` are the locks others hold. -/
def run (busy : ℓ → Bool) : Tx σ ω ℓ ε α → σ → Except ε (α × σ)
  | .done a, s => .ok (a, s)
  | .raise e, _ => .error e
  | .lock _ next, s => next.run busy s
  | .lockFree pick next, s => (next (pick s busy)).run busy s
  | .query next, s => (next s).run busy s
  | .write w next, s =>
    match Writes.apply w s with
    | .ok s' => next.run busy s'
    | .error e => .error e

variable (busy : ℓ → Bool) (s : σ)

@[simp] theorem run_done (a : α) : (.done a : Tx σ ω ℓ ε α).run busy s = .ok (a, s) := rfl

@[simp] theorem run_raise (e : ε) : (.raise e : Tx σ ω ℓ ε α).run busy s = .error e := rfl

@[simp] theorem run_read (f : σ → α) :
    (read f : Tx σ ω ℓ ε α).run busy s = .ok (f s, s) := rfl

@[simp] theorem run_acquire (l : ℓ) :
    (acquire l : Tx σ ω ℓ ε Unit).run busy s = .ok ((), s) := rfl

@[simp] theorem run_acquireFree (pick : σ → (ℓ → Bool) → List ℓ) :
    (acquireFree pick : Tx σ ω ℓ ε (List ℓ)).run busy s = .ok (pick s busy, s) := rfl

@[simp] theorem run_exec (w : ω) :
    (exec w : Tx σ ω ℓ ε Unit).run busy s = (Writes.apply w s).map fun s' => ((), s') := by
  simp only [exec, run]
  cases Writes.apply w s <;> rfl

@[simp] theorem run_ofExcept (x : Except ε α) :
    (ofExcept x : Tx σ ω ℓ ε α).run busy s = x.map fun a => (a, s) := by
  cases x <;> rfl

/-- **Running a sequence** runs the first part and then the second from where it stopped. -/
@[simp] theorem run_bind (t : Tx σ ω ℓ ε α) (f : α → Tx σ ω ℓ ε β) :
    (t.bind f).run busy s = (t.run busy s).bind fun p => (f p.1).run busy p.2 := by
  induction t generalizing s with
  | done a => rfl
  | raise e => rfl
  | lock l next ih => exact ih s
  | lockFree pick next ih => exact ih (pick s busy) s
  | query next ih => exact ih s s
  | write w next ih =>
    simp only [bind, run]
    cases Writes.apply w s with
    | ok s' => exact ih s'
    | error e => rfl

omit [Writes σ ω ε] in
@[simp] theorem ok_bind (a : α) (f : α → Except ε β) : (Except.ok a).bind f = f a := rfl

omit [Writes σ ω ε] in
@[simp] theorem error_bind (e : ε) (f : α → Except ε β) :
    (Except.error e : Except ε α).bind f = .error e := rfl

omit [Writes σ ω ε] in
@[simp] theorem ok_map (a : α) (f : α → β) : (Except.ok a : Except ε α).map f = .ok (f a) := rfl

omit [Writes σ ω ε] in
@[simp] theorem error_map (e : ε) (f : α → β) :
    (Except.error e : Except ε α).map f = .error e := rfl

omit [Writes σ ω ε] in
/-- A sequence of exceptions succeeds when both parts do. -/
theorem bind_eq_ok {x : Except ε α} {f : α → Except ε β} {b : β} :
    x.bind f = .ok b ↔ ∃ a, x = .ok a ∧ f a = .ok b := by
  cases x with
  | error e => simp [Except.bind]
  | ok a => simp [Except.bind]

omit [Writes σ ω ε] in
theorem map_eq_ok {x : Except ε α} {f : α → β} {b : β} :
    x.map f = .ok b ↔ ∃ a, x = .ok a ∧ f a = b := by
  cases x with
  | error e => simp [Except.map]
  | ok a => simp [Except.map]

omit [Writes σ ω ε] in
theorem map_eq_error {x : Except ε α} {f : α → β} {e : ε} : x.map f = .error e ↔ x = .error e := by
  cases x with
  | error e => simp [Except.map]
  | ok a => simp [Except.map]

end Tx

/-! ### Requests -/

/-- A transaction with an `except` clause around it: after a rollback with an exception that
`handler` knows, the request goes on with a second transaction. -/
structure Request (σ ω ℓ ε α : Type) where
  body : Tx σ ω ℓ ε α
  handler : ε → Option (Tx σ ω ℓ ε α)

/-- The request runs alone; a rolled-back body leaves the state as it was. -/
def Request.run {σ ω ℓ ε α : Type} [Writes σ ω ε] (busy : ℓ → Bool) (r : Request σ ω ℓ ε α)
    (s : σ) : Except ε (α × σ) :=
  match r.body.run busy s with
  | .ok x => .ok x
  | .error e =>
    match r.handler e with
    | some t => t.run busy s
    | none => .error e

section Request

variable {σ ω ℓ ε α β : Type}

/-- A transaction without an `except` clause. -/
def Tx.toRequest (t : Tx σ ω ℓ ε α) : Request σ ω ℓ ε α := ⟨t, fun _ => none⟩

/-- Wrap the result of a request. -/
def Request.map (f : α → β) (r : Request σ ω ℓ ε α) : Request σ ω ℓ ε β where
  body := r.body.bind fun a => .done (f a)
  handler e := (r.handler e).map fun t => t.bind fun a => .done (f a)

variable [Writes σ ω ε] (busy : ℓ → Bool) (s : σ)

theorem Tx.run_toRequest (t : Tx σ ω ℓ ε α) : t.toRequest.run busy s = t.run busy s := by
  unfold Request.run toRequest
  cases t.run busy s <;> rfl

theorem Tx.run_bind_done (t : Tx σ ω ℓ ε α) (f : α → β) :
    (t.bind fun a => .done (f a)).run busy s = (t.run busy s).map fun p => (f p.1, p.2) := by
  rw [Tx.run_bind]
  cases t.run busy s <;> rfl

theorem Request.run_map (f : α → β) (r : Request σ ω ℓ ε α) :
    (r.map f).run busy s = (r.run busy s).map fun p => (f p.1, p.2) := by
  unfold Request.run Request.map
  rw [Tx.run_bind_done]
  cases r.body.run busy s with
  | ok p => rfl
  | error e =>
    simp only [Tx.error_map]
    cases r.handler e with
    | none => rfl
    | some t => exact Tx.run_bind_done busy s t f

end Request

/-! ### Replaying writes -/

section Replay

variable {σ ω ε : Type} [Writes σ ω ε]

/-- Apply a list of writes in order, stopping at the first violated constraint. -/
def applyAll : List ω → σ → Except ε σ
  | [], s => .ok s
  | w :: ws, s => (Writes.apply w s).bind (applyAll ws)

@[simp] theorem applyAll_nil (s : σ) : applyAll ([] : List ω) s = .ok s := rfl

theorem applyAll_cons_ok {w : ω} {ws : List ω} {s s' : σ} :
    applyAll (w :: ws) s = .ok s' ↔ ∃ s1, Writes.apply w s = .ok s1 ∧ applyAll ws s1 = .ok s' :=
  Tx.bind_eq_ok

theorem applyAll_append_ok {ws vs : List ω} {s s' : σ} :
    applyAll (ws ++ vs) s = .ok s' ↔ ∃ s1, applyAll ws s = .ok s1 ∧ applyAll vs s1 = .ok s' := by
  induction ws generalizing s with
  | nil => simp
  | cons w ws ih =>
    rw [List.cons_append, applyAll_cons_ok]
    constructor
    · rintro ⟨s1, h1, h2⟩
      obtain ⟨s2, h3, h4⟩ := ih.mp h2
      exact ⟨s2, applyAll_cons_ok.mpr ⟨s1, h1, h3⟩, h4⟩
    · rintro ⟨s2, h, h4⟩
      obtain ⟨s1, h1, h3⟩ := applyAll_cons_ok.mp h
      exact ⟨s1, h1, ih.mpr ⟨s2, h3, h4⟩⟩

end Replay

end AgentRuntime.Lib
