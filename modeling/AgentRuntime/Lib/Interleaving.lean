import AgentRuntime.Lib.Machine
import AgentRuntime.Lib.Transaction
import Mathlib.Logic.Relation

/-!
# Interleaved transactions

Any number of requests run at once over one committed state, one statement at a time. A statement
sees the committed state with the writes of its own transaction applied to it; the writes become
visible to others when the transaction commits, all at once. Lock statements and writes take
resources, shared or exclusive, and wait while another transaction holds a conflicting one; what a
transaction holds it keeps to its end. A raised exception rolls back, and so does an abort, which
may strike at any time.

* `Locking`: which resources a lock statement and a write statement take;
* `advance`: one statement of one transaction;
* `interleaving`: the machine whose inputs say which request starts, moves on or is aborted.
-/

namespace AgentRuntime.Lib

/-! ### Resources -/

/-- How a resource is held. -/
inductive Mode where
  | share
  | exclusive
  deriving DecidableEq, Repr

/-- A resource and how it is held. -/
abbrev Hold (ρ : Type) := ρ × Mode

section Holds

variable {ρ : Type}

/-- Two holds of one resource conflict unless both are shared. -/
def Conflicts (a b : Hold ρ) : Prop := a.1 = b.1 ∧ ¬ (a.2 = .share ∧ b.2 = .share)

instance [DecidableEq ρ] (a b : Hold ρ) : Decidable (Conflicts a b) :=
  inferInstanceAs (Decidable (_ ∧ _))

theorem Conflicts.symm {a b : Hold ρ} (h : Conflicts a b) : Conflicts b a :=
  ⟨h.1.symm, fun hshare => h.2 hshare.symm⟩

theorem conflicts_exclusive (r : ρ) (m : Mode) : Conflicts (r, .exclusive) (r, m) :=
  ⟨rfl, fun h => absurd h.1 (by simp)⟩

/-- No hold of the one list conflicts with one of the other. -/
def Apart (L L' : List (Hold ρ)) : Prop := ∀ a ∈ L, ∀ b ∈ L', ¬ Conflicts a b

theorem Apart.symm {L L' : List (Hold ρ)} (h : Apart L L') : Apart L' L :=
  fun a ha b hb hconflict => h b hb a ha hconflict.symm

theorem apart_nil (L : List (Hold ρ)) : Apart [] L := fun _ h => absurd h (by simp)

/-- What one side holds exclusively the other side does not hold. -/
theorem Apart.not_mem {L L' : List (Hold ρ)} (h : Apart L L') {r : ρ} {m : Mode}
    (hr : (r, .exclusive) ∈ L) : (r, m) ∉ L' :=
  fun hr' => h _ hr _ hr' (conflicts_exclusive r m)

end Holds

/-- Which resources the statements take: a lock statement one, exclusively; a write statement those
of the rows and keys it touches. -/
structure Locking (ω ℓ ρ : Type) where
  lock : ℓ → ρ
  write : ω → List (Hold ρ)

/-! ### Sessions -/

/-- Where a request stands. -/
inductive Stage (σ ω ℓ ε α ρ : Type) where
  /-- Inside a transaction that still has to run `prog`. -/
  | running (prog : Tx σ ω ℓ ε α) (handler : ε → Option (Tx σ ω ℓ ε α)) (held : List (Hold ρ))
      (writes : List ω)
  /-- Returned; the transaction committed `writes`. -/
  | committed (result : α) (writes : List ω)
  /-- Raised. -/
  | failed (error : ε)
  /-- Cut off. -/
  | aborted

namespace Stage

variable {σ ω ℓ ε α ρ : Type}

/-- The resources the request holds. -/
def held : Stage σ ω ℓ ε α ρ → List (Hold ρ)
  | .running _ _ held _ => held
  | _ => []

/-- After an exception: the transaction of the `except` clause, or the end. -/
def fail (handler : ε → Option (Tx σ ω ℓ ε α)) (e : ε) : Stage σ ω ℓ ε α ρ :=
  match handler e with
  | some t => .running t (fun _ => none) [] []
  | none => .failed e

theorem held_fail (handler : ε → Option (Tx σ ω ℓ ε α)) (e : ε) :
    (fail handler e : Stage σ ω ℓ ε α ρ).held = [] := by
  unfold fail
  split <;> rfl

/-- The resources the next statement waits for. -/
def asks (K : Locking ω ℓ ρ) : Stage σ ω ℓ ε α ρ → List (Hold ρ)
  | .running (.lock l _) _ _ _ => [(K.lock l, .exclusive)]
  | .running (.write w _) _ _ _ => K.write w
  | _ => []

end Stage

/-- A request of kind `tag` and where it stands. -/
structure Session (ι σ ω ℓ ε α ρ : Type) where
  tag : ι
  stage : Stage σ ω ℓ ε α ρ

/-- The committed state and all requests there have been. -/
structure Config (ι σ ω ℓ ε α ρ : Type) where
  store : σ
  sessions : List (Session ι σ ω ℓ ε α ρ)

/-- What happens next: a request starts, a transaction runs one statement, or it is cut off. -/
inductive Event (ι : Type) where
  | start (tag : ι)
  | step (i : ℕ)
  | abort (i : ℕ)

section Semantics

variable {ι σ ω ℓ ε α ρ : Type} [Writes σ ω ε]

/-- One statement; `free` tells which resources can be had without waiting. -/
def advance (K : Locking ω ℓ ρ) (free : Hold ρ → Bool) (s : σ) :
    Stage σ ω ℓ ε α ρ → σ × Stage σ ω ℓ ε α ρ
  | .running prog handler held writes =>
    match applyAll writes s with
    | .error e => (s, .fail handler e)
    | .ok v =>
      match prog with
      | .done a => (v, .committed a writes)
      | .raise e => (s, .fail handler e)
      | .lock l next =>
        if free (K.lock l, .exclusive) then
          (s, .running next handler ((K.lock l, .exclusive) :: held) writes)
        else (s, .running (.lock l next) handler held writes)
      | .lockFree pick next =>
        let isFree := fun l => free (K.lock l, .exclusive)
        let locks := (pick v fun l => !isFree l).filter isFree
        (s, .running (next locks) handler
          (locks.map (fun l => (K.lock l, .exclusive)) ++ held) writes)
      | .query next => (s, .running (next v) handler held writes)
      | .write w next =>
        if (K.write w).all free then
          match Writes.apply w v with
          | .ok _ => (s, .running next handler (K.write w ++ held) (writes ++ [w]))
          | .error e => (s, .fail handler e)
        else (s, .running (.write w next) handler held writes)
  | stage => (s, stage)

namespace Config

variable [DecidableEq ρ]

/-- No session but the `i`-th holds a resource that conflicts with `h`. -/
def free (c : Config ι σ ω ℓ ε α ρ) (i : ℕ) (h : Hold ρ) : Bool :=
  (c.sessions.eraseIdx i).all fun x => x.stage.held.all fun h' => decide (¬ Conflicts h h')

omit [Writes σ ω ε] in
theorem free_iff {c : Config ι σ ω ℓ ε α ρ} {i : ℕ} {h : Hold ρ} :
    c.free i h = true ↔ ∀ j y, j ≠ i → c.sessions[j]? = some y →
      ∀ h' ∈ y.stage.held, ¬ Conflicts h h' := by
  simp only [free, List.all_eq_true, decide_eq_true_eq, List.mem_eraseIdx_iff_getElem?]
  constructor
  · exact fun hall j y hj hy => hall y ⟨j, hj, hy⟩
  · rintro hall y ⟨j, hj, hy⟩
    exact hall j y hj hy

/-- The `i`-th session asks for something that the `j`-th holds. -/
def WaitsFor (K : Locking ω ℓ ρ) (c : Config ι σ ω ℓ ε α ρ) (i j : ℕ) : Prop :=
  i ≠ j ∧ ∃ x y, c.sessions[i]? = some x ∧ c.sessions[j]? = some y ∧
    ∃ h ∈ x.stage.asks K, ∃ h' ∈ y.stage.held, Conflicts h h'

end Config

variable [DecidableEq ρ]

/-- The machine of all requests: `program` says what a request of a kind runs. -/
def interleaving (program : ι → Request σ ω ℓ ε α) (K : Locking ω ℓ ρ) (init : σ) :
    Machine (Config ι σ ω ℓ ε α ρ) (Event ι) Unit where
  init := ⟨init, []⟩
  step c
    | .start tag =>
      let r := program tag
      ((), ⟨c.store, c.sessions ++ [⟨tag, .running r.body r.handler [] []⟩]⟩)
    | .step i =>
      match c.sessions[i]? with
      | none => ((), c)
      | some x =>
        let next := advance K (c.free i) c.store x.stage
        ((), ⟨next.1, c.sessions.set i ⟨x.tag, next.2⟩⟩)
    | .abort i =>
      match c.sessions[i]? with
      | some ⟨tag, .running _ _ _ _⟩ => ((), ⟨c.store, c.sessions.set i ⟨tag, .aborted⟩⟩)
      | _ => ((), c)

/-! ### One step of the machine -/

theorem getElem?_set_cases {β : Type _} {ys : List β} {i j : ℕ} {x x' y : β} (hx : ys[i]? = some x)
    (hy : (ys.set i x')[j]? = some y) : (j = i ∧ y = x') ∨ (j ≠ i ∧ ys[j]? = some y) := by
  have hlt := (List.getElem?_eq_some_iff.mp hx).1
  rw [List.getElem?_set] at hy
  by_cases hij : i = j
  · rw [if_pos hij, if_pos hlt] at hy
    exact .inl ⟨hij.symm, (Option.some.inj hy).symm⟩
  · rw [if_neg hij] at hy
    exact .inr ⟨fun h => hij h.symm, hy⟩

theorem getElem?_concat_cases {β : Type _} {ys : List β} {i : ℕ} {x y : β}
    (hy : (ys ++ [x])[i]? = some y) : ys[i]? = some y ∨ (i = ys.length ∧ y = x) := by
  rw [List.getElem?_append] at hy
  split at hy
  · exact .inl hy
  · rename_i hlt
    rw [List.getElem?_singleton] at hy
    split at hy
    · exact .inr ⟨by omega, (Option.some.inj hy).symm⟩
    · exact absurd hy (by simp)

variable {program : ι → Request σ ω ℓ ε α} {K : Locking ω ℓ ρ} {init : σ}
  {c : Config ι σ ω ℓ ε α ρ} {i : ℕ}

theorem interleaving_step_none (hx : c.sessions[i]? = none) :
    ((interleaving program K init).step c (.step i)).2 = c := by
  simp only [interleaving, hx]

theorem interleaving_step_some {x : Session ι σ ω ℓ ε α ρ} (hx : c.sessions[i]? = some x) :
    ((interleaving program K init).step c (.step i)).2
      = ⟨(advance K (c.free i) c.store x.stage).1,
          c.sessions.set i ⟨x.tag, (advance K (c.free i) c.store x.stage).2⟩⟩ := by
  simp only [interleaving, hx]

variable (program K init c i) in
/-- An abort cuts off an open transaction, or does nothing. -/
theorem interleaving_abort_cases :
    ((interleaving program K init).step c (.abort i)).2 = c
      ∨ ∃ tag prog handler held writes,
        c.sessions[i]? = some ⟨tag, .running prog handler held writes⟩ ∧
          ((interleaving program K init).step c (.abort i)).2
            = ⟨c.store, c.sessions.set i ⟨tag, .aborted⟩⟩ := by
  simp only [interleaving]
  split
  · rename_i tag prog handler held writes hx
    exact .inr ⟨tag, prog, handler, held, writes, hx, rfl⟩
  · exact .inl rfl

end Semantics

end AgentRuntime.Lib
