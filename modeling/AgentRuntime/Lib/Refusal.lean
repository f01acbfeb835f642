import AgentRuntime.Lib.Commits

/-!
# Transactions that are bound to fail

Some states refuse a transaction: whatever it reads there, it ends with an exception before its first
write. If the state is of that kind when the transaction starts and stays so, then it never
commits, however the others interleave with it.

* `Tx.Refused`, `Tx.Refused.bind`: programs that are refused, and the rule for sequences;
* `Tx.Refused.run`: a refused program raises when it runs alone;
* `refused_after`: a session that starts while its program is refused never commits.
-/

namespace AgentRuntime.Lib

variable {ι σ ω ℓ ε α β ρ : Type} {P : σ → Prop} {E : ε → Prop}

/-! ### Programs -/

/-- In states with `P` the program raises an exception with `E` and writes nothing before. -/
def Tx.Refused (P : σ → Prop) (E : ε → Prop) : Tx σ ω ℓ ε α → Prop
  | .done _ => False
  | .raise e => E e
  | .lock _ next => next.Refused P E
  | .lockFree _ next => ∀ locks, (next locks).Refused P E
  | .query next => ∀ s, P s → (next s).Refused P E
  | .write _ _ => False

namespace Tx.Refused

variable {t : Tx σ ω ℓ ε α}

theorem bind (h : t.Refused P E) (f : α → Tx σ ω ℓ ε β) : (t.bind f).Refused P E := by
  induction t with
  | done a => exact h.elim
  | raise e => exact h
  | lock l next ih => exact ih h
  | lockFree pick next ih => exact fun locks => ih locks (h locks)
  | query next ih => exact fun s hs => ih s (h s hs)
  | write w next ih => exact h.elim

/-- **A refused program raises** when it runs alone. -/
theorem run [Writes σ ω ε] (h : t.Refused P E) (busy : ℓ → Bool) {s : σ} (hs : P s) :
    ∃ e, E e ∧ t.run busy s = .error e := by
  induction t with
  | done a => exact h.elim
  | raise e => exact ⟨e, h, rfl⟩
  | lock l next ih => exact ih h
  | lockFree pick next ih => exact ih _ (h _)
  | query next ih => exact ih s (h s hs)
  | write w next ih => exact h.elim

end Tx.Refused

/-! ### Sessions -/

/-- The exception the session has failed with. -/
def Stage.error? : Stage σ ω ℓ ε α ρ → Option ε
  | .failed e => some e
  | _ => none

variable {p : Stage σ ω ℓ ε α ρ}

theorem Stage.error?_eq_some {e : ε} : p.error? = some e ↔ p = .failed e := by
  cases p with
  | failed e' => simp [Stage.error?]
  | _ => simp [Stage.error?]

/-- The session has failed with `E`, or is on its way to, or was cut off. -/
def Stage.Refused (P : σ → Prop) (E : ε → Prop) : Stage σ ω ℓ ε α ρ → Prop
  | .running prog handler _ writes =>
    prog.Refused P E ∧ writes = [] ∧ ∀ e, E e → handler e = none
  | .committed _ _ => False
  | .failed e => E e
  | .aborted => True

variable [Writes σ ω ε] {K : Locking ω ℓ ρ}

theorem Stage.Refused.advance (h : p.Refused P E) (free : Hold ρ → Bool) {s : σ} (hs : P s) :
    (advance K free s p).2.Refused P E := by
  cases p with
  | committed a ws => exact h
  | failed e => exact h
  | aborted => trivial
  | running prog handler held ws =>
    obtain ⟨hprog, rfl, hhandler⟩ := h
    have happly : applyAll ([] : List ω) s = .ok s := rfl
    simp only [Lib.advance, happly]
    cases prog with
    | done a => exact hprog.elim
    | raise e =>
      show (Stage.fail handler e : Stage σ ω ℓ ε α ρ).Refused P E
      unfold Stage.fail
      rw [hhandler e hprog]
      exact hprog
    | lock l next =>
      dsimp only
      split
      · exact ⟨hprog, rfl, hhandler⟩
      · exact ⟨hprog, rfl, hhandler⟩
    | lockFree pick next => exact ⟨hprog _, rfl, hhandler⟩
    | query next => exact ⟨hprog s hs, rfl, hhandler⟩
    | write w next => exact hprog.elim

variable [DecidableEq ρ] {program : ι → Request σ ω ℓ ε α} {init : σ}

variable (K program init) in
/-- A session keeps its number and its kind. -/
theorem session_of_start (past : List (Event ι)) (tag : ι) (later : List (Event ι)) :
    ∃ p, ((interleaving program K init).after (past ++ .start tag :: later)).sessions[
      ((interleaving program K init).after past).sessions.length]? = some ⟨tag, p⟩ := by
  induction later using List.reverseRecOn with
  | nil =>
    rw [Machine.after_concat]
    exact ⟨_, List.getElem?_concat_length⟩
  | append_singleton later e ih =>
    obtain ⟨p, hp⟩ := ih
    rw [← List.cons_append, ← List.append_assoc, Machine.after_concat]
    exact session_persists program K init e hp

/-- A session that has failed, by its number and its exception. -/
theorem failed_of_error? {past later : List (Event ι)} {tag : ι} {n : ℕ} {e : ε}
    (hn : ((interleaving program K init).after past).sessions.length = n)
    (h : (((interleaving program K init).after (past ++ .start tag :: later)).sessions[n]?.map
      fun x => x.stage.error?) = some (some e)) :
    ((interleaving program K init).after (past ++ .start tag :: later)).sessions[n]?
      = some ⟨tag, .failed e⟩ := by
  obtain ⟨p, hp⟩ := session_of_start K program init past tag later
  rw [hn] at hp
  rw [hp] at h ⊢
  have hfailed : p = .failed e := Stage.error?_eq_some.mp (Option.some.inj h)
  rw [hfailed]

/-- **No commit.** A session that starts in a state that refuses it, while the state stays so,
never commits; if it fails, then with `E`. -/
theorem refused_after {tag : ι} (hbody : (program tag).body.Refused P E)
    (hhandler : ∀ e, E e → (program tag).handler e = none) (past later : List (Event ι))
    (hP : ∀ mid rest, later = mid ++ rest →
      P ((interleaving program K init).after (past ++ mid)).store) {n : ℕ}
    (hn : ((interleaving program K init).after past).sessions.length ≤ n)
    (hx : ((interleaving program K init).after (past ++ later)).sessions[n]? = some ⟨tag, p⟩) :
    p.Refused P E := by
  induction later using List.reverseRecOn generalizing p with
  | nil =>
    rw [List.append_nil, List.getElem?_eq_none hn] at hx
    cases hx
  | append_singleton later e ih =>
    have hbefore {q : Stage σ ω ℓ ε α ρ} := @ih q
      (fun mid rest hmid => hP mid (rest ++ [e]) (by rw [hmid, List.append_assoc]))
    rw [← List.append_assoc, Machine.after_concat] at hx
    generalize hy : (⟨tag, p⟩ : Session ι σ ω ℓ ε α ρ) = y at hx
    cases session_of_step hx with
    | same hold =>
      cases hy
      exact hbefore hold
    | @moved x _ hold =>
      cases hy
      exact (hbefore hold).advance _ (hP later [e] rfl)
    | cut _ =>
      cases hy
      trivial
    | fresh _ _ =>
      cases hy
      exact ⟨hbody, rfl, hhandler⟩

end AgentRuntime.Lib
