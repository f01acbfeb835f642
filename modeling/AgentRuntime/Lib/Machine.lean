import Mathlib.Data.List.Induction

/-!
# Machines and their histories

A machine consumes one input at a time, answers it and moves to the next state. Its history
records for every input the state it met, the answer and the state it left behind, so that a
property of a whole run ("at most once", "created by an earlier call") is a property of a list.

* `Machine.after` / `Machine.history`: the state and the history after a list of inputs;
* `Machine.reachable_induction`: an invariant kept by every step holds in every reachable state;
* `Machine.history_induction`: the same for invariants that also speak about the past;
* `Machine.history_at_most_once`: an entry that needs `¬ Q` and makes `Q` occurs at most once.
-/

namespace AgentRuntime.Lib

/-- A deterministic machine with an answer to each input. -/
structure Machine (σ ι ο : Type*) where
  init : σ
  step : σ → ι → ο × σ

/-- One step of a run: the state before, the input, the answer and the state after. -/
structure Entry (σ ι ο : Type*) where
  before : σ
  input : ι
  output : ο
  after : σ

namespace Machine

variable {σ ι ο : Type*} (m : Machine σ ι ο)

/-- The history entry of one step. -/
def entry (s : σ) (i : ι) : Entry σ ι ο := ⟨s, i, (m.step s i).1, (m.step s i).2⟩

/-- The state a list of inputs leads to. -/
def afterFrom (s : σ) : List ι → σ
  | [] => s
  | i :: is => afterFrom (m.step s i).2 is

/-- The history of a list of inputs. -/
def historyFrom (s : σ) : List ι → List (Entry σ ι ο)
  | [] => []
  | i :: is => m.entry s i :: historyFrom (m.step s i).2 is

/-- The state after a run from the initial state. -/
def after (is : List ι) : σ := m.afterFrom m.init is

/-- The history of a run from the initial state. -/
def history (is : List ι) : List (Entry σ ι ο) := m.historyFrom m.init is

/-- The states some run leads to. -/
def Reachable (s : σ) : Prop := ∃ is, m.after is = s

theorem afterFrom_append (s : σ) (is js : List ι) :
    m.afterFrom s (is ++ js) = m.afterFrom (m.afterFrom s is) js := by
  induction is generalizing s with
  | nil => rfl
  | cons i is ih => exact ih (m.step s i).2

theorem historyFrom_append (s : σ) (is js : List ι) :
    m.historyFrom s (is ++ js) = m.historyFrom s is ++ m.historyFrom (m.afterFrom s is) js := by
  induction is generalizing s with
  | nil => rfl
  | cons i is ih =>
    show m.entry s i :: m.historyFrom (m.step s i).2 (is ++ js) = _
    rw [ih]
    rfl

theorem after_concat (is : List ι) (i : ι) : m.after (is ++ [i]) = (m.step (m.after is) i).2 := by
  unfold after
  rw [afterFrom_append]
  rfl

theorem history_concat (is : List ι) (i : ι) :
    m.history (is ++ [i]) = m.history is ++ [m.entry (m.after is) i] := by
  unfold history
  rw [historyFrom_append]
  rfl

theorem reachable_init : m.Reachable m.init := ⟨[], rfl⟩

variable {m} in
theorem Reachable.step {s : σ} (h : m.Reachable s) (i : ι) : m.Reachable (m.step s i).2 := by
  obtain ⟨is, rfl⟩ := h
  exact ⟨is ++ [i], m.after_concat is i⟩

/-- **Invariants that speak about the past.** A property of history and state that holds at the
start and survives every step holds after every run. -/
theorem history_induction (P : List (Entry σ ι ο) → σ → Prop) (hinit : P [] m.init)
    (hstep : ∀ past s i, P past s → P (past ++ [m.entry s i]) (m.step s i).2) (is : List ι) :
    P (m.history is) (m.after is) := by
  induction is using List.reverseRecOn with
  | nil => exact hinit
  | append_singleton is i ih =>
    rw [history_concat, after_concat]
    exact hstep _ _ _ ih

/-- **Invariants.** What holds at the start and survives every step holds in every reachable
state. -/
theorem reachable_induction {P : σ → Prop} (hinit : P m.init)
    (hstep : ∀ s i, P s → P (m.step s i).2) {s : σ} (h : m.Reachable s) : P s := by
  obtain ⟨is, rfl⟩ := h
  exact m.history_induction (fun _ s => P s) hinit (fun _ s i => hstep s i) is

/-- **Exact conditions.** If from a state with `P` a step leads to one with `P` exactly when it meets
`C`, then `P` holds all along a run exactly when all its steps meet `C`. -/
theorem always_iff {P : σ → Prop} {C : σ → ι → Prop} (hinit : P m.init)
    (hstep : ∀ s i, m.Reachable s → P s → (P (m.step s i).2 ↔ C s i)) (is : List ι) :
    (∀ is', is' <+: is → P (m.after is')) ↔ ∀ e ∈ m.history is, C e.before e.input := by
  induction is using List.reverseRecOn with
  | nil =>
    constructor
    · exact fun _ e he => absurd he (by simp [history, historyFrom])
    · intro _ is' hinitial
      rw [List.prefix_nil.mp hinitial]
      exact hinit
  | append_singleton is i ih =>
    rw [history_concat]
    have hlast (hP : P (m.after is)) : P (m.after (is ++ [i])) ↔ C (m.after is) i := by
      rw [after_concat]
      exact hstep _ i ⟨is, rfl⟩ hP
    constructor
    · intro hall e he
      have hbefore : ∀ is', is' <+: is → P (m.after is') := fun is' h =>
        hall is' (h.trans (List.prefix_append is [i]))
      rcases List.mem_append.mp he with hpast | hnew
      · exact ih.mp hbefore e hpast
      · rw [List.mem_singleton.mp hnew]
        exact (hlast (hbefore is List.prefix_rfl)).mp (hall _ List.prefix_rfl)
    · intro hC is' hinitial
      have hbefore := ih.mpr fun e he => hC e (List.mem_append_left _ he)
      rcases List.prefix_concat_iff.mp hinitial with rfl | hshort
      · exact (hlast (hbefore is List.prefix_rfl)).mpr (hC (m.entry (m.after is) i) (by simp))
      · exact hbefore is' hshort

/-- What survives every step survives every run, from wherever it starts. -/
theorem afterFrom_induction {P : σ → Prop} (hstep : ∀ s i, P s → P (m.step s i).2) (is : List ι) :
    ∀ s, P s → P (m.afterFrom s is) := by
  induction is with
  | nil => exact fun _ h => h
  | cons i is ih => exact fun s h => ih _ (hstep s i h)

theorem after_append (is js : List ι) : m.after (is ++ js) = m.afterFrom (m.after is) js :=
  m.afterFrom_append m.init is js

/-- **At most once.** If an entry of kind `E` only occurs where `Q` fails, makes `Q` true, and `Q`
stays true, then a history holds at most one such entry. -/
theorem history_at_most_once (E : Entry σ ι ο → Prop) (Q : σ → Prop)
    (hfirst : ∀ s i, m.Reachable s → E (m.entry s i) → ¬ Q s ∧ Q (m.step s i).2)
    (hstays : ∀ s i, m.Reachable s → Q s → Q (m.step s i).2) (is : List ι) :
    (m.history is).Pairwise fun e e' => ¬ (E e ∧ E e') := by
  refine (m.history_induction (fun past s => m.Reachable s ∧
    (past.Pairwise fun e e' => ¬ (E e ∧ E e')) ∧ ∀ e ∈ past, E e → Q s) ?_ ?_ is).2.1
  · exact ⟨m.reachable_init, List.Pairwise.nil, fun _ he => absurd he (by simp)⟩
  · rintro past s i ⟨hreach, hpair, hafter⟩
    refine ⟨hreach.step i, ?_, ?_⟩
    · rw [List.pairwise_append]
      refine ⟨hpair, List.pairwise_singleton _ _, ?_⟩
      rintro e he e' he' ⟨hE, hE'⟩
      rw [List.mem_singleton.mp he'] at hE'
      exact (hfirst s i hreach hE').1 (hafter e he hE)
    · intro e he hE
      rcases List.mem_append.mp he with hpast | hnew
      · exact hstays s i hreach (hafter e hpast hE)
      · rw [List.mem_singleton.mp hnew] at hE
        exact (hfirst s i hreach hE).2

/-- Every entry of a history is a step from a reachable state. -/
theorem mem_history {is : List ι} {e : Entry σ ι ο} (h : e ∈ m.history is) :
    m.Reachable e.before ∧ e = m.entry e.before e.input := by
  induction is using List.reverseRecOn with
  | nil => exact absurd h (by simp [history, historyFrom])
  | append_singleton is i ih =>
    rw [history_concat, List.mem_append, List.mem_singleton] at h
    rcases h with h | rfl
    · exact ih h
    · exact ⟨⟨is, rfl⟩, rfl⟩

end Machine

end AgentRuntime.Lib
