import AgentRuntime.Lib.Transaction

/-!
# Postconditions of transactions

`Tx.Ensures busy t s Q` says that if the transaction `t` commits when it runs from `s`, then `Q`
holds of what it returns and of the state it leaves. One rule for every statement turns such a
judgement into a statement about the states between the writes, so a proof about a service method
follows the method's own `do` block.

* `ensures_bind`, `ensures_read`, `ensures_exec`, …: the rules, as simplification lemmas;
* `Ensures.mono`, `Ensures.and`: the structural rules;
* `Ensures.forEach`: a loop keeps what its body keeps.
-/

namespace AgentRuntime.Lib

namespace Tx

variable {σ ω ℓ ε α β : Type} [Writes σ ω ε] {busy : ℓ → Bool} {s : σ}

/-- If `t` commits from `s`, what it returns and leaves satisfies `Q`. -/
def Ensures (busy : ℓ → Bool) (t : Tx σ ω ℓ ε α) (s : σ) (Q : α → σ → Prop) : Prop :=
  ∀ a s', t.run busy s = .ok (a, s') → Q a s'

variable {Q Q' : α → σ → Prop}

variable {t : Tx σ ω ℓ ε α}

theorem Ensures.mono (h : Ensures busy t s Q) (himp : ∀ a s', Q a s' → Q' a s') :
    Ensures busy t s Q' :=
  fun a s' hrun => himp a s' (h a s' hrun)

theorem Ensures.and (h : Ensures busy t s Q) (h' : Ensures busy t s Q') :
    Ensures busy t s fun a s' => Q a s' ∧ Q' a s' :=
  fun a s' hrun => ⟨h a s' hrun, h' a s' hrun⟩

/-- A transaction that is known to commit ensures what holds of its result. -/
theorem ensures_of_run_ok {a : α} {s1 : σ} (h : t.run busy s = .ok (a, s1)) :
    Ensures busy t s Q ↔ Q a s1 := by
  constructor
  · intro hens
    exact hens a s1 h
  · intro hQ b s' hrun
    rw [h] at hrun
    cases hrun
    exact hQ

@[simp] theorem ensures_done (a : α) :
    Ensures busy (.done a : Tx σ ω ℓ ε α) s Q ↔ Q a s := ensures_of_run_ok (run_done busy s a)

@[simp] theorem ensures_raise (e : ε) :
    Ensures busy (.raise e : Tx σ ω ℓ ε α) s Q ↔ True := by
  simp [Ensures]

@[simp] theorem ensures_bind {R : β → σ → Prop} (t : Tx σ ω ℓ ε α) (f : α → Tx σ ω ℓ ε β) :
    Ensures busy (t.bind f) s R ↔
      Ensures busy t s fun a s' => Ensures busy (f a) s' R := by
  constructor
  · intro h a s' hrun b s'' hrun'
    refine h b s'' ?_
    rw [run_bind, bind_eq_ok]
    exact ⟨(a, s'), hrun, hrun'⟩
  · intro h b s'' hrun
    rw [run_bind, bind_eq_ok] at hrun
    obtain ⟨⟨a, s'⟩, hrun1, hrun2⟩ := hrun
    exact h a s' hrun1 b s'' hrun2

@[simp] theorem ensures_read (f : σ → α) :
    Ensures busy (read f : Tx σ ω ℓ ε α) s Q ↔ Q (f s) s :=
  ensures_of_run_ok (run_read busy s f)

@[simp] theorem ensures_acquire {Q : Unit → σ → Prop} (l : ℓ) :
    Ensures busy (acquire l : Tx σ ω ℓ ε Unit) s Q ↔ Q () s :=
  ensures_of_run_ok (run_acquire busy s l)

@[simp] theorem ensures_acquireFree {Q : List ℓ → σ → Prop} (pick : σ → (ℓ → Bool) → List ℓ) :
    Ensures busy (acquireFree pick : Tx σ ω ℓ ε (List ℓ)) s Q ↔ Q (pick s busy) s :=
  ensures_of_run_ok (run_acquireFree busy s pick)

@[simp] theorem ensures_exec {Q : Unit → σ → Prop} (w : ω) :
    Ensures busy (exec w : Tx σ ω ℓ ε Unit) s Q ↔
      ∀ s', Writes.apply w s = .ok s' → Q () s' := by
  constructor
  · intro h s' happly
    refine h () s' ?_
    rw [run_exec, happly]
    rfl
  · intro h u s' hrun
    rw [run_exec, map_eq_ok] at hrun
    obtain ⟨s1, happly, heq⟩ := hrun
    cases heq
    exact h _ happly

@[simp] theorem ensures_ofExcept (x : Except ε α) :
    Ensures busy (ofExcept x : Tx σ ω ℓ ε α) s Q ↔ ∀ a, x = .ok a → Q a s := by
  cases x with
  | ok a => simp [ofExcept]
  | error e => simp [ofExcept]

variable {f : β → Tx σ ω ℓ ε Unit}

/-- **Loops.** What holds before the loop and is kept by every round holds after it; `done` are
the elements already handled and `rest` those to come. -/
theorem Ensures.forEach {I : List β → List β → σ → Prop}
    (hstep : ∀ done x rest s, I done (x :: rest) s →
      Ensures busy (f x) s fun _ s' => I (done ++ [x]) rest s') (xs : List β) :
    ∀ done s, I done xs s →
      Ensures busy (forEach xs f) s fun _ s' => I (done ++ xs) [] s' := by
  induction xs with
  | nil =>
    intro done s hI
    rw [List.append_nil]
    exact (ensures_done ()).mpr hI
  | cons x xs ih =>
    intro done s hI
    refine (ensures_bind (f x) _).mpr ((hstep done x xs s hI).mono ?_)
    intro _ s' hI'
    have hrest := ih (done ++ [x]) s' hI'
    rw [List.append_assoc] at hrest
    exact hrest

/-! ### Loops over distinct keys

The state is seen through one view for every key. A loop handles one key a round: it changes the
view of that key as `E` says, and those of the other keys only as `N` allows. -/

/-- Changes of kind `N` can be repeated, and come before and after one of kind `E`. -/
structure Absorbs {κ τ : Type} (N : τ → τ → Prop) (E : κ → τ → τ → Prop) : Prop where
  refl : ∀ v, N v v
  trans : ∀ {v v' v''}, N v v' → N v' v'' → N v v''
  before : ∀ {k v v' v''}, N v v' → E k v' v'' → E k v v''
  after : ∀ {k v v' v''}, E k v v' → N v' v'' → E k v v''

/-- Half way through the loop over `xs`: the keys of `done` are handled, no others are. -/
structure LoopState {β κ τ : Type} (key : β → κ) (V : σ → κ → τ) (N : τ → τ → Prop)
    (E : κ → τ → τ → Prop) (s0 : σ) (xs done rest : List β) (s : σ) : Prop where
  split : xs = done ++ rest
  handled : ∀ k ∈ done.map key, E k (V s0 k) (V s k)
  untouched : ∀ k, k ∉ done.map key → N (V s0 k) (V s k)

namespace LoopState

variable {κ τ : Type} {key : β → κ} {V : σ → κ → τ} {N : τ → τ → Prop} {E : κ → τ → τ → Prop}
  {s0 s' : σ} {xs done rest : List β} {x : β}

omit [Writes σ ω ε] in
theorem init (hN : Absorbs N E) : LoopState key V N E s0 xs [] xs s0 :=
  ⟨rfl, fun k hk => absurd hk (by simp), fun _ _ => hN.refl _⟩

omit [Writes σ ω ε] in
/-- The key of the next element has not been handled. -/
theorem next (h : LoopState key V N E s0 xs done (x :: rest) s) (hnodup : (xs.map key).Nodup) :
    x ∈ xs ∧ key x ∉ done.map key ∧ N (V s0 (key x)) (V s (key x)) := by
  have hfresh : key x ∉ done.map key := by
    rw [h.split, List.map_append, List.map_cons, List.nodup_append] at hnodup
    intro hin
    exact hnodup.2.2 _ hin _ List.mem_cons_self rfl
  refine ⟨?_, hfresh, h.untouched _ hfresh⟩
  rw [h.split]
  simp

omit [Writes σ ω ε] in
theorem step (h : LoopState key V N E s0 xs done (x :: rest) s) (hN : Absorbs N E)
    (hfresh : key x ∉ done.map key) (hown : E (key x) (V s (key x)) (V s' (key x)))
    (hothers : ∀ k, k ≠ key x → N (V s k) (V s' k)) :
    LoopState key V N E s0 xs (done ++ [x]) rest s' := by
  refine ⟨by rw [h.split, List.append_assoc]; rfl, ?_, ?_⟩
  · intro k hk
    rw [List.map_append, List.map_singleton, List.mem_append, List.mem_singleton] at hk
    by_cases heq : k = key x
    · subst heq
      exact hN.before (h.untouched _ hfresh) hown
    · exact hN.after (h.handled k (hk.resolve_right heq)) (hothers k heq)
  · intro k hk
    rw [List.map_append, List.map_singleton, List.mem_append, List.mem_singleton, not_or] at hk
    exact hN.trans (h.untouched k hk.1) (hothers k hk.2)

end LoopState

/-- **Loops over distinct keys.** The loop handles every key of its elements once and no other. -/
theorem Ensures.forEach_views {κ τ : Type} {key : β → κ} {V : σ → κ → τ} {N : τ → τ → Prop}
    {E : κ → τ → τ → Prop} (hN : Absorbs N E) {xs : List β} (hnodup : (xs.map key).Nodup)
    (hbody : ∀ x ∈ xs, ∀ s1, N (V s (key x)) (V s1 (key x)) →
      Ensures busy (f x) s1 fun _ s2 =>
        E (key x) (V s1 (key x)) (V s2 (key x)) ∧ ∀ k, k ≠ key x → N (V s1 k) (V s2 k)) :
    Ensures busy (Tx.forEach xs f) s fun _ s' => LoopState key V N E s xs xs [] s' := by
  refine Ensures.forEach (I := LoopState key V N E s xs) ?_ xs [] s (.init hN)
  intro done x rest s1 hstate
  obtain ⟨hmem, hfresh, hnoted⟩ := hstate.next hnodup
  refine (hbody x hmem s1 hnoted).mono ?_
  rintro _ s2 ⟨hown, hothers⟩
  exact hstate.step hN hfresh hown hothers

omit [Writes σ ω ε] in
/-- What holds of every committed result holds of its image. -/
theorem of_map_ok {x : Except ε (α × σ)} {f : α → β} {R : β → σ → Prop} {b : β} {s' : σ}
    (h : (x.map fun p => (f p.1, p.2)) = .ok (b, s'))
    (hx : ∀ a s', x = .ok (a, s') → R (f a) s') : R b s' := by
  rw [map_eq_ok] at h
  obtain ⟨⟨a, s1⟩, hok, heq⟩ := h
  cases heq
  exact hx a _ hok

end Tx

/-- A request ensures what its transaction and the one of its `except` clause ensure. -/
theorem Request.run_ok {σ ω ℓ ε α : Type} [Writes σ ω ε] {busy : ℓ → Bool}
    {r : Request σ ω ℓ ε α} {s : σ} {Q : α → σ → Prop} (hbody : Tx.Ensures busy r.body s Q)
    (hhandler : ∀ e t, r.handler e = some t → Tx.Ensures busy t s Q) {a : α} {s' : σ}
    (h : r.run busy s = .ok (a, s')) : Q a s' := by
  unfold Request.run at h
  cases hrun : r.body.run busy s with
  | ok x =>
    simp only [hrun] at h
    cases h
    exact hbody a s' hrun
  | error e =>
    simp only [hrun] at h
    cases hhand : r.handler e with
    | none => simp [hhand] at h
    | some t =>
      simp only [hhand] at h
      exact hhandler e t hhand a s' h

end AgentRuntime.Lib
