import Mathlib.Data.List.Basic

/-!
# The transactional outbox

Jobs wait in a transactional store. Whoever makes a job wait writes an intent in the same commit;
relays lock an intent, hand its message to an at-least-once broker and record that they did;
consumers take a message, have its job decided in the store, and acknowledge it when they are done
with it. Relays and consumers may fail at any point, the broker may duplicate, delay and reorder,
and the store may change in other ways in between.

The protocol is a relation between states, with exactly the conditions on the store that each step
needs. A system that follows it never loses a waiting job.

* `Ledger`: what the protocol knows of the store;
* `Outbox.Step`: the steps;
* `Outbox.Covered`: every waiting job has an intent no relay may mark as published, or a message
  that will still be decided;
* `Outbox.Step.covered`: every step keeps it.
-/

namespace AgentRuntime.Lib

/-- What the protocol knows of a store: which jobs wait, and which intents are unpublished. -/
structure Ledger (σ ι κ : Type) where
  waiting : σ → κ → Bool
  intent : σ → ι → κ → Prop

/-- A relay at work on an intent; `arrived` if a message of it has reached the broker. -/
structure Relay (ι : Type) where
  intent : ι
  arrived : Bool

/-- Where a message is: in the queue, with a consumer that has no decision on its job yet, with one
that works on it, or with one that is about to acknowledge it or to give it back. -/
inductive Phase (ω : Type) where
  | ready
  | received
  | working (work : ω)
  | settled
  | returning

/-- The phases after which the message's job will be decided again. -/
def Phase.undecided {ω : Type} : Phase ω → Bool
  | .ready => true
  | .received => true
  | .returning => true
  | _ => false

/-- A message: the job it is about, if its body can be read, and whether that job has been decided
on behalf of this message since it last began to wait. -/
structure Hint (κ ω : Type) where
  job : Option κ
  phase : Phase ω
  decided : Bool

/-- The message will have its job decided. -/
structure Hint.Pending {κ ω : Type} (m : Hint κ ω) (k : κ) : Prop where
  job : m.job = some k
  decided : m.decided = false
  undecided : m.phase.undecided = true

namespace Outbox

/-- A state of the protocol: the store, the relays at work and the messages in the broker. -/
structure State (σ ι κ ω : Type) where
  store : σ
  relays : List (Relay ι)
  queue : List (Hint κ ω)

variable {σ ι κ ω : Type} (L : Ledger σ ι κ)

/-- A job that begins to wait has not been decided since. -/
def refresh (s s' : σ) (m : Hint κ ω) : Hint κ ω :=
  if m.job.any fun k => !L.waiting s k && L.waiting s' k then { m with decided := false } else m

/-- The store commits. -/
def State.commit (x : State σ ι κ ω) (s' : σ) : State σ ι κ ω :=
  { x with store := s', queue := x.queue.map (refresh L x.store s') }

/-- The commit publishes nothing, and a job that begins to wait has an intent no relay knows. -/
structure Announces (x : State σ ι κ ω) (s' : σ) : Prop where
  intents : ∀ i k, L.intent x.store i k → L.intent s' i k
  waiting : ∀ k, L.waiting s' k = true → L.waiting x.store k = true
    ∨ ∃ i, L.intent s' i k ∧ ∀ r ∈ x.relays, r.intent ≠ i

/-- The steps of the protocol. -/
inductive Step : State σ ι κ ω → State σ ι κ ω → Prop where
  /-- The store commits on its own account. -/
  | commit (x : State σ ι κ ω) (s' : σ) (h : Announces L x s') : Step x (x.commit L s')
  /-- A relay locks an intent. -/
  | lock (x : State σ ι κ ω) (i : ι) : Step x { x with relays := x.relays ++ [⟨i, false⟩] }
  /-- A message of a relay reaches the queue. -/
  | arrive (x : State σ ι κ ω) (n : ℕ) (r : Relay ι) (k : κ) (hr : x.relays[n]? = some r)
      (hjob : ∀ k', L.intent x.store r.intent k' → k' = k) :
      Step x { x with
        relays := x.relays.set n { r with arrived := true }
        queue := x.queue ++ [⟨some k, .ready, false⟩] }
  /-- A message of a relay reaches another queue. -/
  | bypass (x : State σ ι κ ω) (n : ℕ) (r : Relay ι) (hr : x.relays[n]? = some r)
      (hjob : ∀ k, ¬ L.intent x.store r.intent k) :
      Step x { x with relays := x.relays.set n { r with arrived := true } }
  /-- A relay records what came of its intent; only one whose message arrived may publish it. -/
  | record (x : State σ ι κ ω) (n : ℕ) (r : Relay ι) (s' : σ) (hr : x.relays[n]? = some r)
      (hintents : ∀ i k, L.intent x.store i k → L.intent s' i k ∨ i = r.intent ∧ r.arrived = true)
      (hwaiting : ∀ k, L.waiting s' k = L.waiting x.store k) :
      Step x { x with store := s', relays := x.relays.eraseIdx n }
  /-- A relay fails, and its lock is released. -/
  | abandon (x : State σ ι κ ω) (n : ℕ) : Step x { x with relays := x.relays.eraseIdx n }
  /-- Another message reaches the queue: a copy, a late arrival, or a foreign one. -/
  | foreign (x : State σ ι κ ω) (m : Hint κ ω) : Step x { x with queue := x.queue ++ [m] }
  /-- A message changes hands between a consumer and the queue without a decision. -/
  | pass (x : State σ ι κ ω) (n : ℕ) (m : Hint κ ω) (p : Phase ω) (hm : x.queue[n]? = some m)
      (hp : m.phase.undecided = true → p.undecided = true) :
      Step x { x with queue := x.queue.set n { m with phase := p } }
  /-- The job of a message is decided: it does not wait any longer. -/
  | decide (x : State σ ι κ ω) (n : ℕ) (m : Hint κ ω) (k : κ) (s' : σ) (p : Phase ω)
      (hm : x.queue[n]? = some m) (hjob : m.job = some k) (h : Announces L x s')
      (hdone : L.waiting s' k = false) :
      Step x { (x.commit L s') with
        queue := (x.commit L s').queue.set n ⟨some k, p, true⟩ }
  /-- A consumer works on a decided message. -/
  | work (x : State σ ι κ ω) (n : ℕ) (m : Hint κ ω) (s' : σ) (p : Phase ω)
      (hm : x.queue[n]? = some m) (h : Announces L x s') (hp : m.phase.undecided = false) :
      Step x { (x.commit L s') with
        queue := (x.commit L s').queue.set n { (refresh L x.store s' m) with phase := p } }
  /-- A message leaves the broker: it is acknowledged after a decision, or unreadable. -/
  | drop (x : State σ ι κ ω) (n : ℕ) (m : Hint κ ω) (hm : x.queue[n]? = some m)
      (hp : m.phase.undecided = false ∨ m.job = none) :
      Step x { x with queue := x.queue.eraseIdx n }

/-- **No waiting job is lost.** -/
def Covered (x : State σ ι κ ω) : Prop :=
  ∀ k, L.waiting x.store k = true →
    (∃ i, L.intent x.store i k ∧ ∀ r ∈ x.relays, r.intent = i → r.arrived = false)
      ∨ ∃ m ∈ x.queue, m.Pending k

/-! ### Lists with one changed element -/

section Lists

variable {α : Type} {l : List α} {n : ℕ} {a b x : α}

theorem mem_set_or_eq (ha : l[n]? = some a) (hx : x ∈ l) : x = a ∨ x ∈ l.set n b := by
  obtain ⟨i, hi⟩ := List.mem_iff_getElem?.mp hx
  by_cases hin : i = n
  · subst hin
    exact .inl (Option.some.inj (hi.symm.trans ha))
  · refine .inr (List.mem_iff_getElem?.mpr ⟨i, ?_⟩)
    rw [List.getElem?_set_ne (Ne.symm hin)]
    exact hi

theorem mem_eraseIdx_or_eq (ha : l[n]? = some a) (hx : x ∈ l) : x = a ∨ x ∈ l.eraseIdx n := by
  obtain ⟨i, hi⟩ := List.mem_iff_getElem?.mp hx
  by_cases hin : i = n
  · subst hin
    exact .inl (Option.some.inj (hi.symm.trans ha))
  · exact .inr (List.mem_eraseIdx_iff_getElem?.mpr ⟨i, hin, hi⟩)

theorem mem_set_self (ha : l[n]? = some a) : b ∈ l.set n b := by
  obtain ⟨hlt, -⟩ := List.getElem?_eq_some_iff.mp ha
  exact List.mem_set hlt b

end Lists

/-! ### What the steps keep -/

variable {L} {x y : State σ ι κ ω} {k : κ}

theorem pending_refresh {m : Hint κ ω} (h : m.Pending k) (s s' : σ) :
    (refresh L s s' m).Pending k := by
  unfold refresh
  split
  · exact ⟨h.job, rfl, h.undecided⟩
  · exact h

/-- A commit keeps the cover of every job that waits afterwards. -/
theorem Covered.commit {s' : σ} (h : Covered L x) (hs : Announces L x s') :
    Covered L (x.commit L s') := by
  intro k hk
  rcases hs.waiting k hk with hold | ⟨i, hi, hfree⟩
  · rcases h k hold with ⟨i, hi, hfree⟩ | ⟨m, hm, hpending⟩
    · exact .inl ⟨i, hs.intents i k hi, hfree⟩
    · exact .inr ⟨_, List.mem_map_of_mem hm, pending_refresh hpending _ _⟩
  · exact .inl ⟨i, hi, fun r hr heq => absurd heq (hfree r hr)⟩

/-- Replacing a message that was no cover of job `k` keeps the cover of `k`. -/
theorem covered_set {n : ℕ} {m m' : Hint κ ω} (hm : x.queue[n]? = some m)
    (hpending : m.Pending k → m'.Pending k)
    (h : (∃ i, L.intent x.store i k ∧ ∀ r ∈ x.relays, r.intent = i → r.arrived = false)
      ∨ ∃ m ∈ x.queue, m.Pending k) :
    (∃ i, L.intent x.store i k ∧ ∀ r ∈ x.relays, r.intent = i → r.arrived = false)
      ∨ ∃ m ∈ x.queue.set n m', m.Pending k := by
  rcases h with hintent | ⟨m0, hm0, hp⟩
  · exact .inl hintent
  · rcases mem_set_or_eq (b := m') hm hm0 with rfl | hmem
    · exact .inr ⟨m', mem_set_self hm, hpending hp⟩
    · exact .inr ⟨m0, hmem, hp⟩

/-- **Every step keeps every waiting job covered.** -/
theorem Step.covered (hstep : Step L x y) (h : Covered L x) : Covered L y := by
  cases hstep with
  | commit s' hs => exact h.commit hs
  | lock i =>
    intro k hk
    rcases h k hk with ⟨j, hj, hfree⟩ | hmessage
    · refine .inl ⟨j, hj, fun r hr heq => ?_⟩
      rcases List.mem_append.mp hr with hold | hnew
      · exact hfree r hold heq
      · rw [List.mem_singleton.mp hnew]
    · exact .inr hmessage
  | arrive n r k' hr hjob =>
    intro k hk
    rcases h k hk with ⟨i, hi, hfree⟩ | ⟨m, hm, hpending⟩
    · by_cases hri : r.intent = i
      · -- The locked intent is the cover of `k`: its message takes over.
        have hkk : k = k' := hjob k (hri ▸ hi)
        exact .inr ⟨_, List.mem_append_right _ (List.mem_singleton_self _), ⟨by rw [hkk], rfl, rfl⟩⟩
      · refine .inl ⟨i, hi, fun r' hr' heq => ?_⟩
        rcases List.mem_or_eq_of_mem_set hr' with hold | rfl
        · exact hfree r' hold heq
        · exact absurd heq hri
    · exact .inr ⟨m, List.mem_append_left _ hm, hpending⟩
  | bypass n r hr hjob =>
    intro k hk
    rcases h k hk with ⟨i, hi, hfree⟩ | hmessage
    · refine .inl ⟨i, hi, fun r' hr' heq => ?_⟩
      rcases List.mem_or_eq_of_mem_set hr' with hold | rfl
      · exact hfree r' hold heq
      · have hri : r.intent = i := heq
        exact absurd (hri ▸ hi) (hjob k)
    · exact .inr hmessage
  | record n r s' hr hintents hwaiting =>
    intro k hk
    have hold : L.waiting x.store k = true := (hwaiting k).symm.trans hk
    rcases h k hold with ⟨i, hi, hfree⟩ | hmessage
    · rcases hintents i k hi with hkept | ⟨hri, harrived⟩
      · exact .inl ⟨i, hkept, fun r' hr' heq => hfree r' (List.mem_of_mem_eraseIdx hr') heq⟩
      · -- A published intent was no cover: its relay's message had arrived.
        have hnot := hfree r (List.mem_of_getElem? hr) hri.symm
        rw [harrived] at hnot
        exact absurd hnot (by simp)
    · exact .inr hmessage
  | abandon n =>
    intro k hk
    rcases h k hk with ⟨i, hi, hfree⟩ | hmessage
    · exact .inl ⟨i, hi, fun r' hr' heq => hfree r' (List.mem_of_mem_eraseIdx hr') heq⟩
    · exact .inr hmessage
  | foreign m =>
    intro k hk
    rcases h k hk with hintent | ⟨m0, hm0, hpending⟩
    · exact .inl hintent
    · exact .inr ⟨m0, List.mem_append_left _ hm0, hpending⟩
  | pass n m p hm hp =>
    exact fun k hk => covered_set hm (fun hpending =>
      ⟨hpending.job, hpending.decided, hp hpending.undecided⟩) (h k hk)
  | decide n m k' s' p hm hjob hs hdone =>
    intro k hk
    refine covered_set (x := x.commit L s') (m := refresh L x.store s' m) ?_ ?_
      (h.commit hs k hk)
    · exact (List.getElem?_map ..).trans (by rw [hm]; rfl)
    · -- The decided job does not wait, so the message is no cover that is needed.
      intro hpending
      have hk' : k = k' := by
        have hsame : (refresh L x.store s' m).job = m.job := by
          unfold refresh
          split <;> rfl
        exact Option.some.inj (hpending.job.symm.trans (hsame.trans hjob))
      rw [hk'] at hk
      exact absurd (hdone.symm.trans hk) (by simp)
  | work n m s' p hm hs hp =>
    intro k hk
    refine covered_set (x := x.commit L s') (m := refresh L x.store s' m) ?_ ?_
      (h.commit hs k hk)
    · exact (List.getElem?_map ..).trans (by rw [hm]; rfl)
    · intro hpending
      have hsame : (refresh L x.store s' m).phase = m.phase := by
        unfold refresh
        split <;> rfl
      exact absurd (hsame ▸ hpending.undecided) (by simp [hp])
  | drop n m hm hp =>
    intro k hk
    rcases h k hk with hintent | ⟨m0, hm0, hpending⟩
    · exact .inl hintent
    · rcases mem_eraseIdx_or_eq hm hm0 with rfl | hmem
      · rcases hp with hphase | hjob
        · exact absurd hpending.undecided (by simp [hphase])
        · exact absurd (hpending.job.symm.trans hjob) (by simp)
      · exact .inr ⟨m0, hmem, hpending⟩

end Outbox

end AgentRuntime.Lib
