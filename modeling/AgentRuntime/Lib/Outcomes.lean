import AgentRuntime.Lib.Ensures

/-!
# When a transaction commits and what it raises

`Tx.Ensures` speaks about a transaction if it commits. Its companions say that it does commit,
which exceptions it may raise, and what all its writes have in common. Each has one rule per way
of building a transaction, so that a service method is analysed in the order it is written.

* `Tx.Commits`: the transaction commits with a result that satisfies `Q`;
* `Tx.Raises`: every exception it raises satisfies `E`;
* `Tx.OnlyWrites`, `Request.OnlyWrites`: every write it may issue satisfies `W`, whatever it
  reads; what all such writes keep, the transaction keeps;
* `Tx.observe`: the part of a larger transaction: the caller sees the writes made before an
  exception.
-/

namespace AgentRuntime.Lib

namespace Tx

variable {σ ω ℓ ε α β : Type}

/-! ### Commits -/

variable {t : Tx σ ω ℓ ε α} {f : β → Tx σ ω ℓ ε Unit}

section Commits

variable [Writes σ ω ε] {busy : ℓ → Bool} {s : σ} {Q : α → σ → Prop}

/-- `t` commits from `s`, and what it returns and leaves satisfies `Q`. -/
def Commits (busy : ℓ → Bool) (t : Tx σ ω ℓ ε α) (s : σ) (Q : α → σ → Prop) : Prop :=
  ∃ a s', t.run busy s = .ok (a, s') ∧ Q a s'

theorem commits_of_run_ok {a : α} {s1 : σ} (h : t.run busy s = .ok (a, s1)) :
    Commits busy t s Q ↔ Q a s1 := by
  constructor
  · rintro ⟨b, s', hrun, hQ⟩
    cases h.symm.trans hrun
    exact hQ
  · exact fun hQ => ⟨a, s1, h, hQ⟩

theorem Commits.and_ensures {Q' : α → σ → Prop} (h : Commits busy t s Q)
    (h' : Ensures busy t s Q') : Commits busy t s fun a s' => Q a s' ∧ Q' a s' := by
  obtain ⟨a, s', hrun, hQ⟩ := h
  exact ⟨a, s', hrun, hQ, h' a s' hrun⟩

theorem Commits.mono {Q' : α → σ → Prop} (h : Commits busy t s Q)
    (himp : ∀ a s', Q a s' → Q' a s') : Commits busy t s Q' := by
  obtain ⟨a, s', hrun, hQ⟩ := h
  exact ⟨a, s', hrun, himp a s' hQ⟩

@[simp] theorem commits_done (a : α) :
    Commits busy (.done a : Tx σ ω ℓ ε α) s Q ↔ Q a s := commits_of_run_ok (run_done busy s a)

@[simp] theorem commits_raise (e : ε) :
    Commits busy (.raise e : Tx σ ω ℓ ε α) s Q ↔ False := by
  simp [Commits]

@[simp] theorem commits_bind {R : β → σ → Prop} (t : Tx σ ω ℓ ε α) (f : α → Tx σ ω ℓ ε β) :
    Commits busy (t.bind f) s R ↔ Commits busy t s fun a s' => Commits busy (f a) s' R := by
  constructor
  · rintro ⟨b, s'', hrun, hR⟩
    rw [run_bind, bind_eq_ok] at hrun
    obtain ⟨⟨a, s'⟩, h1, h2⟩ := hrun
    exact ⟨a, s', h1, b, s'', h2, hR⟩
  · rintro ⟨a, s', h1, b, s'', h2, hR⟩
    refine ⟨b, s'', ?_, hR⟩
    rw [run_bind, h1, ok_bind]
    exact h2

@[simp] theorem commits_read (f : σ → α) :
    Commits busy (read f : Tx σ ω ℓ ε α) s Q ↔ Q (f s) s :=
  commits_of_run_ok (run_read busy s f)

@[simp] theorem commits_acquire {Q : Unit → σ → Prop} (l : ℓ) :
    Commits busy (acquire l : Tx σ ω ℓ ε Unit) s Q ↔ Q () s :=
  commits_of_run_ok (run_acquire busy s l)

@[simp] theorem commits_exec {Q : Unit → σ → Prop} (w : ω) :
    Commits busy (exec w : Tx σ ω ℓ ε Unit) s Q ↔
      ∃ s', Writes.apply w s = .ok s' ∧ Q () s' := by
  unfold Commits
  rw [run_exec]
  cases happly : Writes.apply w s with
  | ok s1 =>
    constructor
    · rintro ⟨_, s', hok, hQ⟩
      cases hok
      exact ⟨s1, rfl, hQ⟩
    · rintro ⟨s', hok, hQ⟩
      cases hok
      exact ⟨(), s1, rfl, hQ⟩
  | error e => simp [Except.map]

@[simp] theorem commits_ofExcept (x : Except ε α) :
    Commits busy (ofExcept x : Tx σ ω ℓ ε α) s Q ↔ ∃ a, x = .ok a ∧ Q a s := by
  cases x with
  | ok a => simp [ofExcept]
  | error e => simp [ofExcept]

/-- **Loops.** A loop commits if every round commits from states that satisfy the invariant and
keeps it. -/
theorem Commits.forEach {I : List β → List β → σ → Prop}
    (hstep : ∀ done x rest s, I done (x :: rest) s →
      Commits busy (f x) s fun _ s' => I (done ++ [x]) rest s') (xs : List β) :
    ∀ done s, I done xs s →
      Commits busy (Tx.forEach xs f) s fun _ s' => I (done ++ xs) [] s' := by
  induction xs with
  | nil =>
    intro done s hI
    rw [List.append_nil]
    exact (commits_done ()).mpr hI
  | cons x xs ih =>
    intro done s hI
    refine (commits_bind (f x) _).mpr ((hstep done x xs s hI).mono ?_)
    intro _ s' hI'
    have hrest := ih (done ++ [x]) s' hI'
    rw [List.append_assoc] at hrest
    exact hrest

end Commits

/-! ### Raises -/

section Raises

variable [Writes σ ω ε] {busy : ℓ → Bool} {s : σ} {E : ε → Prop}

/-- If `t` raises from `s`, the exception satisfies `E`. -/
def Raises (busy : ℓ → Bool) (t : Tx σ ω ℓ ε α) (s : σ) (E : ε → Prop) : Prop :=
  ∀ e, t.run busy s = .error e → E e

theorem raises_of_run_ok {p : α × σ} (h : t.run busy s = .ok p) : Raises busy t s E := by
  intro e herror
  rw [h] at herror
  exact absurd herror (by simp)

@[simp] theorem raises_done (a : α) : Raises busy (.done a : Tx σ ω ℓ ε α) s E :=
  raises_of_run_ok (run_done busy s a)

@[simp] theorem raises_raise (e : ε) : Raises busy (.raise e : Tx σ ω ℓ ε α) s E ↔ E e := by
  simp [Raises]

@[simp] theorem raises_bind (t : Tx σ ω ℓ ε α) (f : α → Tx σ ω ℓ ε β) :
    Raises busy (t.bind f) s E ↔
      Raises busy t s E ∧ Ensures busy t s fun a s' => Raises busy (f a) s' E := by
  unfold Raises Ensures
  rw [run_bind]
  cases hrun : t.run busy s with
  | ok p =>
    constructor
    · refine fun h => ⟨by simp, ?_⟩
      rintro a s' heq
      cases heq
      exact h
    · exact fun h => h.2 p.1 p.2 rfl
  | error e => simp [Except.bind]

@[simp] theorem raises_read (f : σ → α) : Raises busy (read f : Tx σ ω ℓ ε α) s E ↔ True :=
  iff_true_intro (raises_of_run_ok (run_read busy s f))

@[simp] theorem raises_acquire (l : ℓ) : Raises busy (acquire l : Tx σ ω ℓ ε Unit) s E ↔ True :=
  iff_true_intro (raises_of_run_ok (run_acquire busy s l))

@[simp] theorem raises_exec (w : ω) :
    Raises busy (exec w : Tx σ ω ℓ ε Unit) s E ↔ ∀ e, Writes.apply w s = .error e → E e := by
  unfold Raises
  rw [run_exec]
  cases happly : Writes.apply w s with
  | ok s1 => simp [Except.map]
  | error e => simp [Except.map]

@[simp] theorem raises_ofExcept (x : Except ε α) :
    Raises busy (ofExcept x : Tx σ ω ℓ ε α) s E ↔ ∀ e, x = .error e → E e := by
  cases x with
  | ok a => simp [ofExcept]
  | error e => simp [ofExcept]

/-- A loop raises only what its rounds raise from states that satisfy the invariant. -/
theorem Raises.forEach {I : σ → Prop} {xs : List β}
    (hstep : ∀ x ∈ xs, ∀ s, I s → Raises busy (f x) s E ∧ Ensures busy (f x) s fun _ s' => I s')
    (hI : I s) : Raises busy (Tx.forEach xs f) s E := by
  induction xs generalizing s with
  | nil => exact raises_done ()
  | cons x xs ih =>
    obtain ⟨hraises, hkeeps⟩ := hstep x List.mem_cons_self s hI
    refine (raises_bind (f x) _).mpr ⟨hraises, hkeeps.mono fun _ s' hI' => ?_⟩
    exact ih (fun y hy => hstep y (List.mem_cons_of_mem _ hy)) hI'

end Raises

/-! ### Only certain writes -/

variable {w : ω}

section OnlyWrites

variable {W : ω → Prop}

/-- Every write statement the transaction may issue satisfies `W`. -/
def OnlyWrites (W : ω → Prop) : Tx σ ω ℓ ε α → Prop
  | .done _ => True
  | .raise _ => True
  | .lock _ next => next.OnlyWrites W
  | .lockFree _ next => ∀ ls, (next ls).OnlyWrites W
  | .query next => ∀ s, (next s).OnlyWrites W
  | .write w next => W w ∧ next.OnlyWrites W

theorem OnlyWrites.bind {f : α → Tx σ ω ℓ ε β} (ht : t.OnlyWrites W)
    (hf : ∀ a, (f a).OnlyWrites W) : (t.bind f).OnlyWrites W := by
  induction t with
  | done a => exact hf a
  | raise e => trivial
  | lock l next ih => exact ih ht
  | lockFree pick next ih => exact fun ls => ih ls (ht ls)
  | query next ih => exact fun s => ih s (ht s)
  | write w next ih => exact ⟨ht.1, ih ht.2⟩

@[simp] theorem onlyWrites_read (f : σ → α) : (read f : Tx σ ω ℓ ε α).OnlyWrites W :=
  fun _ => trivial

@[simp] theorem onlyWrites_acquire (l : ℓ) : (acquire l : Tx σ ω ℓ ε Unit).OnlyWrites W := trivial

@[simp] theorem onlyWrites_acquireFree (pick : σ → (ℓ → Bool) → List ℓ) :
    (acquireFree pick : Tx σ ω ℓ ε (List ℓ)).OnlyWrites W := fun _ => trivial

@[simp] theorem onlyWrites_exec : (exec w : Tx σ ω ℓ ε Unit).OnlyWrites W ↔ W w :=
  and_iff_left trivial

@[simp] theorem onlyWrites_ofExcept (x : Except ε α) :
    (ofExcept x : Tx σ ω ℓ ε α).OnlyWrites W := by
  cases x <;> trivial

theorem OnlyWrites.mono {W' : ω → Prop} (ht : t.OnlyWrites W) (himp : ∀ w, W w → W' w) :
    t.OnlyWrites W' := by
  induction t with
  | done a => trivial
  | raise e => trivial
  | lock l next ih => exact ih ht
  | lockFree pick next ih => exact fun ls => ih ls (ht ls)
  | query next ih => exact fun s => ih s (ht s)
  | write w next ih => exact ⟨himp w ht.1, ih ht.2⟩

theorem OnlyWrites.forEach (hf : ∀ x, (f x).OnlyWrites W) (xs : List β) :
    (Tx.forEach xs f).OnlyWrites W := by
  induction xs with
  | nil => trivial
  | cons x xs ih => exact (hf x).bind fun _ => ih

/-- **What the writes keep, the transaction keeps.** -/
theorem OnlyWrites.preserves [Writes σ ω ε] {busy : ℓ → Bool} {P : σ → Prop} (ht : t.OnlyWrites W)
    (hW : ∀ w s s', W w → Writes.apply w s = .ok s' → P s → P s') :
    ∀ s, P s → Ensures busy t s fun _ s' => P s' := by
  induction t with
  | done a => exact fun s hP => (ensures_done a).mpr hP
  | raise e => exact fun s hP => (ensures_raise e).mpr trivial
  | lock l next ih => exact fun s hP => ih ht s hP
  | lockFree pick next ih => exact fun s hP => ih _ (ht _) s hP
  | query next ih => exact fun s hP => ih s (ht s) s hP
  | write w next ih =>
    intro s hP a s' hrun
    simp only [run] at hrun
    split at hrun
    · rename_i s1 happly
      exact ih ht.2 s1 (hW w s s1 ht.1 happly hP) a s' hrun
    · exact absurd hrun (by simp)

end OnlyWrites

/-! ### Invariants of a transaction -/

section Keeps

variable [Writes σ ω ε] {P : σ → Prop}

/-- Whenever `t` commits from a state with `P`, it commits a state with `P`. -/
def Keeps (P : σ → Prop) (t : Tx σ ω ℓ ε α) : Prop :=
  ∀ busy s, P s → Ensures busy t s fun _ s' => P s'

theorem Keeps.bind {f : α → Tx σ ω ℓ ε β} (ht : Keeps P t) (hf : ∀ a, Keeps P (f a)) :
    Keeps P (t.bind f) := by
  intro busy s hs
  refine (ensures_bind t f).mpr ((ht busy s hs).mono ?_)
  intro a s' hs'
  exact hf a busy s' hs'

theorem keeps_done (a : α) : Keeps P (.done a : Tx σ ω ℓ ε α) :=
  fun _ _ hs => (ensures_done a).mpr hs

theorem keeps_raise (e : ε) : Keeps P (.raise e : Tx σ ω ℓ ε α) :=
  fun _ _ _ => (ensures_raise e).mpr trivial

theorem keeps_exec (h : ∀ s s', Writes.apply w s = .ok s' → P s → P s') :
    Keeps P (exec w : Tx σ ω ℓ ε Unit) :=
  fun _ s hs => (ensures_exec w).mpr fun s' happly => h s s' happly hs

/-- What the writes keep, the transaction keeps. -/
theorem OnlyWrites.keeps {W : ω → Prop} (ht : t.OnlyWrites W)
    (hW : ∀ w s s', W w → Writes.apply w s = .ok s' → P s → P s') : Keeps P t :=
  fun _ s hs => ht.preserves hW s hs

/-- A transaction that writes nothing keeps everything. -/
theorem keeps_of_reads (ht : t.OnlyWrites fun _ => False) : Keeps P t :=
  ht.keeps fun _ _ _ hw => hw.elim

theorem Keeps.forEach (hf : ∀ x, Keeps P (f x)) (xs : List β) : Keeps P (Tx.forEach xs f) := by
  induction xs with
  | nil => exact keeps_done ()
  | cons x xs ih => exact (hf x).bind fun _ => ih

end Keeps

/-! ### Inside a larger transaction -/

section Observe

variable [Writes σ ω ε] (busy : ℓ → Bool) (s : σ)

/-- What the caller sees who has opened the transaction: the result and the state at the end, also
where the end is an exception. A statement that fails has changed nothing. -/
def observe (busy : ℓ → Bool) : Tx σ ω ℓ ε α → σ → Except ε α × σ
  | .done a, s => (.ok a, s)
  | .raise e, s => (.error e, s)
  | .lock _ next, s => next.observe busy s
  | .lockFree pick next, s => (next (pick s busy)).observe busy s
  | .query next, s => (next s).observe busy s
  | .write w next, s =>
    match Writes.apply w s with
    | .ok s' => next.observe busy s'
    | .error e => (.error e, s)

/-- Go on from a result, or stop with the exception. -/
def follow (p : Except ε α × σ) (f : α → σ → Except ε β × σ) : Except ε β × σ :=
  match p with
  | (.ok a, s) => f a s
  | (.error e, s) => (.error e, s)

@[simp] theorem follow_ok (a : α) (f : α → σ → Except ε β × σ) :
    follow (.ok a, s) f = f a s := rfl

@[simp] theorem observe_done (a : α) : (.done a : Tx σ ω ℓ ε α).observe busy s = (.ok a, s) := rfl

@[simp] theorem observe_read (f : σ → α) :
    (read f : Tx σ ω ℓ ε α).observe busy s = (.ok (f s), s) := rfl

@[simp] theorem observe_acquire (l : ℓ) :
    (acquire l : Tx σ ω ℓ ε Unit).observe busy s = (.ok (), s) := rfl

@[simp] theorem observe_ofExcept (x : Except ε α) :
    (ofExcept x : Tx σ ω ℓ ε α).observe busy s = (x, s) := by
  cases x <;> rfl

theorem observe_exec_ok {s' : σ} (h : Writes.apply w s = .ok s') :
    (exec w : Tx σ ω ℓ ε Unit).observe busy s = (.ok (), s') := by
  simp only [exec, observe, h]

theorem observe_exec_error {e : ε} (h : Writes.apply w s = .error e) :
    (exec w : Tx σ ω ℓ ε Unit).observe busy s = (.error e, s) := by
  simp only [exec, observe, h]

@[simp] theorem observe_bind (t : Tx σ ω ℓ ε α) (f : α → Tx σ ω ℓ ε β) :
    (t.bind f).observe busy s = follow (t.observe busy s) fun a s' => (f a).observe busy s' := by
  induction t generalizing s with
  | done a => rfl
  | raise e => rfl
  | lock l next ih => exact ih s
  | lockFree pick next ih => exact ih (pick s busy) s
  | query next ih => exact ih s s
  | write w next ih =>
    simp only [bind, observe]
    cases Writes.apply w s with
    | ok s' => exact ih s'
    | error e => rfl

/-- **A transaction run alone** commits what is observed, or rolls it back. -/
theorem run_eq_observe (t : Tx σ ω ℓ ε α) :
    t.run busy s = (t.observe busy s).1.map fun a => (a, (t.observe busy s).2) := by
  induction t generalizing s with
  | done a => rfl
  | raise e => rfl
  | lock l next ih => exact ih s
  | lockFree pick next ih => exact ih (pick s busy) s
  | query next ih => exact ih s s
  | write w next ih =>
    simp only [run, observe]
    cases Writes.apply w s with
    | ok s' => exact ih s'
    | error e => rfl

end Observe

end Tx

section Requests

variable {σ ω ℓ ε α : Type} {W : ω → Prop}

/-- Every write statement of the body and of the handlers satisfies `W`. -/
structure Request.OnlyWrites (W : ω → Prop) (r : Request σ ω ℓ ε α) : Prop where
  body : r.body.OnlyWrites W
  handler : ∀ e t, r.handler e = some t → t.OnlyWrites W

variable {r : Request σ ω ℓ ε α}

theorem Request.OnlyWrites.preserves [Writes σ ω ε] {busy : ℓ → Bool} {P : σ → Prop}
    (hr : r.OnlyWrites W) (hW : ∀ w s s', W w → Writes.apply w s = .ok s' → P s → P s') {s s' : σ}
    {a : α} (hs : P s) (h : r.run busy s = .ok (a, s')) : P s' :=
  Request.run_ok (Q := fun _ s' => P s') (hr.body.preserves hW s hs)
    (fun e t ht => (hr.handler e t ht).preserves hW s hs) h

theorem Request.OnlyWrites.mono {W' : ω → Prop} (hr : r.OnlyWrites W) (himp : ∀ w, W w → W' w) :
    r.OnlyWrites W' :=
  ⟨hr.body.mono himp, fun e t ht => (hr.handler e t ht).mono himp⟩

theorem Request.OnlyWrites.map {β : Type} (hr : r.OnlyWrites W) (f : α → β) :
    (r.map f).OnlyWrites W where
  body := .bind hr.body fun _ => trivial
  handler e t ht := by
    obtain ⟨t', ht', rfl⟩ := Option.map_eq_some_iff.mp ht
    exact .bind (hr.handler e t' ht') fun _ => trivial

theorem Tx.OnlyWrites.toRequest {t : Tx σ ω ℓ ε α} (ht : t.OnlyWrites W) :
    t.toRequest.OnlyWrites W := ⟨ht, fun _ _ h => absurd h (by simp [Tx.toRequest])⟩

end Requests

end AgentRuntime.Lib
