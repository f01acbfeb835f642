import AgentRuntime.Lib.Interleaving
import AgentRuntime.Lib.Outcomes

/-!
# Locking disciplines

What makes a transaction correct among others is a discipline: while it holds certain resources the
others leave certain things as they are, and in return it only issues writes that its own resources
allow, and asks for further resources only in certain situations. A discipline fixes all this once for
a store; a program obeys it when every statement it issues is in order, whatever the others do in
between, and the rules below prove that along its `do` block.

* `Discipline`: what the holder of some resources can rely on, what it may write and ask for;
* `Obeys`, `obeys_bind`, `Obeys.forEach`: the judgement about programs and its rules;
* `sound_after`: in every interleaving of programs that obey, the invariant holds in every committed
  state and the writes of every open transaction can still be applied;
* `Sound.commits`: a transaction that commits does so in a state that satisfies its postcondition;
* `Sound.asks`: a transaction that waits is in one of the situations the discipline allows.
-/

namespace AgentRuntime.Lib

/-- The rules transactions over `σ` follow with respect to resources `ρ`. -/
structure Discipline (σ ω ρ : Type) {ε : Type} [Writes σ ω ε] where
  /-- What holds of every committed state. -/
  Inv : σ → Prop
  /-- How the state may change while somebody holds `L`. -/
  Frame : List (Hold ρ) → σ → σ → Prop
  /-- The writes that the holder of `L` may issue. -/
  Legal : List (Hold ρ) → σ → ω → Prop
  /-- What the holder of `L`, having written `ws`, may ask for. -/
  Asks : List (Hold ρ) → List ω → σ → Hold ρ → Prop
  frame_refl : ∀ L s, Frame L s s
  frame_trans : ∀ {L s s' s''}, Frame L s s' → Frame L s' s'' → Frame L s s''
  frame_anti : ∀ {L L' s s'}, L ⊆ L' → Frame L' s s' → Frame L s s'
  legal_mono : ∀ {L L' s w}, L ⊆ L' → Legal L s w → Legal L' s w
  legal_frame : ∀ {L s s' w}, Legal L s w → Frame L s s' → Legal L s' w
  /-- A legal write can be replayed after others have moved. -/
  apply_frame : ∀ {L s s' w u}, Legal L s w → Inv s → Inv s' → Frame L s s' →
    Writes.apply w s = .ok u → ∃ u', Writes.apply w s' = .ok u' ∧ Frame L u u'
  /-- A legal write leaves alone what the holders of other resources rely on. -/
  legal_apart : ∀ {L L' s w u}, Legal L s w → Inv s → Writes.apply w s = .ok u → Apart L L' →
    Frame L' s u
  legal_inv : ∀ {L s w u}, Legal L s w → Inv s → Writes.apply w s = .ok u → Inv u

/-! ### Programs that obey -/

section Obeys

variable {σ ω ℓ ε α β ρ : Type} [Writes σ ω ε] (K : Locking ω ℓ ρ) (D : Discipline σ ω ρ)

/-- The transaction, holding `L` and having written `ws`, with `v` the state it sees: whatever others
do as long as it holds what it holds, it asks and writes as it may, and if it commits then `Q`. -/
def Obeys (Q : α → List (Hold ρ) → List ω → σ → Prop) :
    Tx σ ω ℓ ε α → List (Hold ρ) → List ω → σ → Prop
  | .done a, L, ws, v => ∀ v', D.Frame L v v' → Q a L ws v'
  | .raise _, _, _, _ => True
  | .lock l next, L, ws, v =>
    ∀ v', D.Frame L v v' → D.Asks L ws v' (K.lock l, .exclusive) ∧
      Obeys Q next ((K.lock l, .exclusive) :: L) ws v'
  | .lockFree pick next, L, ws, v =>
    ∀ v', D.Frame L v v' → ∀ isFree : ℓ → Bool, ∀ locks : List ℓ,
      locks = (pick v' fun l => !isFree l).filter isFree →
        Obeys Q (next locks) (locks.map (fun l => (K.lock l, .exclusive)) ++ L) ws v'
  | .query next, L, ws, v => ∀ v', D.Frame L v v' → Obeys Q (next v') L ws v'
  | .write w next, L, ws, v =>
    ∀ v', D.Frame L v v' → (∀ h ∈ K.write w, D.Asks L ws v' h) ∧
      ∀ u, Writes.apply w v' = .ok u →
        D.Legal (K.write w ++ L) v' w ∧ Obeys Q next (K.write w ++ L) (ws ++ [w]) u

variable {K D} {Q Q' : α → List (Hold ρ) → List ω → σ → Prop} {L : List (Hold ρ)} {ws : List ω}
  {v v' : σ}

variable {t : Tx σ ω ℓ ε α}

/-- What a program does is described for all states the others may produce. -/
theorem Obeys.frame (h : Obeys K D Q t L ws v) (hframe : D.Frame L v v') :
    Obeys K D Q t L ws v' := by
  cases t with
  | raise e => trivial
  | _ => exact fun u hu => h u (D.frame_trans hframe hu)

/-- The postcondition may be weakened, also to one that only follows if it lasts. -/
theorem Obeys.mono_of_lasts (h : Obeys K D Q t L ws v)
    (himp : ∀ a L ws v, (∀ v', D.Frame L v v' → Q a L ws v') → Q' a L ws v) :
    Obeys K D Q' t L ws v := by
  induction t generalizing L ws v with
  | done a => exact fun u hu => himp _ _ _ _ fun u' hu' => h u' (D.frame_trans hu hu')
  | raise e => trivial
  | lock l next ih => exact fun u hu => ⟨(h u hu).1, ih (h u hu).2⟩
  | lockFree pick next ih => exact fun u hu isFree locks hl => ih locks (h u hu isFree locks hl)
  | query next ih => exact fun u hu => ih u (h u hu)
  | write w next ih =>
    refine fun u hu => ⟨(h u hu).1, fun u' hw => ?_⟩
    exact ⟨((h u hu).2 u' hw).1, ih ((h u hu).2 u' hw).2⟩

theorem Obeys.mono (h : Obeys K D Q t L ws v) (himp : ∀ a L ws v, Q a L ws v → Q' a L ws v) :
    Obeys K D Q' t L ws v :=
  h.mono_of_lasts fun a L ws v hlasts => himp a L ws v (hlasts v (D.frame_refl L v))

/-- **Sequencing.** -/
theorem obeys_bind {R : β → List (Hold ρ) → List ω → σ → Prop} (t : Tx σ ω ℓ ε α)
    (f : α → Tx σ ω ℓ ε β) :
    Obeys K D R (t.bind f) L ws v ↔
      Obeys K D (fun a L ws v => Obeys K D R (f a) L ws v) t L ws v := by
  induction t generalizing L ws v with
  | done a =>
    constructor
    · exact fun h u hu => h.frame hu
    · exact fun h => h v (D.frame_refl L v)
  | raise e => exact Iff.rfl
  | lock l next ih =>
    exact forall_congr' fun u => imp_congr_right fun _ => and_congr_right fun _ => ih
  | lockFree pick next ih =>
    refine forall_congr' fun u => imp_congr_right fun _ => forall_congr' fun isFree => ?_
    exact forall_congr' fun locks => imp_congr_right fun _ => ih locks
  | query next ih => exact forall_congr' fun u => imp_congr_right fun _ => ih u
  | write w next ih =>
    refine forall_congr' fun u => imp_congr_right fun _ => and_congr_right fun _ => ?_
    exact forall_congr' fun u' => imp_congr_right fun _ => and_congr_right fun _ => ih

theorem Obeys.bind {R : β → List (Hold ρ) → List ω → σ → Prop} {f : α → Tx σ ω ℓ ε β}
    (h : Obeys K D Q t L ws v) (hf : ∀ a L ws v, Q a L ws v → Obeys K D R (f a) L ws v) :
    Obeys K D R (t.bind f) L ws v :=
  (obeys_bind t f).mpr (h.mono hf)

/-- A postcondition that survives what others do holds at the commit if it holds now. -/
theorem obeys_done {a : α} (hstable : ∀ v', D.Frame L v v' → Q a L ws v → Q a L ws v')
    (h : Q a L ws v) : Obeys K D Q (.done a) L ws v :=
  fun v' hframe => hstable v' hframe h

/-! One rule for every statement. -/

section Statements

variable {R : β → List (Hold ρ) → List ω → σ → Prop}

theorem obeys_read {f : σ → α} {g : α → Tx σ ω ℓ ε β} :
    Obeys K D R ((Tx.read f).bind g) L ws v ↔
      ∀ v', D.Frame L v v' → Obeys K D R (g (f v')) L ws v' := Iff.rfl

variable {g : Unit → Tx σ ω ℓ ε β}

theorem obeys_acquire {l : ℓ} :
    Obeys K D R ((Tx.acquire l).bind g) L ws v ↔
      ∀ v', D.Frame L v v' → D.Asks L ws v' (K.lock l, .exclusive) ∧
        Obeys K D R (g ()) ((K.lock l, .exclusive) :: L) ws v' := Iff.rfl

theorem obeys_acquireFree {pick : σ → (ℓ → Bool) → List ℓ} {g : List ℓ → Tx σ ω ℓ ε β} :
    Obeys K D R ((Tx.acquireFree pick).bind g) L ws v ↔
      ∀ v', D.Frame L v v' → ∀ isFree : ℓ → Bool, ∀ locks : List ℓ,
        locks = (pick v' fun l => !isFree l).filter isFree →
          Obeys K D R (g locks) (locks.map (fun l => (K.lock l, .exclusive)) ++ L) ws v' := Iff.rfl

theorem obeys_exec {w : ω} :
    Obeys K D R ((Tx.exec w).bind g) L ws v ↔
      ∀ v', D.Frame L v v' → (∀ h ∈ K.write w, D.Asks L ws v' h) ∧
        ∀ u, Writes.apply w v' = .ok u →
          D.Legal (K.write w ++ L) v' w ∧ Obeys K D R (g ()) (K.write w ++ L) (ws ++ [w]) u :=
  Iff.rfl

theorem obeys_ofExcept {x : Except ε α} {g : α → Tx σ ω ℓ ε β}
    (h : ∀ a, x = .ok a → Obeys K D R (g a) L ws v) :
    Obeys K D R ((Tx.ofExcept x).bind g) L ws v := by
  cases x with
  | error e => trivial
  | ok a => exact h a rfl

end Statements

/-- **Loops.** `I` says what is left to do and is stable. -/
theorem Obeys.forEach {f : β → Tx σ ω ℓ ε Unit} {I : List β → List (Hold ρ) → List ω → σ → Prop}
    (hstable : ∀ {L ws v v'}, I [] L ws v → D.Frame L v v' → I [] L ws v')
    (hstep : ∀ {x rest L ws v}, I (x :: rest) L ws v → Obeys K D (fun _ => I rest) (f x) L ws v)
    (xs : List β) : ∀ {L ws v}, I xs L ws v →
      Obeys K D (fun _ => I []) (Tx.forEach xs f) L ws v := by
  induction xs with
  | nil => exact fun hI v' hframe => hstable hI hframe
  | cons x xs ih => exact fun hI => Obeys.bind (hstep hI) fun _ L' ws' v' hI' => ih hI'

/-- The writes a program may issue satisfy what all its write statements satisfy. -/
theorem Obeys.onlyWrites {W : ω → Prop} (ht : t.OnlyWrites W) (h : Obeys K D Q t L ws v)
    (hws : ∀ w ∈ ws, W w) : Obeys K D (fun a L ws v => Q a L ws v ∧ ∀ w ∈ ws, W w) t L ws v := by
  induction t generalizing L ws v with
  | done a => exact fun u hu => ⟨h u hu, hws⟩
  | raise e => trivial
  | lock l next ih => exact fun u hu => ⟨(h u hu).1, ih ht (h u hu).2 hws⟩
  | lockFree pick next ih =>
    exact fun u hu isFree locks hl => ih locks (ht locks) (h u hu isFree locks hl) hws
  | query next ih => exact fun u hu => ih u (ht u) (h u hu) hws
  | write w next ih =>
    refine fun u hu => ⟨(h u hu).1, fun u' hw => ?_⟩
    refine ⟨((h u hu).2 u' hw).1, ih ht.2 ((h u hu).2 u' hw).2 ?_⟩
    intro w' hw'
    rcases List.mem_append.mp hw' with hw' | hw'
    · exact hws w' hw'
    · rw [List.mem_singleton.mp hw']
      exact ht.1

/-- Wrapping the result. -/
theorem Obeys.map {R : β → List (Hold ρ) → List ω → σ → Prop} {f : α → β}
    (h : Obeys K D Q t L ws v) (hf : ∀ a L ws v, Q a L ws v → R (f a) L ws v) :
    Obeys K D R (t.bind fun a => .done (f a)) L ws v :=
  (obeys_bind t _).mpr (h.mono_of_lasts fun a L ws _ hlasts v' hv' => hf a L ws v' (hlasts v' hv'))

variable (K D) in
/-- Both transactions of the request obey, whenever they start. -/
structure Request.Obeys (Q : α → List (Hold ρ) → List ω → σ → Prop) (r : Request σ ω ℓ ε α) :
    Prop where
  body : ∀ v, D.Inv v → Lib.Obeys K D Q r.body [] [] v
  handler : ∀ e t, r.handler e = some t → ∀ v, D.Inv v → Lib.Obeys K D Q t [] [] v

theorem Request.Obeys.map {R : β → List (Hold ρ) → List ω → σ → Prop} {r : Request σ ω ℓ ε α}
    {f : α → β} (h : r.Obeys K D Q) (hf : ∀ a L ws v, Q a L ws v → R (f a) L ws v) :
    (r.map f).Obeys K D R where
  body v hv := (h.body v hv).map hf
  handler e t ht v hv := by
    obtain ⟨t', ht', rfl⟩ := Option.map_eq_some_iff.mp ht
    exact (h.handler e t' ht' v hv).map hf

theorem Tx.toRequest_obeys (h : ∀ v, D.Inv v → Lib.Obeys K D Q t [] [] v) :
    t.toRequest.Obeys K D Q :=
  ⟨h, fun _ _ ht => absurd ht (by simp [Tx.toRequest])⟩

end Obeys

/-! ### Replaying legal writes -/

section Replay

variable {σ ω ε ρ : Type} [Writes σ ω ε] {D : Discipline σ ω ρ} {L L' : List (Hold ρ)}
  {ws : List ω} {s s' u : σ}

/-- From `s` the writes `ws` lead to `u`, each of them legal for the holder of `L`. -/
inductive Replay (D : Discipline σ ω ρ) (L : List (Hold ρ)) : List ω → σ → σ → Prop where
  | nil (s : σ) : Replay D L [] s s
  | cons {w : ω} {ws : List ω} {s s1 u : σ} (hlegal : D.Legal L s w)
      (happly : Writes.apply w s = .ok s1) (hrest : Replay D L ws s1 u) : Replay D L (w :: ws) s u

namespace Replay

theorem applyAll (h : Replay D L ws s u) : Lib.applyAll ws s = .ok u := by
  induction h with
  | nil s => rfl
  | cons _ happly _ ih => exact applyAll_cons_ok.mpr ⟨_, happly, ih⟩

theorem mono (h : Replay D L ws s u) (hsub : L ⊆ L') : Replay D L' ws s u := by
  induction h with
  | nil s => exact .nil s
  | cons hlegal happly _ ih => exact .cons (D.legal_mono hsub hlegal) happly ih

theorem concat {w : ω} {u' : σ} (h : Replay D L ws s u) (hlegal : D.Legal L u w)
    (happly : Writes.apply w u = .ok u') : Replay D L (ws ++ [w]) s u' := by
  induction h with
  | nil s => exact .cons hlegal happly (.nil u')
  | cons hlegal' happly' _ ih => exact .cons hlegal' happly' (ih hlegal happly)

/-- What every legal write does, all of them together do, if that is a matter of steps. -/
theorem relates {R : σ → σ → Prop} (h : Replay D L ws s u) (hrefl : ∀ s, R s s)
    (htrans : ∀ {s s' s''}, R s s' → R s' s'' → R s s'')
    (hstep : ∀ {s w s'}, D.Legal L s w → Writes.apply w s = .ok s' → R s s') : R s u := by
  induction h with
  | nil s => exact hrefl s
  | cons hlegal happly _ ih => exact htrans (hstep hlegal happly) ih

/-- The state in which a write was issued. -/
theorem of_mem {w : ω} (h : Replay D L ws s u) (hw : w ∈ ws) :
    ∃ ws' s1 s2, Replay D L ws' s s1 ∧ D.Legal L s1 w ∧ Writes.apply w s1 = .ok s2 := by
  induction h with
  | nil s => exact absurd hw (by simp)
  | cons hlegal happly _ ih =>
    rcases List.mem_cons.mp hw with rfl | hw
    · exact ⟨[], _, _, .nil _, hlegal, happly⟩
    · obtain ⟨ws', s1, s2, hbefore, hwrite⟩ := ih hw
      exact ⟨_, s1, s2, .cons hlegal happly hbefore, hwrite⟩

theorem inv (h : Replay D L ws s u) (hinv : D.Inv s) : D.Inv u := by
  induction h with
  | nil s => exact hinv
  | cons hlegal happly _ ih => exact ih (D.legal_inv hlegal hinv happly)

/-- The writes can be replayed after others have moved. -/
theorem frame (h : Replay D L ws s u) (hinv : D.Inv s) (hinv' : D.Inv s')
    (hframe : D.Frame L s s') : ∃ u', Replay D L ws s' u' ∧ D.Frame L u u' := by
  induction h generalizing s' with
  | nil s => exact ⟨s', .nil s', hframe⟩
  | cons hlegal happly _ ih =>
    obtain ⟨s2, happly', hframe'⟩ := D.apply_frame hlegal hinv hinv' hframe happly
    have hlegal' := D.legal_frame hlegal hframe
    obtain ⟨u', hreplay, hu⟩ := ih (D.legal_inv hlegal hinv happly)
      (D.legal_inv hlegal' hinv' happly') hframe'
    exact ⟨u', .cons hlegal' happly' hreplay, hu⟩

/-- All of them together leave alone what the holders of other resources rely on. -/
theorem apart (h : Replay D L ws s u) (hinv : D.Inv s) (hL : Apart L L') : D.Frame L' s u := by
  induction h with
  | nil s => exact D.frame_refl L' s
  | cons hlegal happly _ ih =>
    refine D.frame_trans (D.legal_apart hlegal hinv happly hL) ?_
    exact ih (D.legal_inv hlegal hinv happly)

end Replay

end Replay

/-! ### Soundness -/

section Soundness

variable {ι σ ω ℓ ε α ρ : Type} [Writes σ ω ε] (K : Locking ω ℓ ρ) (D : Discipline σ ω ρ)

/-- An open transaction obeys, and so does the one of its `except` clause. -/
def StageSound (Q : α → List (Hold ρ) → List ω → σ → Prop) (s : σ) : Stage σ ω ℓ ε α ρ → Prop
  | .running prog handler held writes =>
    (∃ v, Replay D held writes s v ∧ Obeys K D Q prog held writes v) ∧
      ∀ e t, handler e = some t → ∀ v, D.Inv v → Obeys K D Q t [] [] v
  | _ => True

/-- Every request of a kind in `P` obeys with its postcondition. -/
def Verified (program : ι → Request σ ω ℓ ε α) (P : ι → Prop)
    (Q : ι → α → List (Hold ρ) → List ω → σ → Prop) : Prop :=
  ∀ tag, P tag → (program tag).Obeys K D (Q tag)

/-- The invariant of the machine: the committed state is good, nobody holds what conflicts, and all
open transactions obey. -/
structure Sound (Q : ι → α → List (Hold ρ) → List ω → σ → Prop)
    (c : Config ι σ ω ℓ ε α ρ) : Prop where
  inv : D.Inv c.store
  apart : ∀ {i j : ℕ} {x y : Session ι σ ω ℓ ε α ρ}, i ≠ j → c.sessions[i]? = some x →
    c.sessions[j]? = some y → Apart x.stage.held y.stage.held
  sessions : ∀ {i : ℕ} {x : Session ι σ ω ℓ ε α ρ}, c.sessions[i]? = some x →
    StageSound K D (Q x.tag) c.store x.stage

variable {K D} {Q : α → List (Hold ρ) → List ω → σ → Prop} {s s' : σ}

variable {p : Stage σ ω ℓ ε α ρ}

theorem StageSound.frame (h : StageSound K D Q s p) (hinv : D.Inv s) (hinv' : D.Inv s')
    (hframe : D.Frame p.held s s') : StageSound K D Q s' p := by
  cases p with
  | running prog handler held writes =>
    obtain ⟨⟨v, hreplay, hobeys⟩, hhandler⟩ := h
    obtain ⟨v', hreplay', hv⟩ := hreplay.frame hinv hinv' hframe
    exact ⟨⟨v', hreplay', hobeys.frame hv⟩, hhandler⟩
  | _ => trivial

variable {handler : ε → Option (Tx σ ω ℓ ε α)}

theorem stageSound_fail (hinv : D.Inv s)
    (h : ∀ e t, handler e = some t → ∀ v, D.Inv v → Obeys K D Q t [] [] v) (e : ε) :
    StageSound K D Q s (.fail handler e) := by
  unfold Stage.fail
  split
  · rename_i t ht
    exact ⟨⟨s, .nil s, h e t ht s hinv⟩, fun _ _ hnone => absurd hnone (by simp)⟩
  · trivial

/-- What one statement of a sound transaction does. -/
structure Advances (K : Locking ω ℓ ρ) (D : Discipline σ ω ρ)
    (Q : α → List (Hold ρ) → List ω → σ → Prop) (free : Hold ρ → Bool) (s : σ)
    (p : Stage σ ω ℓ ε α ρ) (s' : σ) (p' : Stage σ ω ℓ ε α ρ) : Prop where
  inv : D.Inv s'
  sound : StageSound K D Q s' p'
  held : ∀ h ∈ p'.held, h ∈ p.held ∨ free h = true
  others : ∀ L', Apart p.held L' → D.Frame L' s s'

theorem advances_fail {free : Hold ρ → Bool} (hinv : D.Inv s)
    (h : ∀ e t, handler e = some t → ∀ v, D.Inv v → Obeys K D Q t [] [] v) (e : ε) :
    Advances K D Q free s p s (.fail handler e) where
  inv := hinv
  sound := stageSound_fail hinv h e
  held _ hh := by rw [Stage.held_fail] at hh; exact absurd hh (by simp)
  others L' _ := D.frame_refl L' s

theorem advance_sound (free : Hold ρ → Bool) (hinv : D.Inv s) (h : StageSound K D Q s p) :
    Advances K D Q free s p (advance K free s p).1 (advance K free s p).2 := by
  have hstay (p' : Stage σ ω ℓ ε α ρ) (hsound : StageSound K D Q s p')
      (hheld : ∀ h ∈ p'.held, h ∈ p.held ∨ free h = true) : Advances K D Q free s p s p' :=
    ⟨hinv, hsound, hheld, fun L' _ => D.frame_refl L' s⟩
  cases p with
  | running prog handler held writes =>
    obtain ⟨⟨v, hreplay, hobeys⟩, hhandler⟩ := h
    have hv := D.frame_refl held v
    simp only [advance, hreplay.applyAll]
    cases prog with
    | done a =>
      refine ⟨hreplay.inv hinv, trivial, fun _ hh => absurd hh (by simp [Stage.held]), ?_⟩
      exact fun L' hL => hreplay.apart hinv hL
    | raise e => exact advances_fail hinv hhandler e
    | lock l next =>
      dsimp only
      split
      · rename_i hfree
        refine hstay _ ⟨⟨v, hreplay.mono (List.subset_cons_self _ _), (hobeys v hv).2⟩, hhandler⟩ ?_
        intro h hh
        rcases List.mem_cons.mp hh with rfl | hh
        · exact .inr hfree
        · exact .inl hh
      · exact hstay _ ⟨⟨v, hreplay, hobeys⟩, hhandler⟩ fun _ => Or.inl
    | lockFree pick next =>
      dsimp only
      refine hstay _ ⟨⟨v, hreplay.mono (List.subset_append_right _ _), ?_⟩, hhandler⟩ ?_
      · exact hobeys v hv (fun l => free (K.lock l, .exclusive)) _ rfl
      · intro h hh
        rcases List.mem_append.mp hh with hh | hh
        · obtain ⟨l, hl, rfl⟩ := List.mem_map.mp hh
          exact .inr (List.mem_filter.mp hl).2
        · exact .inl hh
    | query next => exact hstay _ ⟨⟨v, hreplay, hobeys v hv⟩, hhandler⟩ fun _ => Or.inl
    | write w next =>
      dsimp only
      split
      · rename_i hfree
        cases happly : Writes.apply w v with
        | error e => exact advances_fail hinv hhandler e
        | ok u =>
          obtain ⟨hlegal, hnext⟩ := (hobeys v hv).2 u happly
          have hreplay' := hreplay.mono (List.subset_append_right (K.write w) held)
          refine hstay _ ⟨⟨u, hreplay'.concat hlegal happly, hnext⟩, hhandler⟩ ?_
          intro h hh
          rcases List.mem_append.mp hh with hh | hh
          · exact .inr (List.all_eq_true.mp hfree h hh)
          · exact .inl hh
      · exact hstay _ ⟨⟨v, hreplay, hobeys⟩, hhandler⟩ fun _ => Or.inl
  | _ => exact hstay _ trivial fun _ => Or.inl

variable [DecidableEq ρ] {Q : ι → α → List (Hold ρ) → List ω → σ → Prop}
  {c : Config ι σ ω ℓ ε α ρ}

variable {i : ℕ}

/-- Changing one session: the others keep what they rely on. -/
theorem Sound.set (h : Sound K D Q c) {x : Session ι σ ω ℓ ε α ρ} (hx : c.sessions[i]? = some x)
    {s' : σ} {p' : Stage σ ω ℓ ε α ρ}
    (hadv : Advances K D (Q x.tag) (c.free i) c.store x.stage s' p') :
    Sound K D Q ⟨s', c.sessions.set i ⟨x.tag, p'⟩⟩ := by
  have happart : ∀ {j y}, j ≠ i → c.sessions[j]? = some y → Apart p'.held y.stage.held := by
    intro j y hj hy a ha b hb
    rcases hadv.held a ha with ha | hfree
    · exact h.apart hj.symm hx hy a ha b hb
    · exact Config.free_iff.mp hfree j y hj hy b hb
  refine ⟨hadv.inv, ?_, ?_⟩
  · intro j k y z hjk hy hz
    rcases getElem?_set_cases hx hy with ⟨rfl, rfl⟩ | ⟨hj, hy'⟩
    · rcases getElem?_set_cases hx hz with ⟨rfl, rfl⟩ | ⟨hk, hz'⟩
      · exact absurd rfl hjk
      · exact happart hk hz'
    · rcases getElem?_set_cases hx hz with ⟨rfl, rfl⟩ | ⟨hk, hz'⟩
      · exact (happart hj hy').symm
      · exact h.apart hjk hy' hz'
  · intro j y hy
    rcases getElem?_set_cases hx hy with ⟨rfl, rfl⟩ | ⟨hj, hy'⟩
    · exact hadv.sound
    · exact (h.sessions hy').frame h.inv hadv.inv (hadv.others _ (h.apart hj.symm hx hy'))

variable {program : ι → Request σ ω ℓ ε α} {P : ι → Prop} {init : σ}

theorem Sound.step (h : Sound K D Q c) (hprogram : Verified K D program P Q) {e : Event ι}
    (he : ∀ tag, e = .start tag → P tag) :
    Sound K D Q ((interleaving program K init).step c e).2 := by
  cases e with
  | start tag =>
    have hnew : StageSound K D (Q tag) c.store
        (.running (program tag).body (program tag).handler [] []) :=
      ⟨⟨c.store, .nil _, (hprogram tag (he tag rfl)).body _ h.inv⟩,
        (hprogram tag (he tag rfl)).handler⟩
    refine ⟨h.inv, ?_, ?_⟩
    · intro i j x y hij hx hy
      rcases getElem?_concat_cases hx with hx' | ⟨hi, rfl⟩
      · rcases getElem?_concat_cases hy with hy' | ⟨hj, rfl⟩
        · exact h.apart hij hx' hy'
        · exact (apart_nil _).symm
      · exact apart_nil _
    · intro i x hx
      rcases getElem?_concat_cases hx with hx' | ⟨hi, rfl⟩
      · exact h.sessions hx'
      · exact hnew
  | step i =>
    cases hx : c.sessions[i]? with
    | none =>
      rw [interleaving_step_none hx]
      exact h
    | some x =>
      rw [interleaving_step_some hx]
      exact h.set hx (advance_sound _ h.inv (h.sessions hx))
  | abort i =>
    rcases interleaving_abort_cases program K init c i with
      hsame | ⟨tag, prog, handler, held, writes, hx, hset⟩
    · rw [hsame]
      exact h
    · rw [hset]
      exact h.set hx
        ⟨h.inv, trivial, fun _ hh => absurd hh (by simp [Stage.held]), fun L' _ => D.frame_refl _ _⟩

/-- **Soundness.** Along every interleaving of requests that obey, everything stays sound. -/
theorem sound_after (hprogram : Verified K D program P Q) (hinit : D.Inv init)
    (events : List (Event ι)) (hstart : ∀ tag, .start tag ∈ events → P tag) :
    Sound K D Q ((interleaving program K init).after events) := by
  induction events using List.reverseRecOn with
  | nil =>
    exact ⟨hinit, fun _ hx => absurd hx (by simp [interleaving, Machine.after, Machine.afterFrom]),
      fun hx => absurd hx (by simp [interleaving, Machine.after, Machine.afterFrom])⟩
  | append_singleton events e ih =>
    rw [Machine.after_concat]
    refine (ih fun tag ht => hstart tag (List.mem_append_left _ ht)).step hprogram ?_
    rintro tag rfl
    exact hstart tag (by simp)

variable (program init) in
/-- **Commits.** The step in which a transaction commits applies its writes to the committed state
and leaves it in one that satisfies the postcondition. -/
theorem Sound.commits (h : Sound K D Q c) {tag : ι} {a : α} {held : List (Hold ρ)}
    {writes : List ω} (hx : c.sessions[i]? = some ⟨tag, .running (.done a) handler held writes⟩) :
    ∃ s', applyAll writes c.store = .ok s' ∧ Q tag a held writes s' ∧
      ((interleaving program K init).step c (.step i)).2
        = ⟨s', c.sessions.set i ⟨tag, .committed a writes⟩⟩ := by
  obtain ⟨⟨v, hreplay, hobeys⟩, -⟩ := h.sessions hx
  refine ⟨v, hreplay.applyAll, hobeys v (D.frame_refl _ _), ?_⟩
  rw [interleaving_step_some hx]
  simp only [advance, hreplay.applyAll]

omit [DecidableEq ρ] in
/-- **Waiting.** What an open transaction asks for next it may ask for, with what it holds and has
written. -/
theorem Sound.asks (h : Sound K D Q c) {tag : ι} {prog : Tx σ ω ℓ ε α} {held : List (Hold ρ)}
    {writes : List ω} (hx : c.sessions[i]? = some ⟨tag, .running prog handler held writes⟩) :
    ∃ v, Replay D held writes c.store v ∧
      ∀ a ∈ (Stage.running prog handler held writes : Stage σ ω ℓ ε α ρ).asks K,
        D.Asks held writes v a := by
  obtain ⟨⟨v, hreplay, hobeys⟩, -⟩ := h.sessions hx
  have hv := D.frame_refl held v
  refine ⟨v, hreplay, fun a ha => ?_⟩
  cases prog with
  | lock l next =>
    rw [List.mem_singleton.mp ha]
    exact (hobeys v hv).1
  | write w next => exact (hobeys v hv).1 a ha
  | _ => exact absurd ha (by simp [Stage.asks])

end Soundness

end AgentRuntime.Lib
