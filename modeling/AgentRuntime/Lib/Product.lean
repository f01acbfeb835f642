import AgentRuntime.Lib.Discipline

/-!
# Programs over two stores

A database has tables that some programs know and others do not. A program over one store runs
over the product of two and leaves the other one alone; disciplines for the two stores make one for
the product, and a program that obeys the first obeys the product. A discipline can also be
supplemented for the programs at hand: with an invariant, with more for the holders of resources to
rely on, and with what all write statements of the programs satisfy.

* `Tx.left`, `Request.left`: a program over the first store, run over both;
* `Discipline.prod`, `Obeys.left`: the discipline of the product, and that it is obeyed;
* `Supplement`, `Discipline.supplement`, `Obeys.supplement`: more to rely on.
-/

namespace AgentRuntime.Lib

variable {σ τ ω κ ℓ ε α ρ : Type}

/-! ### Two stores -/

/-- A write statement belongs to one of the two stores. -/
instance Writes.prod [Writes σ ω ε] [Writes τ κ ε] : Writes (σ × τ) (ω ⊕ κ) ε where
  apply
    | .inl w, s => (Writes.apply w s.1).map fun u => (u, s.2)
    | .inr w, s => (Writes.apply w s.2).map fun u => (s.1, u)

section Apply

variable [Writes σ ω ε] [Writes τ κ ε]

theorem apply_inl_ok {w : ω} {s u : σ × τ} :
    Writes.apply (.inl w : ω ⊕ κ) s = .ok u ↔ Writes.apply w s.1 = .ok u.1 ∧ u.2 = s.2 := by
  show (Writes.apply w s.1).map _ = _ ↔ _
  rw [Tx.map_eq_ok]
  constructor
  · rintro ⟨x, hx, rfl⟩
    exact ⟨hx, rfl⟩
  · rintro ⟨hx, hu⟩
    exact ⟨u.1, hx, Prod.ext rfl hu.symm⟩

theorem apply_inr_ok {w : κ} {s u : σ × τ} :
    Writes.apply (.inr w : ω ⊕ κ) s = .ok u ↔ Writes.apply w s.2 = .ok u.2 ∧ u.1 = s.1 := by
  show (Writes.apply w s.2).map _ = _ ↔ _
  rw [Tx.map_eq_ok]
  constructor
  · rintro ⟨x, hx, rfl⟩
    exact ⟨hx, rfl⟩
  · rintro ⟨hx, hu⟩
    exact ⟨u.2, hx, Prod.ext hu.symm rfl⟩

end Apply

/-- The program runs over both stores. -/
def Tx.left : Tx σ ω ℓ ε α → Tx (σ × τ) (ω ⊕ κ) ℓ ε α
  | .done a => .done a
  | .raise e => .raise e
  | .lock l next => .lock l next.left
  | .lockFree pick next => .lockFree (fun s => pick s.1) fun ls => (next ls).left
  | .query next => .query fun s => (next s.1).left
  | .write w next => .write (.inl w) next.left

/-- The request runs over both stores. -/
def Request.left (r : Request σ ω ℓ ε α) : Request (σ × τ) (ω ⊕ κ) ℓ ε α where
  body := r.body.left
  handler e := (r.handler e).map Tx.left

/-- The locking of two stores with common locks. -/
def Locking.prod (K : Locking ω ℓ ρ) (write : κ → List (Hold ρ)) : Locking (ω ⊕ κ) ℓ ρ where
  lock := K.lock
  write := Sum.elim K.write write

/-- The writes to the first store. -/
def lefts (ws : List (ω ⊕ κ)) : List ω := ws.filterMap Sum.getLeft?

/-! ### Two disciplines -/

variable {t : Tx σ ω ℓ ε α} {r : Request σ ω ℓ ε α}

section Disciplines

variable [Writes σ ω ε] [Writes τ κ ε]

/-- The discipline of two stores: each write follows the rules of its own. Waiting is not
ruled. -/
def Discipline.prod (D : Discipline σ ω ρ) (E : Discipline τ κ ρ) :
    Discipline (σ × τ) (ω ⊕ κ) ρ where
  Inv s := D.Inv s.1 ∧ E.Inv s.2
  Frame L s s' := D.Frame L s.1 s'.1 ∧ E.Frame L s.2 s'.2
  Legal L s := Sum.elim (D.Legal L s.1) (E.Legal L s.2)
  Asks _ _ _ _ := True
  frame_refl L s := ⟨D.frame_refl L s.1, E.frame_refl L s.2⟩
  frame_trans h h' := ⟨D.frame_trans h.1 h'.1, E.frame_trans h.2 h'.2⟩
  frame_anti hsub h := ⟨D.frame_anti hsub h.1, E.frame_anti hsub h.2⟩
  legal_mono {L L' s w} hsub h := by
    cases w with
    | inl w => exact D.legal_mono hsub h
    | inr w => exact E.legal_mono hsub h
  legal_frame {L s s' w} h hframe := by
    cases w with
    | inl w => exact D.legal_frame h hframe.1
    | inr w => exact E.legal_frame h hframe.2
  apply_frame {L s s' w u} h hinv hinv' hframe happly := by
    cases w with
    | inl w =>
      obtain ⟨hw, hu⟩ := apply_inl_ok.mp happly
      obtain ⟨u', hw', hu'⟩ := D.apply_frame h hinv.1 hinv'.1 hframe.1 hw
      refine ⟨(u', s'.2), apply_inl_ok.mpr ⟨hw', rfl⟩, hu', ?_⟩
      rw [hu]
      exact hframe.2
    | inr w =>
      obtain ⟨hw, hu⟩ := apply_inr_ok.mp happly
      obtain ⟨u', hw', hu'⟩ := E.apply_frame h hinv.2 hinv'.2 hframe.2 hw
      refine ⟨(s'.1, u'), apply_inr_ok.mpr ⟨hw', rfl⟩, ?_, hu'⟩
      rw [hu]
      exact hframe.1
  legal_apart {L L' s w u} h hinv happly hapart := by
    cases w with
    | inl w =>
      obtain ⟨hw, hu⟩ := apply_inl_ok.mp happly
      refine ⟨D.legal_apart h hinv.1 hw hapart, ?_⟩
      rw [hu]
      exact E.frame_refl L' s.2
    | inr w =>
      obtain ⟨hw, hu⟩ := apply_inr_ok.mp happly
      refine ⟨?_, E.legal_apart h hinv.2 hw hapart⟩
      rw [hu]
      exact D.frame_refl L' s.1
  legal_inv {L s w u} h hinv happly := by
    cases w with
    | inl w =>
      obtain ⟨hw, hu⟩ := apply_inl_ok.mp happly
      exact ⟨D.legal_inv h hinv.1 hw, by rw [hu]; exact hinv.2⟩
    | inr w =>
      obtain ⟨hw, hu⟩ := apply_inr_ok.mp happly
      exact ⟨by rw [hu]; exact hinv.1, E.legal_inv h hinv.2 hw⟩

variable {K : Locking ω ℓ ρ} {D : Discipline σ ω ρ} {E : Discipline τ κ ρ}
  {write : κ → List (Hold ρ)} {Q : α → List (Hold ρ) → List ω → σ → Prop}

/-- **A program that obeys the first discipline obeys the product**, and writes to the first
store only. -/
theorem Obeys.left {L : List (Hold ρ)} {ws : List ω} {ws' : List (ω ⊕ κ)} {v : σ × τ}
    (hws : ws' = ws.map .inl) (h : Obeys K D Q t L ws v.1) :
    Obeys (K.prod write) (D.prod E)
      (fun a L ws' v => Q a L (lefts ws') v.1 ∧ ∃ ws : List ω, ws' = ws.map .inl)
      t.left L ws' v := by
  induction t generalizing L ws ws' v with
  | done a =>
    intro v' hframe
    have hlefts : lefts ws' = ws := by
      subst hws
      unfold lefts
      rw [List.filterMap_map]
      exact List.filterMap_some
    rw [hlefts]
    exact ⟨h v'.1 hframe.1, ws, hws⟩
  | raise e => trivial
  | lock l next ih => exact fun v' hframe => ⟨trivial, ih hws (h v'.1 hframe.1).2⟩
  | lockFree pick next ih =>
    exact fun v' hframe isFree locks hlocks => ih locks hws (h v'.1 hframe.1 isFree locks hlocks)
  | query next ih => exact fun v' hframe => ih v'.1 hws (h v'.1 hframe.1)
  | write w next ih =>
    refine fun v' hframe => ⟨fun _ _ => trivial, fun u hu => ?_⟩
    obtain ⟨hw, -⟩ := apply_inl_ok.mp hu
    obtain ⟨hlegal, hnext⟩ := (h v'.1 hframe.1).2 u.1 hw
    have hws' : ws' ++ [.inl w] = (ws ++ [w]).map .inl := by
      rw [hws, List.map_append]
      rfl
    exact ⟨hlegal, ih hws' hnext⟩

/-- The same for requests. -/
theorem Request.Obeys.left (h : r.Obeys K D Q) :
    r.left.Obeys (K.prod write) (D.prod E)
      (fun a L ws' v => Q a L (lefts ws') v.1 ∧ ∃ ws : List ω, ws' = ws.map .inl) where
  body v hv := Lib.Obeys.left rfl (h.body v.1 hv.1)
  handler e t ht v hv := by
    obtain ⟨t', ht', rfl⟩ := Option.map_eq_some_iff.mp ht
    exact Lib.Obeys.left rfl (h.handler e t' ht' v.1 hv.1)

end Disciplines

/-! ### More to rely on -/

section Supplements

variable [Writes σ ω ε]

/-- What is added to a discipline: an invariant, a frame, and a condition on write statements under
which they keep both. -/
structure Supplement (D : Discipline σ ω ρ) where
  Inv : σ → Prop
  Frame : List (Hold ρ) → σ → σ → Prop
  Admits : ω → Prop
  frame_refl : ∀ L s, Frame L s s
  frame_trans : ∀ {L s s' s''}, Frame L s s' → Frame L s' s'' → Frame L s s''
  frame_anti : ∀ {L L' s s'}, L ⊆ L' → Frame L' s s' → Frame L s s'
  apply_frame : ∀ {L s s' w u u'}, D.Legal L s w → Admits w → D.Frame L s s' → Frame L s s' →
    Writes.apply w s = .ok u → Writes.apply w s' = .ok u' → Frame L u u'
  legal_apart : ∀ {L L' s w u}, D.Legal L s w → Admits w → D.Inv s → Inv s →
    Writes.apply w s = .ok u → Apart L L' → Frame L' s u
  legal_inv : ∀ {L s w u}, D.Legal L s w → Admits w → Inv s → Writes.apply w s = .ok u → Inv u

/-- The discipline with the supplement. -/
def Discipline.supplement (D : Discipline σ ω ρ) (S : Supplement D) : Discipline σ ω ρ where
  Inv s := D.Inv s ∧ S.Inv s
  Frame L s s' := D.Frame L s s' ∧ S.Frame L s s'
  Legal L s w := D.Legal L s w ∧ S.Admits w
  Asks := D.Asks
  frame_refl L s := ⟨D.frame_refl L s, S.frame_refl L s⟩
  frame_trans h h' := ⟨D.frame_trans h.1 h'.1, S.frame_trans h.2 h'.2⟩
  frame_anti hsub h := ⟨D.frame_anti hsub h.1, S.frame_anti hsub h.2⟩
  legal_mono hsub h := ⟨D.legal_mono hsub h.1, h.2⟩
  legal_frame h hframe := ⟨D.legal_frame h.1 hframe.1, h.2⟩
  apply_frame h hinv hinv' hframe happly := by
    obtain ⟨u', happly', hu⟩ := D.apply_frame h.1 hinv.1 hinv'.1 hframe.1 happly
    exact ⟨u', happly', hu, S.apply_frame h.1 h.2 hframe.1 hframe.2 happly happly'⟩
  legal_apart h hinv happly hapart :=
    ⟨D.legal_apart h.1 hinv.1 happly hapart,
      S.legal_apart h.1 h.2 hinv.1 hinv.2 happly hapart⟩
  legal_inv h hinv happly := ⟨D.legal_inv h.1 hinv.1 happly, S.legal_inv h.1 h.2 hinv.2 happly⟩

variable {K : Locking ω ℓ ρ} {D : Discipline σ ω ρ} {S : Supplement D}
  {Q : α → List (Hold ρ) → List ω → σ → Prop}

/-- **A program that obeys and issues admitted writes only obeys the supplemented discipline.** -/
theorem Obeys.supplement {L : List (Hold ρ)} {ws : List ω} {v : σ} (h : Obeys K D Q t L ws v)
    (ht : t.OnlyWrites S.Admits) : Obeys K (D.supplement S) Q t L ws v := by
  induction t generalizing L ws v with
  | done a => exact fun v' hframe => h v' hframe.1
  | raise e => trivial
  | lock l next ih => exact fun v' hframe => ⟨(h v' hframe.1).1, ih (h v' hframe.1).2 ht⟩
  | lockFree pick next ih =>
    exact fun v' hframe isFree locks hlocks =>
      ih locks (h v' hframe.1 isFree locks hlocks) (ht locks)
  | query next ih => exact fun v' hframe => ih v' (h v' hframe.1) (ht v')
  | write w next ih =>
    refine fun v' hframe => ⟨(h v' hframe.1).1, fun u hu => ?_⟩
    obtain ⟨hlegal, hnext⟩ := (h v' hframe.1).2 u hu
    exact ⟨⟨hlegal, ht.1⟩, ih hnext ht.2⟩

/-- The same for requests. -/
theorem Request.Obeys.supplement (h : r.Obeys K D Q) (hr : r.OnlyWrites S.Admits) :
    r.Obeys K (D.supplement S) Q where
  body v hv := (h.body v hv.1).supplement hr.body
  handler e t ht v hv := (h.handler e t ht v hv.1).supplement (hr.handler e t ht)

end Supplements

end AgentRuntime.Lib
