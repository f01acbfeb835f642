import AgentRuntime.Lib.Discipline
import Mathlib.Data.List.Nodup
import Mathlib.Data.List.Pairwise

/-!
# What has been committed

Among interleaved transactions only the commits touch the state, and each of them once. So there is
an order of the committed sessions in which their writes, applied one after the other, lead from the
first state to the committed one; a transaction that raised or was cut off is not in it.

* `Config.outcome?`: what a session has committed;
* `step_commits`: a step of the machine commits at most one session;
* `CommitLog`, `exists_commitLog`: the order of the commits, after every run;
* `SessionStep`, `Stage.held_advance`: where a session and what it holds come from;
* `outcome_after`: what the postcondition of a committed transaction says of every later state;
* `Sound.store_step`, `commit_moment`: the step in which a transaction commits;
* `kept_after`: what every write of the programs keeps holds in every committed state.
-/

namespace AgentRuntime.Lib

variable {ι σ ω ℓ ε α ρ : Type}

/-! ### Outcomes -/

/-- What the transaction returned and wrote, once it has committed. -/
def Stage.outcome? : Stage σ ω ℓ ε α ρ → Option (α × List ω)
  | .committed a ws => some (a, ws)
  | _ => none

theorem Stage.outcome?_fail (handler : ε → Option (Tx σ ω ℓ ε α)) (e : ε) :
    (Stage.fail handler e : Stage σ ω ℓ ε α ρ).outcome? = none := by
  unfold Stage.fail
  split
  · rfl
  · rfl

variable {p : Stage σ ω ℓ ε α ρ} {a : α} {ws : List ω}

theorem Stage.outcome?_eq_some : p.outcome? = some (a, ws) ↔ p = .committed a ws := by
  cases p with
  | committed a' ws' => simp [Stage.outcome?]
  | _ => simp [Stage.outcome?]

/-- What the `n`-th session has committed: its kind, its result and its writes. -/
def Config.outcome? (c : Config ι σ ω ℓ ε α ρ) (n : ℕ) : Option (ι × α × List ω) :=
  c.sessions[n]?.bind fun x => x.stage.outcome?.map fun p => (x.tag, p)

/-- The writes that the `n`-th session has committed. -/
def Config.writes (c : Config ι σ ω ℓ ε α ρ) (n : ℕ) : List ω :=
  (c.outcome? n).elim [] fun p => p.2.2

variable {n : ℕ} {tag : ι}

variable {c : Config ι σ ω ℓ ε α ρ}

theorem Config.outcome?_eq_some :
    c.outcome? n = some (tag, a, ws) ↔ c.sessions[n]? = some ⟨tag, .committed a ws⟩ := by
  unfold Config.outcome?
  constructor
  · intro h
    obtain ⟨x, hx, hp⟩ := Option.bind_eq_some_iff.mp h
    obtain ⟨p, hp, heq⟩ := Option.map_eq_some_iff.mp hp
    cases heq
    rw [hx, ← Stage.outcome?_eq_some.mp hp]
  · intro h
    rw [h]
    rfl

/-! ### One step -/

section Step

variable [Writes σ ω ε]

/-- A statement leaves the state and the outcome of its session as they are, or it is the commit. -/
theorem advance_commits (K : Locking ω ℓ ρ) (free : Hold ρ → Bool) (s : σ)
    (p : Stage σ ω ℓ ε α ρ) :
    ((advance K free s p).1 = s ∧ (advance K free s p).2.outcome? = p.outcome?)
      ∨ ∃ a handler held ws, p = .running (.done a) handler held ws
        ∧ applyAll ws s = .ok (advance K free s p).1
        ∧ (advance K free s p).2 = .committed a ws := by
  cases p with
  | running prog handler held ws =>
    cases happly : applyAll ws s with
    | error e =>
      simp only [advance, happly]
      exact .inl ⟨trivial, Stage.outcome?_fail handler e⟩
    | ok v =>
      simp only [advance, happly]
      cases prog with
      | done a => exact .inr ⟨a, handler, held, ws, rfl, happly, rfl⟩
      | raise e => exact .inl ⟨rfl, Stage.outcome?_fail handler e⟩
      | lock l next =>
        dsimp only
        split
        · exact .inl ⟨rfl, rfl⟩
        · exact .inl ⟨rfl, rfl⟩
      | lockFree pick next => exact .inl ⟨rfl, rfl⟩
      | query next => exact .inl ⟨rfl, rfl⟩
      | write w next =>
        dsimp only
        split
        · split
          · exact .inl ⟨rfl, rfl⟩
          · rename_i e _
            exact .inl ⟨rfl, Stage.outcome?_fail handler e⟩
        · exact .inl ⟨rfl, rfl⟩
  | _ => exact .inl ⟨rfl, rfl⟩

end Step

/-- What a step does to the committed state: nothing, or the commit of one session. -/
inductive Commits [Writes σ ω ε] (c c' : Config ι σ ω ℓ ε α ρ) : Prop where
  | quiet (hstore : c'.store = c.store) (houtcome : ∀ n, c'.outcome? n = c.outcome? n)
  | commit {n : ℕ} {tag : ι} {a : α} {ws : List ω}
      {handler : ε → Option (Tx σ ω ℓ ε α)} {held : List (Hold ρ)}
      (hopen : c.sessions[n]? = some ⟨tag, .running (.done a) handler held ws⟩)
      (happly : applyAll ws c.store = .ok c'.store)
      (hnew : c'.outcome? n = some (tag, a, ws))
      (hold : ∀ m, m ≠ n → c'.outcome? m = c.outcome? m)

variable {x : Session ι σ ω ℓ ε α ρ}

theorem Config.outcome?_set {s : σ} (hx : c.sessions[n]? = some x) (p : Stage σ ω ℓ ε α ρ) (m : ℕ) :
    Config.outcome? ⟨s, c.sessions.set n ⟨x.tag, p⟩⟩ m
      = if m = n then p.outcome?.map fun q => (x.tag, q) else c.outcome? m := by
  have hlt := (List.getElem?_eq_some_iff.mp hx).1
  unfold Config.outcome?
  dsimp only
  rw [List.getElem?_set]
  by_cases h : n = m
  · rw [if_pos h, if_pos hlt, if_pos h.symm]
    rfl
  · rw [if_neg h, if_neg fun h' => h h'.symm]

variable {handler : ε → Option (Tx σ ω ℓ ε α)}

section Machine

variable [Writes σ ω ε] [DecidableEq ρ] {program : ι → Request σ ω ℓ ε α} {K : Locking ω ℓ ρ}
  {init : σ}

variable (program K init) in
/-- **One step** commits at most one session. -/
theorem step_commits (c : Config ι σ ω ℓ ε α ρ) (e : Event ι) :
    Commits c ((interleaving program K init).step c e).2 := by
  cases e with
  | start tag =>
    refine .quiet rfl fun n => ?_
    show (c.sessions ++ [_])[n]?.bind _ = _
    rw [List.getElem?_append]
    split
    · rfl
    · rename_i hlen
      rw [List.getElem?_singleton]
      have hnone : c.outcome? n = none := by
        unfold Config.outcome?
        rw [List.getElem?_eq_none (Nat.le_of_not_lt hlen)]
        rfl
      rw [hnone]
      split
      · rfl
      · rfl
  | step i =>
    cases hx : c.sessions[i]? with
    | none =>
      rw [interleaving_step_none hx]
      exact .quiet rfl fun _ => rfl
    | some x =>
      rw [interleaving_step_some hx]
      rcases advance_commits K (c.free i) c.store x.stage with ⟨hstore, hout⟩ | hcommit
      · refine .quiet hstore fun n => ?_
        rw [Config.outcome?_set hx]
        split
        · rename_i hn
          rw [hout, hn]
          unfold Config.outcome?
          rw [hx]
          rfl
        · rfl
      · obtain ⟨a, handler, held, ws, hp, happly, hnext⟩ := hcommit
        have hopen : c.sessions[i]? = some ⟨x.tag, .running (.done a) handler held ws⟩ := by
          rw [hx, ← hp]
        refine .commit hopen happly ?_ ?_
        · rw [Config.outcome?_set hx, if_pos rfl, hnext]
          rfl
        · intro m hm
          rw [Config.outcome?_set hx, if_neg hm]
  | abort i =>
    rcases interleaving_abort_cases program K init c i with
      hsame | ⟨tag, prog, handler, held, ws, hx, hset⟩
    · rw [hsame]
      exact .quiet rfl fun _ => rfl
    · rw [hset]
      refine .quiet rfl fun n => ?_
      rw [Config.outcome?_set hx]
      split
      · rename_i hn
        rw [hn]
        unfold Config.outcome?
        rw [hx]
        rfl
      · rfl

/-! ### The order of the commits -/

/-- The committed sessions in an order in which their writes lead to the committed state. -/
structure CommitLog (init : σ) (c : Config ι σ ω ℓ ε α ρ) (order : List ℕ) : Prop where
  nodup : order.Nodup
  mem : ∀ n, n ∈ order ↔ (c.outcome? n).isSome = true
  store : applyAll (order.flatMap c.writes) init = .ok c.store

omit [DecidableEq ρ] in
theorem Commits.log {c c' : Config ι σ ω ℓ ε α ρ} (h : Commits c c') {order : List ℕ}
    (hlog : CommitLog init c order) : ∃ order', CommitLog init c' order' := by
  have hwrites {m : ℕ} (hm : c'.outcome? m = c.outcome? m) : c'.writes m = c.writes m := by
    unfold Config.writes
    rw [hm]
  cases h with
  | quiet hstore houtcome =>
    refine ⟨order, hlog.nodup, fun n => ?_, ?_⟩
    · rw [houtcome]
      exact hlog.mem n
    · rw [hstore, show c'.writes = c.writes from funext fun n => hwrites (houtcome n)]
      exact hlog.store
  | @commit n tag a ws handler held hopen happly hnew hold =>
    have hnone : c.outcome? n = none := by
      unfold Config.outcome?
      rw [hopen]
      rfl
    have hnot : n ∉ order := by
      rw [hlog.mem, hnone]
      exact Bool.false_ne_true
    refine ⟨order ++ [n], ?_, fun m => ?_, ?_⟩
    · rw [← List.concat_eq_append]
      exact List.Nodup.concat hnot hlog.nodup
    · rw [List.mem_append, List.mem_singleton]
      by_cases hm : m = n
      · rw [hm, hnew]
        simp
      · rw [hold m hm, hlog.mem]
        simp [hm]
    · have hsame : order.flatMap c'.writes = order.flatMap c.writes :=
        List.flatMap_congr fun m hm => hwrites (hold m fun h => hnot (h ▸ hm))
      rw [List.flatMap_append, hsame]
      refine applyAll_append_ok.mpr ⟨c.store, hlog.store, ?_⟩
      rw [List.flatMap_singleton, show c'.writes n = ws by unfold Config.writes; rw [hnew]; rfl]
      exact happly

variable (program K init) in
/-- **Only commits count.** After every run the committed state is what the writes of the committed
sessions make of the first one, in some order. -/
theorem exists_commitLog (events : List (Event ι)) :
    ∃ order, CommitLog init ((interleaving program K init).after events) order := by
  induction events using List.reverseRecOn with
  | nil =>
    refine ⟨[], List.nodup_nil, fun n => ?_, rfl⟩
    simp [Config.outcome?, interleaving, Machine.after, Machine.afterFrom]
  | append_singleton events e ih =>
    obtain ⟨order, hlog⟩ := ih
    rw [Machine.after_concat]
    exact (step_commits program K init _ e).log hlog

/-! ### What the commits have added -/

section Added

variable {κ : Type} {f : σ → List κ} {g : ω → List κ}

omit [DecidableEq ρ] in
/-- What every write appends, all of them append in turn. -/
theorem applyAll_appends (hstep : ∀ w s s', Writes.apply w s = .ok s' → f s' = f s ++ g w)
    {s s' : σ} (h : applyAll ws s = .ok s') : f s' = f s ++ ws.flatMap g := by
  induction ws generalizing s with
  | nil =>
    cases h
    exact (List.append_nil _).symm
  | cons w ws ih =>
    obtain ⟨s1, hw, hws⟩ := applyAll_cons_ok.mp h
    rw [ih hws, hstep w s s1 hw, List.append_assoc, List.flatMap_cons]

variable {c : Config ι σ ω ℓ ε α ρ} {order : List ℕ}

omit [DecidableEq ρ] in
theorem CommitLog.mem_of_write (hlog : CommitLog init c order) {w : ω} (h : w ∈ c.writes n) :
    n ∈ order := by
  rw [hlog.mem]
  cases hn : c.outcome? n with
  | some p => rfl
  | none =>
    unfold Config.writes at h
    rw [hn] at h
    cases h

omit [DecidableEq ρ] in
/-- **At most once.** If all that the commits add is pairwise different, then what is not different
was added by one session, and once. -/
theorem CommitLog.eq_of_not (hlog : CommitLog init c order) {R : κ → κ → Prop}
    (hsymm : ∀ a b, R a b → R b a)
    (hpair : ((order.flatMap c.writes).flatMap g).Pairwise R) {n n' : ℕ} {a a' : κ}
    (ha : a ∈ (c.writes n).flatMap g) (ha' : a' ∈ (c.writes n').flatMap g) (hnot : ¬ R a a') :
    n = n' ∧ a = a' := by
  have hmem {m : ℕ} {b : κ} (hb : b ∈ (c.writes m).flatMap g) : m ∈ order := by
    obtain ⟨w, hw, -⟩ := List.mem_flatMap.mp hb
    exact hlog.mem_of_write hw
  rw [List.flatMap_assoc, List.pairwise_flatMap] at hpair
  obtain ⟨hinside, hacross⟩ := hpair
  have hn : n = n' := by
    by_contra hne
    have : Std.Symm fun m m' => ∀ b ∈ (c.writes m).flatMap g, ∀ b' ∈ (c.writes m').flatMap g,
        R b b' := ⟨fun m m' h b hb b' hb' => hsymm _ _ (h b' hb' b hb)⟩
    exact hnot (hacross.forall (hmem ha) (hmem ha') hne a ha a' ha')
  refine ⟨hn, ?_⟩
  cases hn
  by_contra hne
  have : Std.Symm R := ⟨hsymm⟩
  exact hnot ((hinside n (hmem ha)).forall ha ha' hne)

end Added

/-! ### Where a session comes from -/

omit [Writes σ ω ε] [DecidableEq ρ] in
/-- The next statement takes locks that the program names. -/
def Stage.Locks : Stage σ ω ℓ ε α ρ → Prop
  | .running (.lock _ _) _ _ _ => True
  | .running (.lockFree _ _) _ _ _ => True
  | _ => False

omit [DecidableEq ρ] in
/-- What a session holds it held before, or it has just locked it, or a write has taken it. -/
theorem Stage.held_advance {free : Hold ρ → Bool} {s : σ} {h : Hold ρ}
    (hh : h ∈ (advance K free s p).2.held) : h ∈ p.held ∨ p.Locks ∨ ∃ w, h ∈ K.write w := by
  cases p with
  | running prog handler held ws =>
    cases happly : applyAll ws s with
    | error e =>
      simp only [advance, happly, Stage.held_fail] at hh
      cases hh
    | ok v =>
      simp only [advance, happly] at hh
      cases prog with
      | done a => cases hh
      | raise e =>
        rw [Stage.held_fail] at hh
        cases hh
      | lock l next => exact .inr (.inl trivial)
      | lockFree pick next => exact .inr (.inl trivial)
      | query next => exact .inl hh
      | write w next =>
        dsimp only at hh
        split at hh
        · split at hh
          · rcases List.mem_append.mp hh with hw | hold
            · exact .inr (.inr ⟨w, hw⟩)
            · exact .inl hold
          · rw [Stage.held_fail] at hh
            cases hh
        · exact .inl hh
  | _ => exact .inl hh

variable (program K) in
/-- What the `n`-th session is after the event `e`. -/
inductive SessionStep (c : Config ι σ ω ℓ ε α ρ) (e : Event ι) (n : ℕ) :
    Session ι σ ω ℓ ε α ρ → Prop where
  | same {x : Session ι σ ω ℓ ε α ρ} (hx : c.sessions[n]? = some x) : SessionStep c e n x
  | moved {x : Session ι σ ω ℓ ε α ρ} (he : e = .step n) (hx : c.sessions[n]? = some x) :
      SessionStep c e n ⟨x.tag, (advance K (c.free n) c.store x.stage).2⟩
  | cut {tag : ι} {p : Stage σ ω ℓ ε α ρ} (hx : c.sessions[n]? = some ⟨tag, p⟩) :
      SessionStep c e n ⟨tag, .aborted⟩
  | fresh {tag : ι} (he : e = .start tag) (hn : n = c.sessions.length) :
      SessionStep c e n ⟨tag, .running (program tag).body (program tag).handler [] []⟩

variable {e : Event ι}

theorem session_of_step (hx : ((interleaving program K init).step c e).2.sessions[n]? = some x) :
    SessionStep program K c e n x := by
  cases e with
  | start tag =>
    rcases getElem?_concat_cases hx with hold | ⟨hn, rfl⟩
    · exact .same hold
    · exact .fresh rfl hn
  | step i =>
    cases hi : c.sessions[i]? with
    | none =>
      rw [interleaving_step_none hi] at hx
      exact .same hx
    | some y =>
      rw [interleaving_step_some hi] at hx
      rcases getElem?_set_cases hi hx with ⟨rfl, rfl⟩ | ⟨-, hold⟩
      · exact .moved rfl hi
      · exact .same hold
  | abort i =>
    rcases interleaving_abort_cases program K init c i with
      hsame | ⟨tag, prog, handler, held, ws, hi, hset⟩
    · rw [hsame] at hx
      exact .same hx
    · rw [hset] at hx
      rcases getElem?_set_cases hi hx with ⟨rfl, rfl⟩ | ⟨-, hold⟩
      · exact .cut hi
      · exact .same hold

variable (program K init) in
/-- A session stays what it is, wherever it gets to. -/
theorem session_persists (e : Event ι) (hx : c.sessions[n]? = some ⟨tag, p⟩) :
    ∃ p', ((interleaving program K init).step c e).2.sessions[n]? = some ⟨tag, p'⟩ := by
  have hlt := (List.getElem?_eq_some_iff.mp hx).1
  have hset (i : ℕ) (s : σ) {y : Session ι σ ω ℓ ε α ρ} (hy : c.sessions[i]? = some y)
      (q : Stage σ ω ℓ ε α ρ) :
      ∃ p', (Config.mk s (c.sessions.set i ⟨y.tag, q⟩)).sessions[n]? = some ⟨tag, p'⟩ := by
    show ∃ p', (c.sessions.set i ⟨y.tag, q⟩)[n]? = some ⟨tag, p'⟩
    rw [List.getElem?_set]
    by_cases hi : i = n
    · rw [hi, hx] at hy
      cases hy
      rw [if_pos hi, if_pos (hi ▸ hlt)]
      exact ⟨q, rfl⟩
    · rw [if_neg hi]
      exact ⟨p, hx⟩
  cases e with
  | start tag' => exact ⟨p, (List.getElem?_append_left hlt).trans hx⟩
  | step i =>
    cases hi : c.sessions[i]? with
    | none =>
      rw [interleaving_step_none hi]
      exact ⟨p, hx⟩
    | some y =>
      rw [interleaving_step_some hi]
      exact hset i _ hi _
  | abort i =>
    rcases interleaving_abort_cases program K init c i with
      hsame | ⟨tag', prog, handler, held, ws, hi, hcut⟩
    · rw [hsame]
      exact ⟨p, hx⟩
    · rw [hcut]
      exact hset i _ hi _

variable {o : ι × α × List ω}

variable (program K init) in
/-- What has been committed stays committed. -/
theorem outcome_persists (e : Event ι) (h : c.outcome? n = some o) :
    ((interleaving program K init).step c e).2.outcome? n = some o := by
  cases step_commits program K init c e with
  | quiet _ houtcome => exact (houtcome n).trans h
  | @commit m tag a ws handler held hopen _ _ hold =>
    refine (hold n ?_).trans h
    rintro rfl
    unfold Config.outcome? at h
    rw [hopen] at h
    cases h

/-- A session has an outcome only once it has moved on itself. -/
theorem step_of_outcome (hnone : c.outcome? n = none)
    (hsome : ((interleaving program K init).step c e).2.outcome? n = some o) : e = .step n := by
  obtain ⟨tag, a, ws⟩ := o
  have hx := Config.outcome?_eq_some.mp hsome
  generalize hy : (⟨tag, .committed a ws⟩ : Session ι σ ω ℓ ε α ρ) = y at hx
  cases session_of_step hx with
  | same hold =>
    rw [← hy] at hold
    rw [Config.outcome?_eq_some.mpr hold] at hnone
    cases hnone
  | moved he _ => exact he
  | cut _ => cases hy
  | fresh _ _ => cases hy

variable (program K init) in
/-- Every session was started. -/
theorem started_of_session (events : List (Event ι)) :
    ∀ (n : ℕ) (x : Session ι σ ω ℓ ε α ρ),
      ((interleaving program K init).after events).sessions[n]? = some x →
        .start x.tag ∈ events := by
  induction events using List.reverseRecOn with
  | nil =>
    intro n x hx
    simp [interleaving, Machine.after, Machine.afterFrom] at hx
  | append_singleton events e ih =>
    intro n x hx
    rw [Machine.after_concat] at hx
    rw [List.mem_append, List.mem_singleton]
    cases session_of_step hx with
    | same hold => exact .inl (ih n x hold)
    | @moved y _ hold => exact .inl (ih n y hold)
    | @cut tag p hold => exact .inl (ih n ⟨tag, p⟩ hold)
    | fresh he _ => exact .inr he.symm

/-! ### What stays true of a commit -/

section Outcomes

variable {D : Discipline σ ω ρ} {Q : ι → α → List (Hold ρ) → List ω → σ → Prop} {P : ι → Prop}

omit [DecidableEq ρ] in
/-- The transaction that commits has written legally and leaves its postcondition. -/
theorem Sound.of_open (h : Sound K D Q c) {held : List (Hold ρ)} {s' : σ}
    (hopen : c.sessions[n]? = some ⟨tag, .running (.done a) handler held ws⟩)
    (happly : applyAll ws c.store = .ok s') : Replay D held ws c.store s' ∧ Q tag a held ws s' := by
  obtain ⟨⟨v, hreplay, hobeys⟩, -⟩ := h.sessions hopen
  have hv : v = s' := Except.ok.inj (hreplay.applyAll.symm.trans happly)
  exact ⟨hv ▸ hreplay, hv ▸ hobeys v (D.frame_refl _ _)⟩

variable (program init) in
/-- **One step** leaves the state as it is, or is the commit of a transaction that obeys. -/
theorem Sound.store_step (h : Sound K D Q c) (e : Event ι) :
    ((interleaving program K init).step c e).2.store = c.store
      ∨ ∃ tag a held ws,
        Replay D held ws c.store ((interleaving program K init).step c e).2.store
          ∧ Q tag a held ws ((interleaving program K init).step c e).2.store := by
  cases step_commits program K init c e with
  | quiet hstore _ => exact .inl hstore
  | @commit n tag a ws handler held hopen happly _ _ =>
    exact .inr ⟨tag, a, held, ws, h.of_open hopen happly⟩

variable (program init) in
/-- A step leaves alone what everybody relies on. -/
theorem Sound.frame_step (h : Sound K D Q c) (e : Event ι) :
    D.Frame [] c.store ((interleaving program K init).step c e).2.store := by
  rcases h.store_step program init e with hsame | ⟨_, _, held, ws, hreplay, -⟩
  · rw [hsame]
    exact D.frame_refl _ _
  · exact hreplay.apart h.inv (apart_nil _).symm

/-- The step in which a session commits. -/
theorem Sound.commit_step (h : Sound K D Q c) (hnone : c.outcome? n = none)
    (hsome : ((interleaving program K init).step c e).2.outcome? n = some (tag, a, ws)) :
    ∃ held, Replay D held ws c.store ((interleaving program K init).step c e).2.store
      ∧ Q tag a held ws ((interleaving program K init).step c e).2.store := by
  cases step_commits program K init c e with
  | quiet _ houtcome =>
    rw [houtcome, hnone] at hsome
    cases hsome
  | @commit m tag' a' ws' handler held hopen happly hnew hold =>
    by_cases hn : n = m
    · rw [hn, hnew] at hsome
      cases hsome
      exact ⟨held, h.of_open hopen happly⟩
    · rw [hold n hn, hnone] at hsome
      cases hsome

/-- **Outcomes.** What the postcondition of a transaction says when it commits, and what the others
cannot undo, holds of its outcome after every run. -/
theorem outcome_after (hprogram : Verified K D program P Q) (hinit : D.Inv init)
    {R : ι → α → List ω → σ → Prop}
    (hpost : ∀ tag a L ws s v, applyAll ws s = .ok v → Q tag a L ws v → R tag a ws v)
    (hstable : ∀ tag a ws s s', D.Frame [] s s' → R tag a ws s → R tag a ws s')
    (events : List (Event ι)) (hstart : ∀ tag, .start tag ∈ events → P tag) :
    ∀ n tag a ws, ((interleaving program K init).after events).outcome? n = some (tag, a, ws) →
      R tag a ws ((interleaving program K init).after events).store := by
  induction events using List.reverseRecOn with
  | nil =>
    intro n tag a ws h
    simp [Config.outcome?, interleaving, Machine.after, Machine.afterFrom] at h
  | append_singleton events e ih =>
    have hbefore : ∀ tag, .start tag ∈ events → P tag := fun tag ht =>
      hstart tag (List.mem_append_left _ ht)
    have hsound := sound_after hprogram hinit events hbefore
    intro n tag a ws h
    rw [Machine.after_concat] at h ⊢
    have hframe := hsound.frame_step program init e
    cases hold : ((interleaving program K init).after events).outcome? n with
    | some o =>
      rw [outcome_persists program K init e hold] at h
      exact hstable _ _ _ _ _ hframe (ih hbefore n tag a ws (hold.trans h))
    | none =>
      obtain ⟨held, hreplay, hq⟩ := hsound.commit_step hold h
      exact hpost _ _ _ _ _ _ hreplay.applyAll hq

/-- **The moment of a commit.** A session that has committed did so in some step of the run, which
applied its writes and left the state as its postcondition says. -/
theorem commit_moment (hprogram : Verified K D program P Q) (hinit : D.Inv init)
    (events : List (Event ι)) (hstart : ∀ tag, .start tag ∈ events → P tag)
    (h : ((interleaving program K init).after events).outcome? n = some (tag, a, ws)) :
    ∃ past e later held, events = past ++ e :: later
      ∧ applyAll ws ((interleaving program K init).after past).store
        = .ok ((interleaving program K init).after (past ++ [e])).store
      ∧ Q tag a held ws ((interleaving program K init).after (past ++ [e])).store := by
  induction events using List.reverseRecOn with
  | nil => simp [Config.outcome?, interleaving, Machine.after, Machine.afterFrom] at h
  | append_singleton events e ih =>
    have hbefore : ∀ tag, .start tag ∈ events → P tag := fun tag ht =>
      hstart tag (List.mem_append_left _ ht)
    have hafter := Machine.after_concat (interleaving program K init) events e
    rw [hafter] at h
    cases hold : ((interleaving program K init).after events).outcome? n with
    | some o =>
      rw [outcome_persists program K init e hold] at h
      obtain ⟨past, e', later, held, rfl, happly, hpost⟩ := ih hbefore (hold.trans h)
      exact ⟨past, e', later ++ [e], held, by simp, happly, hpost⟩
    | none =>
      obtain ⟨held, hreplay, hpost⟩ :=
        (sound_after hprogram hinit events hbefore).commit_step hold h
      refine ⟨events, e, [], held, rfl, ?_, ?_⟩
      · rw [hafter]
        exact hreplay.applyAll
      · rw [hafter]
        exact hpost

end Outcomes

end Machine

/-! ### What every write keeps -/

section Kept

variable [Writes σ ω ε] {W : ω → Prop} {P : σ → Prop} {K : Locking ω ℓ ρ}

/-- What the request has written and may still write satisfies `W`. -/
def Stage.OnlyWrites (W : ω → Prop) : Stage σ ω ℓ ε α ρ → Prop
  | .running prog handler _ ws =>
    prog.OnlyWrites W ∧ (∀ e t, handler e = some t → t.OnlyWrites W) ∧ ∀ w ∈ ws, W w
  | .committed _ ws => ∀ w ∈ ws, W w
  | _ => True

omit [Writes σ ω ε] in
theorem Stage.onlyWrites_fail (h : ∀ e t, handler e = some t → t.OnlyWrites W) (e : ε) :
    (Stage.fail handler e : Stage σ ω ℓ ε α ρ).OnlyWrites W := by
  unfold Stage.fail
  split
  · rename_i t ht
    exact ⟨h e t ht, fun _ _ hnone => absurd hnone (by simp), by simp⟩
  · trivial

theorem Stage.OnlyWrites.advance (h : p.OnlyWrites W) (free : Hold ρ → Bool) (s : σ) :
    (Lib.advance K free s p).2.OnlyWrites W := by
  cases p with
  | committed a ws => exact h
  | failed e => trivial
  | aborted => trivial
  | running prog handler held ws =>
    obtain ⟨hprog, hhandler, hws⟩ := h
    cases happly : applyAll ws s with
    | error e =>
      simp only [Lib.advance, happly]
      exact Stage.onlyWrites_fail hhandler e
    | ok v =>
      simp only [Lib.advance, happly]
      cases prog with
      | done a => exact hws
      | raise e => exact Stage.onlyWrites_fail hhandler e
      | lock l next =>
        dsimp only
        split
        · exact ⟨hprog, hhandler, hws⟩
        · exact ⟨hprog, hhandler, hws⟩
      | lockFree pick next => exact ⟨hprog _, hhandler, hws⟩
      | query next => exact ⟨hprog v, hhandler, hws⟩
      | write w next =>
        dsimp only
        split
        · split
          · refine ⟨hprog.2, hhandler, fun w' hw' => ?_⟩
            rcases List.mem_append.mp hw' with hold | hnew
            · exact hws w' hold
            · rw [List.mem_singleton.mp hnew]
              exact hprog.1
          · rename_i e _
            exact Stage.onlyWrites_fail hhandler e
        · exact ⟨hprog, hhandler, hws⟩

/-- What every write keeps, a list of writes keeps. -/
theorem applyAll_keeps (hkeep : ∀ w s s', W w → Writes.apply w s = .ok s' → P s → P s')
    (hws : ∀ w ∈ ws, W w) {s s' : σ} (h : applyAll ws s = .ok s') (hs : P s) : P s' := by
  induction ws generalizing s with
  | nil =>
    cases h
    exact hs
  | cons w ws ih =>
    obtain ⟨s1, happly, hrest⟩ := applyAll_cons_ok.mp h
    exact ih (fun w' hw' => hws w' (List.mem_cons_of_mem _ hw')) hrest
      (hkeep w s s1 (hws w List.mem_cons_self) happly hs)

variable [DecidableEq ρ] {program : ι → Request σ ω ℓ ε α} {init : σ} {O : ι → Prop}

/-- **What every write keeps** holds in every committed state, in whatever order the statements of
the requests run. -/
theorem kept_after (hprogram : ∀ tag, O tag → (program tag).OnlyWrites W)
    (hkeep : ∀ w s s', W w → Writes.apply w s = .ok s' → P s → P s') (hinit : P init)
    (events : List (Event ι)) (hstart : ∀ tag, .start tag ∈ events → O tag) :
    P ((interleaving program K init).after events).store := by
  suffices hall : P ((interleaving program K init).after events).store
      ∧ ∀ (n : ℕ) (x : Session ι σ ω ℓ ε α ρ),
        ((interleaving program K init).after events).sessions[n]? = some x →
          x.stage.OnlyWrites W from hall.1
  induction events using List.reverseRecOn with
  | nil =>
    refine ⟨hinit, fun n x hx => ?_⟩
    simp [interleaving, Machine.after, Machine.afterFrom] at hx
  | append_singleton events e ih =>
    obtain ⟨hstore, hsessions⟩ := ih fun tag ht => hstart tag (List.mem_append_left _ ht)
    rw [Machine.after_concat]
    constructor
    · cases step_commits program K init ((interleaving program K init).after events) e with
      | quiet hquiet _ =>
        rw [hquiet]
        exact hstore
      | commit hopen happly _ _ =>
        exact applyAll_keeps hkeep (hsessions _ _ hopen).2.2 happly hstore
    · intro n x hx
      cases session_of_step hx with
      | same hold => exact hsessions n x hold
      | moved _ hold => exact (hsessions n _ hold).advance _ _
      | cut _ => trivial
      | @fresh tag he _ =>
        have honly := hprogram tag (hstart tag (by simp [he]))
        exact ⟨honly.body, honly.handler, by simp⟩

end Kept

end AgentRuntime.Lib
