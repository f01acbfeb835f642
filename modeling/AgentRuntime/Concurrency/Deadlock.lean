import AgentRuntime.Concurrency.QuotaBounds
import AgentRuntime.Lib.Deadlock
import Mathlib.Data.Sum.Order

/-!
# Deadlocks

Which circles of waiting transactions there can be. The locks of the scopes are taken in the order of
their texts and before any row; a run row is waited for before other rows are held; the attempt that a
completion names is waited for with the run row alone; and only the source of an evaluation is waited
for with all kinds of rows held. So a transaction that is waited for stands further up than the one
that waits, except where both wait for a source. Then the one that is waited for holds a source and
waits for another one, and only a recovery, which ends the jobs of several sources in one transaction,
ever does so.

* `rowLocking`: the locks of the statements, without the entries of the unique indexes;
* `NewRows`, `Inserts`: who inserts a row holds its index entry, so nobody else sees the row;
* `Situation`, `Stands`: where a transaction stands that waits for one that waits;
* `Mixed`: a transaction that holds evaluations of two sources;
* `waits_acyclic`: no circle of waits while at most one transaction is mixed;
* `recoveries_deadlock`: two recoveries that wait for each other.
-/

namespace AgentRuntime.Concurrency

open Lib Table Domain Application Database Lifecycle

/-- Advisory locks and row locks; a statement also waits for the entries of unique indexes. -/
def rowLocking : Locking Write Lock Resource :=
  ⟨.lock, fun w => (touched w).map fun h => (.lock h.1, h.2)⟩

/-- The locks a statement asks for are among what it asks for. -/
theorem asks_rowLocking {p : Stage Store Write Lock PyError Answer Resource} {a : Hold Resource}
    (h : a ∈ p.asks rowLocking) : a ∈ p.asks locking ∧ ∃ l, a.1 = .lock l := by
  unfold Stage.asks at h ⊢
  split at h
  · rw [List.mem_singleton.mp h]
    exact ⟨List.mem_singleton_self _, _, rfl⟩
  · obtain ⟨b, hb, rfl⟩ := List.mem_map.mp h
    exact ⟨List.mem_append_right _ (List.mem_map_of_mem hb), b.1, rfl⟩
  · exact absurd h (by simp)

variable {limits : Option QuotaLimits} {L L' : List (Hold Resource)} {ws ws' : List Write}
  {s u v v' : Store} {w : Write}

/-! ### Rows a transaction has inserted -/

/-- The index entry is held. -/
abbrev EntryHeld (L : List (Hold Resource)) (k : UniqueKey) : Prop := (.key k, .exclusive) ∈ L

section NewRows

variable {α κ : Type} [Row α κ] [DecidableEq κ] {entry : κ → UniqueKey} {t t' t'' u u' : Table α}

/-- The index entries of the rows that are new are held. -/
def NewRows (entry : κ → UniqueKey) (L : List (Hold Resource)) (t t' : Table α) : Prop :=
  ∀ k a, t'.get? k = some a → t.get? k = none → EntryHeld L (entry k)

theorem NewRows.refl : NewRows entry L t t := by
  intro k a ha hnone
  rw [ha] at hnone
  exact absurd hnone (by simp)

theorem NewRows.trans (h : NewRows entry L t t') (h' : NewRows entry L t' t'') :
    NewRows entry L t t'' := by
  intro k a ha hnone
  cases hmid : t'.get? k with
  | none => exact h' k a ha hmid
  | some b => exact h k b hmid hnone

theorem newRows_insert {a : α} (hins : t.insert? a = some u) (hheld : EntryHeld L (entry (Row.id a))) :
    NewRows entry L t u := by
  intro k b hb hnone
  rw [get?_insert hins] at hb
  split at hb
  · rename_i hk
    exact hk ▸ hheld
  · rw [hb] at hnone
    exact absurd hnone (by simp)

theorem newRows_update (k : κ) {f : α → α} (hf : Row.Keeps f) :
    NewRows entry L t (t.update k f hf) := by
  intro k' b hb hnone
  rw [get?_update, hnone] at hb
  split at hb <;> exact absurd hb (by simp)

/-- A row that two transactions see is committed: nobody sees what the other one has inserted. -/
theorem NewRows.common (h : NewRows entry L t u) (h' : NewRows entry L' t u') (hapart : Apart L L')
    {k : κ} {a a' : α} (ha : u.get? k = some a) (ha' : u'.get? k = some a') :
    ∃ b, t.get? k = some b := by
  cases hk : t.get? k with
  | none => exact absurd (h' k a' ha' hk) (hapart.not_mem (h k a ha hk))
  | some b => exact ⟨b, rfl⟩

/-- They agree on what nobody changes. -/
theorem NewRows.agree {β : Type} {f : α → β} (h : NewRows entry L t u) (h' : NewRows entry L' t u')
    (hapart : Apart L L') (hkeep : t.Stays (fun _ a b => f b = f a) u)
    (hkeep' : t.Stays (fun _ a b => f b = f a) u') {k : κ} {a a' : α} (ha : u.get? k = some a)
    (ha' : u'.get? k = some a') : f a' = f a := by
  obtain ⟨b, hb⟩ := h.common h' hapart ha ha'
  obtain ⟨a1, ha1, heq⟩ := hkeep _ _ hb
  obtain ⟨a2, ha2, heq'⟩ := hkeep' _ _ hb
  rw [ha] at ha1
  rw [ha'] at ha2
  rw [Option.some.inj ha1, Option.some.inj ha2, heq, heq']

end NewRows

/-- The runs, attempts and evaluations that are new. -/
structure Inserts (L : List (Hold Resource)) (s s' : Store) : Prop where
  runs : NewRows UniqueKey.run L s.runs s'.runs
  attempts : NewRows UniqueKey.attempt L s.attempts s'.attempts
  evaluations : NewRows UniqueKey.evaluation L s.evaluations s'.evaluations

theorem Inserts.refl (L : List (Hold Resource)) (s : Store) : Inserts L s s := ⟨.refl, .refl, .refl⟩

theorem Inserts.trans {s' s'' : Store} (h : Inserts L s s') (h' : Inserts L s' s'') :
    Inserts L s s'' :=
  ⟨h.runs.trans h'.runs, h.attempts.trans h'.attempts, h.evaluations.trans h'.evaluations⟩

/-- A legal insertion holds the entry of its row. -/
theorem Legal.inserts (h : Legal limits L s w) (happly : Writes.apply w s = .ok u) :
    Inserts L s u := by
  have hrefl := Inserts.refl L s
  cases applied happly with
  | insertRun r hins =>
    exact { hrefl with runs := newRows_insert hins (h.keys List.mem_cons_self) }
  | updateRun id sets =>
    exact { hrefl with runs := newRows_update id (assignAll_keeps RunSet.ident_assign sets) }
  | insertAttempt a hins =>
    exact { hrefl with attempts := newRows_insert hins (h List.mem_cons_self) }
  | updateAttempt id sets =>
    exact { hrefl with attempts := newRows_update id (assignAll_keeps AttemptSet.ident_assign sets) }
  | insertEvaluation e hins =>
    exact { hrefl with evaluations := newRows_insert hins (h.1 List.mem_cons_self) }
  | updateEvaluation id sets =>
    exact { hrefl with
      evaluations := newRows_update id (assignAll_keeps EvaluationSet.ident_assign sets) }
  | _ => exact { hrefl with }

variable {id : Uuid}

/-- A run that has ended has ended after every legal write. -/
theorem Legal.ended (h : Legal limits L s w) (happly : Writes.apply w s = .ok u)
    (hended : Ended s id) : Ended u id := by
  rcases (apply_change happly).runs with hsame | ⟨r, rfl, hins⟩ | ⟨id', sets, rfl, hruns⟩
  · exact hended.imp fun r hr => ⟨hsame ▸ hr.1, hr.2⟩
  · exact (ended_insert hins hended).imp fun _ hr => hr
  · obtain ⟨r, hr⟩ := h
    refine (ended_update hr hended).imp fun _ hq => ⟨?_, hq.2⟩
    rw [hruns]
    exact hq.1

variable {r : Run}

/-- A run that is not held does not change. -/
theorem Legal.unheld (h : Legal limits L s w) (happly : Writes.apply w s = .ok u)
    (hfree : ¬ RunHeld L id) (hr : s.runs.get? id = some r) : u.runs.get? id = some r := by
  rcases (apply_change happly).runs with hsame | ⟨q, rfl, hins⟩ | ⟨id', sets, rfl, hruns⟩
  · rw [hsame]
    exact hr
  · have hr' := get?_insert_of_some hins hr
    exact hr'
  · obtain ⟨q, hq⟩ := h
    have hne : id ≠ id' := by
      rintro rfl
      exact hfree hq.held
    rw [hruns, get?_update, if_neg hne]
    exact hr

section Replays

variable (hreplay : Replay (storeDiscipline limits) L ws s v)
include hreplay

theorem replay_grows : Grows s v := hreplay.relates Grows.refl Grows.trans fun _ => apply_grows

theorem replay_inserts : Inserts L s v :=
  hreplay.relates (Inserts.refl L) Inserts.trans fun hlegal => Legal.inserts hlegal

theorem replay_ended (hended : Ended s id) : Ended v id :=
  hreplay.relates (R := fun s s' => Ended s id → Ended s' id) (fun _ h => h)
    (fun h h' hended => h' (h hended)) (fun hlegal happly h => Legal.ended hlegal happly h) hended

theorem replay_unheld (hfree : ¬ RunHeld L id) (hr : s.runs.get? id = some r) :
    v.runs.get? id = some r := by
  refine hreplay.relates (R := fun s s' => s.runs.get? id = some r → s'.runs.get? id = some r)
    ?_ ?_ ?_ hr
  · exact fun _ h => h
  · exact fun h h' hr => h' (h hr)
  · exact fun hlegal happly hr => Legal.unheld hlegal happly hfree hr

/-- A run that has ended is not one that the transaction settles. -/
theorem replay_not_main (hended : Ended s id) : ¬ Main ws v id := by
  rintro (⟨r, hr, hlive⟩ | ⟨sets, hmem, hsets⟩)
  · obtain ⟨q, hq, hterminal⟩ := replay_ended hreplay hended
    rw [hr] at hq
    cases hq
    rw [hlive] at hterminal
    exact absurd hterminal (by simp)
  · obtain ⟨ws', s1, s2, hbefore, ⟨r, hr⟩, -⟩ := hreplay.of_mem hmem
    obtain ⟨q, hq, hterminal⟩ := replay_ended hbefore hended
    rw [hr.stored] at hq
    cases hq
    rw [hr.live hsets] at hterminal
    exact absurd hterminal (by simp)

theorem replay_insertedRun (hmem : .insertRun r ∈ ws) :
    s.runs.get? r.id = none ∧ EntryHeld L (.run r.id) := by
  obtain ⟨ws', s1, s2, hbefore, hlegal, happly⟩ := hreplay.of_mem hmem
  obtain ⟨t, hins, -⟩ := apply_insertRun happly
  exact ⟨(replay_grows hbefore).runs.get?_none (get?_insert_fresh hins),
    hlegal.keys List.mem_cons_self⟩

theorem replay_insertedAttempt {a : RunAttempt} (hmem : .insertAttempt a ∈ ws) :
    s.attempts.get? a.id = none ∧ EntryHeld L (.attempt a.id) := by
  obtain ⟨ws', s1, s2, hbefore, hlegal, happly⟩ := hreplay.of_mem hmem
  obtain ⟨t, hins, -⟩ := apply_insertAttempt happly
  exact ⟨(replay_grows hbefore).attempts.get?_none (get?_insert_fresh hins),
    hlegal List.mem_cons_self⟩

end Replays

/-! ### Transactions that wait -/

variable {c : Config Input Store Write Lock PyError Answer Resource} {i j k : ℕ} {l l' : Lock}
  {m m' : Mode}

/-- The `i`-th session is open, holds `L`, has written `ws` and sees `v`. -/
structure Sees (c : Config Input Store Write Lock PyError Answer Resource) (i : ℕ)
    (L : List (Hold Resource)) (ws : List Write) (v : Store) : Prop where
  session : ∃ tag prog handler, c.sessions[i]? = some ⟨tag, .running prog handler L ws⟩
  replay : Replay (storeDiscipline none) L ws c.store v

/-- Such a session asks for a lock that the `j`-th one holds. -/
structure Blocked (c : Config Input Store Write Lock PyError Answer Resource) (i j : ℕ)
    (L : List (Hold Resource)) (ws : List Write) (v : Store) (l : Lock) (m : Mode) : Prop where
  sees : Sees c i L ws v
  asks : Asks L ws v (.lock l, m)
  other : i ≠ j
  holder : ∃ y m', c.sessions[j]? = some y ∧ (.lock l, m') ∈ y.stage.held
    ∧ Conflicts ((.lock l : Resource), m) (.lock l, m')

theorem Blocked.held (h : Blocked c i j L ws v l m) (hj : Sees c j L' ws' v') :
    ∃ m', (.lock l, m') ∈ L' ∧ Conflicts ((.lock l : Resource), m) (.lock l, m') := by
  obtain ⟨y, m', hy, hheld, hconflict⟩ := h.holder
  obtain ⟨tag, prog, handler, hx⟩ := hj.session
  rw [hx] at hy
  cases hy
  exact ⟨m', hheld, hconflict⟩

section

variable {Q : Input → Answer → List (Hold Resource) → List Write → Store → Prop}
  (hsound : Sound locking (storeDiscipline none) Q c)
include hsound

theorem Sees.apart (h : Sees c i L ws v) (h' : Sees c j L' ws' v') (hne : i ≠ j) : Apart L L' := by
  obtain ⟨tag, prog, handler, hx⟩ := h.session
  obtain ⟨tag', prog', handler', hx'⟩ := h'.session
  exact hsound.apart hne hx hx'

/-- Who waits for a lock is blocked. -/
theorem blocked_of_waitsFor (h : c.WaitsFor rowLocking i j) :
    ∃ L ws v l m, Blocked c i j L ws v l m := by
  obtain ⟨hne, x, y, hx, hy, a, ha, b, hb, hconflict⟩ := h
  obtain ⟨ha, l, hl⟩ := asks_rowLocking ha
  obtain ⟨r, m⟩ := a
  obtain ⟨r', m'⟩ := b
  cases hl
  obtain rfl : .lock l = r' := hconflict.1
  obtain ⟨tag, stage⟩ := x
  cases stage with
  | running prog handler held writes =>
    obtain ⟨v, hreplay, hasks⟩ := hsound.asks hx
    exact ⟨held, writes, v, l, m, ⟨⟨tag, prog, handler, hx⟩, hreplay⟩, hasks _ ha, hne,
      y, m', hy, hb, hconflict⟩
  | _ => exact absurd ha (by simp [Stage.asks])

/-- It waits for nothing that it holds itself. -/
theorem Blocked.not_held (h : Blocked c i j L ws v l m) : ¬ Locked L l := by
  intro hheld
  obtain ⟨y, m', hy, hheld', -⟩ := h.holder
  obtain ⟨tag, prog, handler, hx⟩ := h.sees.session
  exact (hsound.apart h.other hx hy).not_mem hheld hheld'

theorem Blocked.not_shared (h : Blocked c i j L ws v l .share) : (.lock l, .share) ∉ L := by
  intro hheld
  obtain ⟨y, m', hy, hheld', hconflict⟩ := h.holder
  obtain ⟨tag, prog, handler, hx⟩ := h.sees.session
  exact hsound.apart h.other hx hy _ hheld _ hheld' hconflict

/-- Whoever is blocked holds attempts and evaluations only together with their runs. -/
theorem Blocked.rooted (h : Blocked c i j L ws v l m) : Rooted L v := by
  have hnone (hL : ∀ l m, (.lock l, m) ∈ L → (∃ y, l = .advisory y) ∨ ∃ o, l = .outbox o) :
      Rooted L v := by
    refine ⟨fun hid => ?_, fun hid => ?_, fun hid => ?_⟩ <;>
      rcases hL _ _ hid with ⟨y, hl⟩ | ⟨o, hl⟩ <;> exact absurd hl (by simp)
  cases h.asks with
  | again hheld => exact absurd hheld (h.not_held hsound)
  | shared hheld => exact absurd hheld (h.not_shared hsound)
  | scope hL => exact hnone fun l m hl => .inl ((hL l m hl).imp fun _ hy => hy.1)
  | row hL => exact hnone hL
  | ownRun _ hroot => exact hroot
  | ownAttempt _ hroot => exact hroot
  | named _ hset => exact hset.toRooted
  | attempt _ _ hset => exact hset.toRooted
  | evaluation _ _ _ hset => exact hset.toRooted
  | source _ hset => exact hset.toRooted

end

/-! ### Situations -/

/-- What a blocked transaction waits for. -/
inductive Situation where
  /-- The lock of a scope. -/
  | scope (x : String)
  /-- The row of the run it is about. -/
  | row
  /-- The attempt that a completion names. -/
  | named
  /-- The source of an evaluation. -/
  | source

/-- Scopes by their texts, then rows. -/
def Situation.rank : Situation → String ⊕ₗ ℕ
  | .scope x => Sum.inlₗ x
  | .row => Sum.inrₗ 0
  | .named => Sum.inrₗ 1
  | .source => Sum.inrₗ 2

instance : Preorder Situation := Preorder.lift Situation.rank

theorem Situation.scope_lt_scope {x y : String} (h : x < y) : scope x < scope y :=
  Sum.Lex.inl_lt_inl_iff.mpr h

theorem Situation.scope_lt_row (x : String) : scope x < row := Sum.Lex.inl_lt_inr _ _

theorem Situation.row_lt_named : row < named := Sum.Lex.inr_lt_inr_iff.mpr (by decide)

theorem Situation.named_lt_source : named < source := Sum.Lex.inr_lt_inr_iff.mpr (by decide)

/-- How a transaction stands that is blocked by one that is blocked. -/
inductive Stands (L : List (Hold Resource)) (ws : List Write) (v : Store) :
    Lock → Situation → Prop where
  | scope {x : String} (hL : ∀ l m, (.lock l, m) ∈ L → ∃ y, l = .advisory y ∧ y < x) :
      Stands L ws v (.advisory x) (.scope x)
  | row {id : Uuid}
      (hL : ∀ l m, (.lock l, m) ∈ L → (∃ y, l = .advisory y) ∨ ∃ o, l = .outbox o) :
      Stands L ws v (.run id) .row
  | named {id : Uuid} (hL : ∀ l m, (.lock l, m) ∈ L → ∃ r, l = .run r)
      (hset : Settling L ws v) : Stands L ws v (.attempt id) .named
  | source {id : Uuid} (hsource : Source L v id) (hset : Settling L ws v) :
      Stands L ws v (.run id) .source

section

variable {Q : Input → Answer → List (Hold Resource) → List Write → Store → Prop}
  (hsound : Sound locking (storeDiscipline none) Q c)
include hsound

/-- The other situations do not come up: a row that both see is committed, and belongs to one run. -/
theorem Blocked.stands (h : Blocked c i j L ws v l m) (h' : Blocked c j k L' ws' v' l' m') :
    ∃ x, Stands L ws v l x := by
  have hapart := h.sees.apart hsound h'.sees h.other
  have hroot := h'.rooted hsound
  have hnew := replay_inserts h.sees.replay
  have hnew' := replay_inserts h'.sees.replay
  have hgrows := replay_grows h.sees.replay
  have hgrows' := replay_grows h'.sees.replay
  obtain ⟨m'', hheld, hconflict⟩ := h.held h'.sees
  cases h.asks with
  | again hagain => exact absurd hagain (h.not_held hsound)
  | shared hshared => exact absurd hshared (h.not_shared hsound)
  | scope hL => exact ⟨_, .scope hL⟩
  | row hL => exact ⟨_, .row hL⟩
  | @ownRun r hown _ =>
    obtain ⟨hnone, hentry⟩ := replay_insertedRun h.sees.replay hown
    have hlocked : Locked L' (.run r.id) := by
      cases m'' with
      | exclusive => exact hheld
      | share => exact absurd ⟨rfl, rfl⟩ hconflict.2
    obtain ⟨q, hq⟩ := Option.isSome_iff_exists.mp (hroot.runs hlocked)
    exact absurd (hnew'.runs _ _ hq hnone) (hapart.not_mem hentry)
  | ownAttempt hown _ =>
    obtain ⟨hnone, hentry⟩ := replay_insertedAttempt h.sees.replay hown
    obtain ⟨a', ha', -⟩ := hroot.attempts hheld
    exact absurd (hnew'.attempts _ _ ha' hnone) (hapart.not_mem hentry)
  | named hL hset => exact ⟨_, .named hL hset⟩
  | @attempt id a ha hrun hset =>
    obtain ⟨a', ha', hrun'⟩ := hroot.attempts hheld
    have hsame : a'.runId = a.runId :=
      hnew.attempts.agree hnew'.attempts hapart hgrows.attempts hgrows'.attempts ha ha'
    exact absurd (hsame ▸ hrun') (hapart.not_mem hrun)
  | @evaluation id job e he hjob hrun hset =>
    obtain ⟨e', job', he', hjob', hrun'⟩ := hroot.evaluations hheld
    have hsame : e'.jobRunId = e.jobRunId :=
      hnew.evaluations.agree hnew'.evaluations hapart (hgrows.evaluations.mono fun h => h.2)
        (hgrows'.evaluations.mono fun h => h.2) he he'
    rw [hjob', hjob] at hsame
    obtain rfl := Option.some.inj hsame
    exact absurd hrun' (hapart.not_mem hrun)
  | source hsource hset => exact ⟨_, .source hsource hset⟩

end

/-- A transaction that holds evaluations of two different runs. -/
def Mixed (c : Config Input Store Write Lock PyError Answer Resource) (i : ℕ) : Prop :=
  ∃ tag prog handler held ws v, c.sessions[i]? = some ⟨tag, .running prog handler held ws⟩
    ∧ applyAll ws c.store = .ok v
    ∧ ∃ e e' row row', Locked held (.evaluation e) ∧ Locked held (.evaluation e')
      ∧ v.evaluations.get? e = some row ∧ v.evaluations.get? e' = some row'
      ∧ row.runId ≠ row'.runId

/-- The `i`-th session stands in a situation and waits for the `j`-th. -/
def StandsBefore (c : Config Input Store Write Lock PyError Answer Resource) (x : Situation)
    (i j : ℕ) : Prop :=
  ∃ L ws v l m, Blocked c i j L ws v l m ∧ Stands L ws v l x

section

variable {Q : Input → Answer → List (Hold Resource) → List Write → Store → Prop}
  (hsound : Sound locking (storeDiscipline none) Q c)
include hsound

/-- A run that one transaction holds and that is a source in the eyes of another has ended before
either of them began to write. -/
theorem ended_of_source (h : Sees c i L ws v) (h' : Sees c j L' ws' v') (hne : i ≠ j)
    (hsource : Source L v id) (hheld : Locked L' (.run id)) (hroot : Rooted L' v') :
    Ended c.store id := by
  have hapart := h.apart hsound h' hne
  obtain ⟨e, row, -, hrow, rfl⟩ := hsource
  have hinv : StoreInv none v := h.replay.inv hsound.inv
  obtain ⟨r, hr, hterminal⟩ := hinv.sources row (mem_of_get? hrow).1
  obtain ⟨r', hr'⟩ := Option.isSome_iff_exists.mp (hroot.runs hheld)
  obtain ⟨q, hq⟩ :=
    (replay_inserts h.replay).runs.common (replay_inserts h'.replay).runs hapart hr hr'
  have hfree : ¬ RunHeld L row.runId := fun hheld' => hapart.not_mem hheld' hheld
  have hsame := replay_unheld h.replay hfree hq
  rw [hr] at hsame
  exact ⟨q, hq, Option.some.inj hsame ▸ hterminal⟩

/-- Who is waited for as the holder of a source holds an evaluation of it. -/
theorem source_of_held (h : Sees c i L ws v) (h' : Sees c j L' ws' v') (hne : i ≠ j)
    (hsource : Source L v id) (hheld : (.lock (.run id), m) ∈ L') (hset : Settling L' ws' v') :
    Locked L' (.run id) ∧ Source L' v' id := by
  have hlocked := hset.whole hheld
  have hended := ended_of_source hsound h h' hne hsource hlocked hset.toRooted
  exact ⟨hlocked, (hset.origin hlocked).resolve_left (replay_not_main h'.replay hended)⟩

/-- **One wait after another.** The second one is further up, or both are for sources and the
transaction in between holds evaluations of both. -/
theorem standsBefore_rises : Rises (StandsBefore c) (Mixed c) := by
  rintro x x' i j k ⟨L, ws, v, l, m, hb, hx⟩ ⟨L', ws', v', l', m', hb', hx'⟩
  obtain ⟨m'', hheld, -⟩ := hb.held hb'.sees
  cases hx' with
  | scope hL' =>
    obtain ⟨y, hy, hlt⟩ := hL' _ _ hheld
    cases hx with
    | scope hL =>
      cases hy
      exact .inl (Situation.scope_lt_scope hlt)
    | _ => exact absurd hy (by simp)
  | row hL' =>
    cases hx with
    | scope hL => exact .inl (Situation.scope_lt_row _)
    | _ => rcases hL' _ _ hheld with ⟨y, hy⟩ | ⟨y, hy⟩ <;> exact absurd hy (by simp)
  | named hL' hset' =>
    cases hx with
    | scope hL => exact .inl ((Situation.scope_lt_row _).trans Situation.row_lt_named)
    | row hL => exact .inl Situation.row_lt_named
    | named hL hset =>
      obtain ⟨y, hy⟩ := hL' _ _ hheld
      exact absurd hy (by simp)
    | source hsource hset =>
      obtain ⟨-, e, row, he, -⟩ :=
        source_of_held hsound hb.sees hb'.sees hb.other hsource hheld hset'
      obtain ⟨y, hy⟩ := hL' _ _ he
      exact absurd hy (by simp)
  | source hsource' hset' =>
    cases hx with
    | scope hL =>
      exact .inl ((Situation.scope_lt_row _).trans
        (Situation.row_lt_named.trans Situation.named_lt_source))
    | row hL => exact .inl (Situation.row_lt_named.trans Situation.named_lt_source)
    | named hL hset => exact .inl Situation.named_lt_source
    | source hsource hset =>
      obtain ⟨hlocked, e, row, he, hrow, hid⟩ :=
        source_of_held hsound hb.sees hb'.sees hb.other hsource hheld hset'
      obtain ⟨e', row', he', hrow', hid'⟩ := hsource'
      have hne : row.runId ≠ row'.runId := by
        rintro heq
        rw [hid, hid'] at heq
        exact hb'.not_held hsound (heq ▸ hlocked)
      obtain ⟨tag, prog, handler, hsession⟩ := hb'.sees.session
      exact .inr ⟨rfl, tag, prog, handler, L', ws', v', hsession, hb'.sees.replay.applyAll,
        e, e', row, row', he, he', hrow, hrow', hne⟩

end

section

variable [Externals]

/-- **No deadlock** as long as at most one open transaction holds evaluations of two different runs:
no transactions wait for each other's locks in a circle, whatever the processes do and in whatever
order. -/
theorem waits_acyclic (events : List (Event Input))
    (hmixed : ∀ i j, Mixed (system.after events) i → Mixed (system.after events) j → i = j) (i : ℕ) :
    ¬ Relation.TransGen ((system.after events).WaitsFor rowLocking) i i := by
  have hsound := sound none events fun _ _ _ hl => absurd hl (by simp)
  refine (standsBefore_rises hsound).acyclic hmixed ?_ ?_ i
  · exact fun i h => h.1 rfl
  · intro i j k hij hjk
    obtain ⟨L, ws, v, l, m, hb⟩ := blocked_of_waitsFor hsound hij
    obtain ⟨L', ws', v', l', m', hb'⟩ := blocked_of_waitsFor hsound hjk
    obtain ⟨x, hx⟩ := hb.stands hsound hb'
    exact ⟨x, L, ws, v, l, m, hb, hx⟩

end

/-! ### Two recoveries -/

/-- Are two evaluations held? -/
def holdsSeveral (L : List (Hold Resource)) : Bool :=
  L.any fun a => L.any fun b =>
    match a.1, b.1 with
    | .lock (.evaluation e), .lock (.evaluation e') => e != e'
    | _, _ => false

/-- Whoever holds evaluations of two runs holds two evaluations. -/
theorem Mixed.several (h : Mixed c i) :
    ∃ x, c.sessions[i]? = some x ∧ holdsSeveral x.stage.held = true := by
  obtain ⟨tag, prog, handler, held, ws, v, hx, -, e, e', row, row', he, he', hrow, hrow', hne⟩ := h
  have hdiffer : e ≠ e' := by
    rintro rfl
    rw [hrow] at hrow'
    exact hne (congrArg Evaluation.runId (Option.some.inj hrow'))
  refine ⟨_, hx, ?_⟩
  simp only [holdsSeveral, List.any_eq_true]
  exact ⟨_, he, _, he', bne_iff_ne.mpr hdiffer⟩

/-- At most the `n`-th session is mixed if no other one holds two evaluations. -/
theorem mixed_unique {n : ℕ}
    (h : (c.sessions.zipIdx.all fun x => !holdsSeveral x.1.stage.held || x.2 == n) = true) :
    ∀ i j, Mixed c i → Mixed c j → i = j := by
  have honly : ∀ i, Mixed c i → i = n := by
    intro i hi
    obtain ⟨x, hx, hseveral⟩ := hi.several
    have hmem : (x, i) ∈ c.sessions.zipIdx := List.mem_zipIdx_iff_getElem?.mpr hx
    have hcheck := List.all_eq_true.mp h _ hmem
    rw [hseveral] at hcheck
    exact beq_iff_eq.mp hcheck
  intro i j hi hj
  rw [honly i hi, honly j hj]

/-- Two runs of two tenants succeed, each gets two evaluation jobs, and workers claim the four jobs:
one of the first run, the two of the second, the other one of the first. -/
def sampleJobs : List (Event Input) :=
  let submit n tenant := sampleInput 0 n (.submit sampleRunService tenant "key" [] [] none)
  let evaluate n run tenant principal :=
    sampleInput 3 n (.evaluate sampleRunService tenant (sampleUuid run) [] (some principal))
  statements (submit 1 "first") 0 11 ++ statements (submit 2 "second") 1 11
    ++ statements (sampleClaim 1 3 1) 2 12 ++ statements (sampleClaim 1 4 2) 3 12
    ++ statements (sampleSucceed 2 5 1 3) 4 8 ++ statements (sampleSucceed 2 6 2 4) 5 8
    ++ statements (evaluate 7 1 "first" "a") 6 16 ++ statements (evaluate 8 2 "second" "b") 7 16
    ++ statements (evaluate 9 2 "second" "c") 8 16 ++ statements (evaluate 10 1 "first" "d") 9 16
    ++ statements (sampleClaim 4 11 7) 10 12 ++ statements (sampleClaim 5 12 8) 11 12
    ++ statements (sampleClaim 6 13 9) 12 12 ++ statements (sampleClaim 7 14 10) 13 12

/-- The leases expire and two schedulers recover two jobs each. Both have ended their first job when
the first one goes on to its second job, and then the second one goes on by `n` statements. -/
def sampleRecoveries (n : ℕ) : List (Event Input) :=
  sampleJobs ++ statements (sampleInput 200 15 (.recoverExpiredLeases 2)) 14 12
    ++ statements (sampleInput 200 16 (.recoverExpiredLeases 2)) 15 12
    ++ List.replicate 12 (.step 14) ++ List.replicate n (.step 15)

/-- The first recovery holds evaluations of both runs and waits for the second one, which holds an
evaluation of one run. -/
theorem waits_acyclic_sample :
    let c := sampleSystem.after (sampleRecoveries 0)
    c.WaitsFor rowLocking 14 15 ∧ ¬ Relation.TransGen (c.WaitsFor rowLocking) 14 14 := by
  let _ : Externals := sampleExternals
  refine ⟨Config.waits_iff.mp (by decide +kernel), ?_⟩
  exact waits_acyclic (sampleRecoveries 0) (@mixed_unique _ 14 (by decide +kernel)) 14

/-- **Deadlock.** Each recovery holds the source run that the other one waits for. -/
theorem recoveries_deadlock :
    Relation.TransGen ((sampleSystem.after (sampleRecoveries 13)).WaitsFor rowLocking) 14 14 := by
  have hfirst : (sampleSystem.after (sampleRecoveries 13)).waits rowLocking 14 15 = true := by
    decide +kernel
  have hsecond : (sampleSystem.after (sampleRecoveries 13)).waits rowLocking 15 14 = true := by
    decide +kernel
  exact (Relation.TransGen.single (Config.waits_iff.mp hfirst)).tail (Config.waits_iff.mp hsecond)

end AgentRuntime.Concurrency
