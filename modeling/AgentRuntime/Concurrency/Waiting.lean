import AgentRuntime.Concurrency.Discipline

/-!
# When a transaction waits

A transaction that waits for a lock is in one of a few situations, told by what it holds already. It
waits for the lock of a scope and holds only scopes that come before; for a run row and holds no rows; for
an attempt or an evaluation of runs that it holds; for the source of an evaluation that it holds; or for
what it holds already or has just inserted itself.

* `Rooted`: every attempt and evaluation that is held belongs to a run that is held;
* `Settling`: every run that is held has not ended, or is the source of an evaluation that is held;
* `Asks`: the situations;
* `storeDiscipline`: the discipline of the store.
-/

namespace AgentRuntime.Concurrency

open Lib Table Domain Database Lifecycle

variable {limits : Option QuotaLimits} {L L' : List (Hold Resource)} {ws : List Write}
  {v v' u : Store} {w : Write}

/-! ### What every write keeps -/

/-- Rows stay: runs as they were accepted, attempts with their run, evaluations with source and job. -/
structure Grows (s s' : Store) : Prop where
  runs : s.runs.Stays (fun _ r r' => accepted r' = accepted r) s'.runs
  attempts : s.attempts.Stays (fun _ a a' => a'.runId = a.runId) s'.attempts
  evaluations : s.evaluations.Stays EvaluationKept s'.evaluations

theorem Grows.refl (s : Store) : Grows s s :=
  ⟨.refl fun _ _ => rfl, .refl fun _ _ => rfl, .refl EvaluationsFrame.kept_refl⟩

theorem Grows.trans {s s' s'' : Store} (h : Grows s s') (h' : Grows s' s'') : Grows s s'' where
  runs := h.runs.trans (fun h1 h2 => h2.trans h1) h'.runs
  attempts := h.attempts.trans (fun h1 h2 => h2.trans h1) h'.attempts
  evaluations := h.evaluations.trans (fun h1 h2 => ⟨h2.1.trans h1.1, h2.2.trans h1.2⟩) h'.evaluations

theorem Frame.grows (h : Frame L v v') : Grows v v' :=
  ⟨h.runs.stays.mono fun hkept => hkept.1, h.attempts.stays.mono fun hkept => hkept.1,
    h.evaluations.stays⟩

variable {id : Uuid}

theorem Grows.hasRun (h : Grows v v') (hid : v.hasRun id = true) : v'.hasRun id = true := by
  obtain ⟨r, hr⟩ := Option.isSome_iff_exists.mp hid
  obtain ⟨r', hr', -⟩ := h.runs _ _ hr
  exact Option.isSome_iff_exists.mpr ⟨r', hr'⟩

theorem apply_grows (happly : Writes.apply w v = .ok u) : Grows v u := by
  have hrefl := Grows.refl v
  cases applied happly with
  | insertRun _ _ => exact { hrefl with runs := runs_stay happly }
  | updateRun _ _ => exact { hrefl with runs := runs_stay happly }
  | insertAttempt a hins =>
    exact { hrefl with attempts := stays_insert (fun _ _ => rfl) hins }
  | updateAttempt id sets =>
    exact { hrefl with
      attempts := stays_update (assignAll_keeps AttemptSet.ident_assign sets)
        (fun _ _ => rfl) fun _ => runId_assignAll sets _ }
  | insertEvaluation e hins =>
    exact { hrefl with evaluations := stays_insert EvaluationsFrame.kept_refl hins }
  | updateEvaluation id sets =>
    exact { hrefl with
      evaluations := stays_update (assignAll_keeps EvaluationSet.ident_assign sets)
        EvaluationsFrame.kept_refl fun _ => evaluationKept_assignAll sets id _ }
  | _ => exact { hrefl with }

/-! ### What is held -/

/-- The lock is held exclusively. -/
abbrev Locked (L : List (Hold Resource)) (l : Lock) : Prop := (.lock l, .exclusive) ∈ L

/-- The runs held are stored, and the attempts and evaluations held belong to runs held. -/
structure Rooted (L : List (Hold Resource)) (v : Store) : Prop where
  runs : ∀ {id}, Locked L (.run id) → v.hasRun id = true
  attempts : ∀ {id m}, (.lock (.attempt id), m) ∈ L →
    ∃ a, v.attempts.get? id = some a ∧ Locked L (.run a.runId)
  evaluations : ∀ {id m}, (.lock (.evaluation id), m) ∈ L →
    ∃ e job, v.evaluations.get? id = some e ∧ e.jobRunId = some job ∧ Locked L (.run job)

theorem Rooted.grows (h : Rooted L v) (hgrows : Grows v v') : Rooted L v' where
  runs hid := hgrows.hasRun (h.runs hid)
  attempts hid := by
    obtain ⟨a, ha, hheld⟩ := h.attempts hid
    obtain ⟨a', ha', hrun⟩ := hgrows.attempts _ _ ha
    exact ⟨a', ha', hrun ▸ hheld⟩
  evaluations hid := by
    obtain ⟨e, job, he, hjob, hheld⟩ := h.evaluations hid
    obtain ⟨e', he', -, hkeep⟩ := hgrows.evaluations _ _ he
    exact ⟨e', job, he', hkeep.trans hjob, hheld⟩

/-- More holds, none of them a new lock but for shared run rows. -/
theorem Rooted.extend (h : Rooted L v) (hsub : L ⊆ L')
    (hnew : ∀ l m, (.lock l, m) ∈ L' → (.lock l, m) ∈ L ∨ Locked L l
      ∨ (m = .share ∧ ∃ id, l = .run id)) : Rooted L' v := by
  have hold {l : Lock} {m : Mode} (hl : ∀ id, l ≠ .run id) (hid : (.lock l, m) ∈ L') :
      ∃ m', (.lock l, m') ∈ L := by
    rcases hnew _ _ hid with hid | hid | ⟨-, id', hl'⟩
    · exact ⟨m, hid⟩
    · exact ⟨_, hid⟩
    · exact absurd hl' (hl id')
  refine ⟨fun hid => ?_, fun hid => ?_, fun hid => ?_⟩
  · rcases hnew _ _ hid with hid | hid | ⟨hm, -⟩
    · exact h.runs hid
    · exact h.runs hid
    · exact absurd hm (by simp)
  · obtain ⟨m', hid'⟩ := hold (by simp) hid
    obtain ⟨a, ha, hheld⟩ := h.attempts hid'
    exact ⟨a, ha, hsub hheld⟩
  · obtain ⟨m', hid'⟩ := hold (by simp) hid
    obtain ⟨e, job, he, hjob, hheld⟩ := h.evaluations hid'
    exact ⟨e, job, he, hjob, hsub hheld⟩

theorem Rooted.write (h : Rooted L v) (happly : Writes.apply w v = .ok u)
    (hheld : ∀ l m, (l, m) ∈ touched w → Locked L l ∨ (m = .share ∧ ∃ id, l = .run id)) :
    Rooted (taken w ++ L) u := by
  refine (h.grows (apply_grows happly)).extend (List.subset_append_right _ _) fun l m hl => ?_
  rcases List.mem_append.mp hl with hl | hl
  · exact .inr (hheld l m (lock_mem_taken.mp hl))
  · exact .inl hl

/-- The run has not ended, or it is this transaction that gave it its status. -/
def Main (ws : List Write) (v : Store) (id : Uuid) : Prop :=
  (∃ r, v.runs.get? id = some r ∧ isTerminalExecutionStatus r.executionStatus = false)
    ∨ ∃ sets, .updateRun id sets ∈ ws ∧ SetsStatus sets

/-- The run is the source of an evaluation that is held. -/
def Source (L : List (Hold Resource)) (v : Store) (id : Uuid) : Prop :=
  ∃ e row, Locked L (.evaluation e) ∧ v.evaluations.get? e = some row ∧ row.runId = id

/-- Rooted, and every run held is one that the transaction settles or the source of an evaluation. -/
structure Settling (L : List (Hold Resource)) (ws : List Write) (v : Store) : Prop
    extends Rooted L v where
  whole : ∀ {id m}, (.lock (.run id), m) ∈ L → Locked L (.run id)
  origin : ∀ {id}, Locked L (.run id) → Main ws v id ∨ Source L v id

theorem Source.grows (h : Source L v id) (hgrows : Grows v v') : Source L v' id := by
  obtain ⟨e, row, hheld, hrow, hid⟩ := h
  obtain ⟨row', hrow', hkeep, -⟩ := hgrows.evaluations _ _ hrow
  exact ⟨e, row', hheld, hrow', hkeep.trans hid⟩

theorem Source.mono (h : Source L v id) (hsub : L ⊆ L') : Source L' v id := by
  obtain ⟨e, row, hheld, hrow⟩ := h
  exact ⟨e, row, hsub hheld, hrow⟩

theorem Main.write (h : Main ws v id) (happly : Writes.apply w v = .ok u) :
    Main (ws ++ [w]) u id := by
  rcases h with ⟨r, hr, hlive⟩ | ⟨sets, hmem, hsets⟩
  · rcases (apply_change happly).runs with hsame | ⟨q, rfl, hins⟩ | ⟨id', sets, rfl, hruns⟩
    · exact .inl ⟨r, by rw [hsame]; exact hr, hlive⟩
    · have hr' := get?_insert_of_some hins hr
      exact .inl ⟨r, hr', hlive⟩
    · by_cases hsets : id = id' ∧ SetsStatus sets
      · exact .inr ⟨sets, by simp [hsets.1], hsets.2⟩
      · rw [not_and] at hsets
        rw [Main, hruns, get?_update]
        by_cases hid : id = id'
        · rw [if_pos hid, hr]
          refine .inl ⟨_, rfl, ?_⟩
          rw [executionStatus_assignAll (hsets hid)]
          exact hlive
        · rw [if_neg hid]
          exact .inl ⟨r, hr, hlive⟩
  · exact .inr ⟨sets, List.mem_append_left _ hmem, hsets⟩

namespace Settling

theorem frame (h : Settling L ws v) (hframe : Frame L v v') : Settling L ws v' where
  toRooted := h.toRooted.grows hframe.grows
  whole := h.whole
  origin hid := by
    refine (h.origin hid).imp ?_ fun hsource => hsource.grows hframe.grows
    refine Or.imp ?_ fun hset => hset
    rintro ⟨r, hr, hlive⟩
    exact ⟨r, hframe.runs.held hid hr, hlive⟩

/-- A write that takes only locks that are held. -/
theorem write (h : Settling L ws v) (happly : Writes.apply w v = .ok u)
    (hheld : ∀ l m, (l, m) ∈ touched w → Locked L l) :
    Settling (taken w ++ L) (ws ++ [w]) u where
  toRooted := h.toRooted.write happly fun l m hl => .inl (hheld l m hl)
  whole hid := by
    rcases List.mem_append.mp hid with hid | hid
    · exact List.mem_append_right _ (hheld _ _ (lock_mem_taken.mp hid))
    · exact List.mem_append_right _ (h.whole hid)
  origin {id} hid := by
    have hlocked : Locked L (.run id) := by
      rcases List.mem_append.mp hid with hid | hid
      · exact hheld _ _ (lock_mem_taken.mp hid)
      · exact hid
    refine (h.origin hlocked).imp (fun hmain => hmain.write happly) fun hsource => ?_
    exact (hsource.grows (apply_grows happly)).mono (List.subset_append_right _ _)

/-- The rows a transaction starts from: they are stored and have not ended. -/
theorem start (hL : ∀ l m, (.lock l, m) ∈ L → (∃ scope, l = .advisory scope) ∨
      ∃ id r, l = .run id ∧ m = .exclusive ∧ v.runs.get? id = some r
        ∧ isTerminalExecutionStatus r.executionStatus = false) : Settling L ws v where
  runs {id} hid := by
    rcases hL _ _ hid with ⟨scope, hl⟩ | ⟨id', r, hl, -, hr, -⟩
    · exact absurd hl (by simp)
    · cases hl
      exact Option.isSome_iff_exists.mpr ⟨r, hr⟩
  attempts hid := by
    rcases hL _ _ hid with ⟨scope, hl⟩ | ⟨id', r, hl, -⟩ <;> exact absurd hl (by simp)
  evaluations hid := by
    rcases hL _ _ hid with ⟨scope, hl⟩ | ⟨id', r, hl, -⟩ <;> exact absurd hl (by simp)
  whole {id m} hid := by
    rcases hL _ _ hid with ⟨scope, hl⟩ | ⟨id', r, -, rfl, -⟩
    · exact absurd hl (by simp)
    · exact hid
  origin {id} hid := by
    rcases hL _ _ hid with ⟨scope, hl⟩ | ⟨id', r, hl, -, hr, hlive⟩
    · exact absurd hl (by simp)
    · cases hl
      exact .inl (.inl ⟨r, hr, hlive⟩)

/-- Locking one more row: an attempt or an evaluation of a run that is held, or the source of an
evaluation that is held. -/
theorem lock (h : Settling L ws v) (l : Lock)
    (hrun : ∀ id, l = .run id → v.hasRun id = true ∧ Source L v id)
    (hattempt : ∀ id, l = .attempt id →
      ∃ a, v.attempts.get? id = some a ∧ Locked L (.run a.runId))
    (hevaluation : ∀ id, l = .evaluation id →
      ∃ e job, v.evaluations.get? id = some e ∧ e.jobRunId = some job ∧ Locked L (.run job)) :
    Settling ((.lock l, .exclusive) :: L) ws v where
  runs {id} hid := by
    rcases List.mem_cons.mp hid with hnew | hid
    · cases hnew
      exact (hrun id rfl).1
    · exact h.runs hid
  attempts {id m} hid := by
    have hroot : ∃ a, v.attempts.get? id = some a ∧ Locked L (.run a.runId) := by
      rcases List.mem_cons.mp hid with hnew | hid
      · cases hnew
        exact hattempt id rfl
      · exact h.attempts hid
    exact hroot.imp fun _ ha => ha.imp_right (List.mem_cons_of_mem _)
  evaluations {id m} hid := by
    have hroot : ∃ e job, v.evaluations.get? id = some e ∧ e.jobRunId = some job
        ∧ Locked L (.run job) := by
      rcases List.mem_cons.mp hid with hnew | hid
      · cases hnew
        exact hevaluation id rfl
      · exact h.evaluations hid
    obtain ⟨e, job, he, hjob, hheld⟩ := hroot
    exact ⟨e, job, he, hjob, List.mem_cons_of_mem _ hheld⟩
  whole {id m} hid := by
    rcases List.mem_cons.mp hid with hnew | hid
    · cases hnew
      exact List.mem_cons_self
    · exact List.mem_cons_of_mem _ (h.whole hid)
  origin {id} hid := by
    have horigin : Main ws v id ∨ Source L v id := by
      rcases List.mem_cons.mp hid with hnew | hid
      · cases hnew
        exact .inr (hrun id rfl).2
      · exact h.origin hid
    exact horigin.imp_right fun hsource => hsource.mono (List.subset_cons_self _ _)

theorem attempt (h : Settling L ws v) {a : RunAttempt} (ha : v.attempts.get? id = some a)
    (hheld : Locked L (.run a.runId)) :
    Settling ((.lock (.attempt id), .exclusive) :: L) ws v := by
  refine h.lock _ (by rintro _ ⟨⟩) ?_ (by rintro _ ⟨⟩)
  rintro _ ⟨⟩
  exact ⟨a, ha, hheld⟩

theorem evaluation (h : Settling L ws v) {id job : Uuid} {e : Evaluation}
    (he : v.evaluations.get? id = some e) (hjob : e.jobRunId = some job)
    (hheld : Locked L (.run job)) :
    Settling ((.lock (.evaluation id), .exclusive) :: L) ws v := by
  refine h.lock _ (by rintro _ ⟨⟩) (by rintro _ ⟨⟩) ?_
  rintro _ ⟨⟩
  exact ⟨e, job, he, hjob, hheld⟩

theorem source (h : Settling L ws v) (hsource : Source L v id) (hrun : v.hasRun id = true) :
    Settling ((.lock (.run id), .exclusive) :: L) ws v := by
  refine h.lock _ ?_ (by rintro _ ⟨⟩) (by rintro _ ⟨⟩)
  rintro _ ⟨⟩
  exact ⟨hrun, hsource⟩

end Settling

/-! ### The situations -/

/-- What a transaction may ask for, given what it holds, has written and sees. -/
inductive Asks (L : List (Hold Resource)) (ws : List Write) (v : Store) : Hold Resource → Prop where
  /-- An index entry. -/
  | key (k : UniqueKey) (m : Mode) : Asks L ws v (.key k, m)
  /-- A lock that it holds. -/
  | again {l : Lock} {m : Mode} (hheld : Locked L l) : Asks L ws v (.lock l, m)
  /-- A row that it shares. -/
  | shared {l : Lock} (hheld : (.lock l, .share) ∈ L) : Asks L ws v (.lock l, .share)
  /-- A scope, while it holds nothing but scopes before it. -/
  | scope {x : String} (hL : ∀ l m, (.lock l, m) ∈ L → ∃ y, l = .advisory y ∧ y < x) :
      Asks L ws v (.lock (.advisory x), .exclusive)
  /-- A run row, while it holds no rows but of the outbox. -/
  | row {id : Uuid} {m : Mode}
      (hL : ∀ l m, (.lock l, m) ∈ L → (∃ y, l = .advisory y) ∨ ∃ o, l = .outbox o) :
      Asks L ws v (.lock (.run id), m)
  /-- The row of a run that it has inserted. -/
  | ownRun {r : Run} (hown : .insertRun r ∈ ws) (hroot : Rooted L v) :
      Asks L ws v (.lock (.run r.id), .share)
  /-- The row of an attempt that it has inserted. -/
  | ownAttempt {a : RunAttempt} (hown : .insertAttempt a ∈ ws) (hroot : Rooted L v) :
      Asks L ws v (.lock (.attempt a.id), .share)
  /-- The attempt a completion names, while it holds run rows only. -/
  | named {id : Uuid} (hL : ∀ l m, (.lock l, m) ∈ L → ∃ r, l = .run r)
      (hset : Settling L ws v) : Asks L ws v (.lock (.attempt id), .exclusive)
  /-- An attempt of a run that it holds. -/
  | attempt {id : Uuid} {a : RunAttempt} (ha : v.attempts.get? id = some a)
      (hheld : Locked L (.run a.runId)) (hset : Settling L ws v) :
      Asks L ws v (.lock (.attempt id), .exclusive)
  /-- The evaluation of a job that it holds. -/
  | evaluation {id job : Uuid} {e : Evaluation} (he : v.evaluations.get? id = some e)
      (hjob : e.jobRunId = some job) (hheld : Locked L (.run job)) (hset : Settling L ws v) :
      Asks L ws v (.lock (.evaluation id), .exclusive)
  /-- The source of an evaluation that it holds. -/
  | source {id : Uuid} (hsource : Source L v id) (hset : Settling L ws v) :
      Asks L ws v (.lock (.run id), .exclusive)

/-- Index entries can be asked for at any time, so only the rows matter. -/
theorem asks_taken (h : ∀ l m, (l, m) ∈ touched w → Asks L ws v (.lock l, m)) :
    ∀ a ∈ taken w, Asks L ws v a := by
  rintro ⟨_ | _, m⟩ ha
  · exact h _ _ (lock_mem_taken.mp ha)
  · exact .key _ m

/-- The discipline of the store, keeping the quotas of `limits` if there are any. -/
def storeDiscipline (limits : Option QuotaLimits) : Discipline Store Write Resource where
  Inv := StoreInv limits
  Frame := Frame
  Legal := Legal limits
  Asks := Asks
  frame_refl := Frame.refl
  frame_trans := Frame.trans
  frame_anti := Frame.anti
  legal_mono := Legal.mono
  legal_frame := Legal.frame
  apply_frame h _ _ hframe happly := h.replay hframe happly
  legal_apart h hinv happly hapart := h.apart hinv happly hapart
  legal_inv h hinv happly := h.inv hinv happly

end AgentRuntime.Concurrency
