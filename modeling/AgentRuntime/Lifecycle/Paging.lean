import AgentRuntime.Database.Footprint
import AgentRuntime.Database.Histories
import AgentRuntime.Lifecycle.View

/-!
# Paging through the histories of a run

A client reads a history page by page and follows `X-Next-Cursor`, while other transactions add
rows. The services never remove a row of a history or change its place, so the client sees every
row that was there when it began, once and in order.

* `Grows`: rows are added, none is lost or moved; `service_step_grows` — the services keep to it;
* `getHistory_serves`: the reads serve the pages of their history;
* `history_paging`: the walks along a growing history are complete, and end when it stops growing.
-/

namespace AgentRuntime.Lifecycle

open Lib Domain Database Application

/-! ### Growing histories -/

/-- Every row of the history is still there, with its run and its place. -/
def Kept {ρ β : Type} (h : History ρ β) (s s' : Store) : Prop :=
  ∀ a ∈ h.rows s, ∃ b ∈ h.rows s', h.runId b = h.runId a
    ∧ h.id (h.snapshot b) = h.id (h.snapshot a) ∧ h.time (h.snapshot b) = h.time (h.snapshot a)

/-- No row of a history is lost or moved. -/
structure Grows (s s' : Store) : Prop where
  attempts : Kept attemptHistory s s'
  events : Kept eventHistory s s'
  evaluations : Kept evaluationHistory s s'

section Growing

variable {ρ β : Type} {h : History ρ β} {s s' s'' : Store}

theorem kept_of_subset (hrows : ∀ a ∈ h.rows s, a ∈ h.rows s') : Kept h s s' :=
  fun a ha => ⟨a, hrows a ha, rfl, rfl, rfl⟩

theorem Kept.trans (h1 : Kept h s s') (h2 : Kept h s' s'') : Kept h s s'' := by
  intro a ha
  obtain ⟨b, hb, hrun, hid, htime⟩ := h1 a ha
  obtain ⟨c, hc, hrun', hid', htime'⟩ := h2 b hb
  exact ⟨c, hc, hrun'.trans hrun, hid'.trans hid, htime'.trans htime⟩

theorem Kept.extends (hkept : Kept h s s') (runId : Uuid) :
    Keyset.Extends h.id h.key (h.snapshots runId s) (h.snapshots runId s') := by
  intro x hx
  obtain ⟨a, ha, rfl⟩ := List.mem_map.mp hx
  obtain ⟨hrow, hrun⟩ := List.mem_filter.mp ha
  obtain ⟨b, hb, hrun', hid, htime⟩ := hkept a hrow
  refine ⟨_, List.mem_map_of_mem (List.mem_filter.mpr ⟨hb, ?_⟩), hid, ?_⟩
  · rw [hrun']
    exact hrun
  · rw [History.key, History.key, hid, htime]

theorem Grows.refl (s : Store) : Grows s s :=
  ⟨kept_of_subset fun _ h => h, kept_of_subset fun _ h => h, kept_of_subset fun _ h => h⟩

theorem Grows.trans (h1 : Grows s s') (h2 : Grows s' s'') : Grows s s'' :=
  ⟨h1.attempts.trans h2.attempts, h1.events.trans h2.events, h1.evaluations.trans h2.evaluations⟩

/-- Updating columns that do not place a row keeps it. -/
theorem kept_of_update {p : ρ → Prop} [DecidablePred p] {f : ρ → ρ}
    (hrows : h.rows s' = (h.rows s).map fun a => if p a then f a else a)
    (hrun : ∀ a, h.runId (f a) = h.runId a)
    (hkey : ∀ a, h.key (h.snapshot (f a)) = h.key (h.snapshot a)) : Kept h s s' := by
  intro a ha
  refine ⟨if p a then f a else a, ?_, ?_⟩
  · rw [hrows]
    exact List.mem_map_of_mem ha
  · split
    · obtain ⟨htime, hid⟩ := Prod.mk.inj (toLex_inj.mp (hkey a))
      exact ⟨hrun a, hid, htime⟩
    · exact ⟨rfl, rfl, rfl⟩

end Growing

/-- No write loses or moves a row of a history. -/
theorem write_grows {w : Write} {s s' : Store} (h : Writes.apply w s = .ok s') : Grows s s' := by
  have happend : ∀ {α κ : Type} [Row α κ] [DecidableEq κ] {t t' : Table α} {a : α},
      t.insert? a = some t' → ∀ b ∈ t.rows, b ∈ t'.rows := by
    intro α κ _ _ t t' a hins b hb
    rw [(Table.insert?_eq_some hins).1]
    exact List.mem_append_left _ hb
  have hrefl := Grows.refl s
  cases applied h with
  | insertAttempt a hins => exact { hrefl with attempts := kept_of_subset (happend hins) }
  | updateAttempt id sets =>
    refine { hrefl with
      attempts := kept_of_update (f := assignAll AttemptSet.assign sets) rfl
        (assignAll_keeps (f := RunAttempt.runId) ?_ sets)
        (assignAll_keeps (f := fun a => attemptHistory.key (toAttemptSnapshot a)) ?_ sets) }
    · exact fun c a => by cases c <;> rfl
    · exact fun c a => by cases c <;> rfl
  | insertEvent e hins => exact { hrefl with events := kept_of_subset (happend hins) }
  | insertEvaluation e hins => exact { hrefl with evaluations := kept_of_subset (happend hins) }
  | updateEvaluation id sets =>
    refine { hrefl with
      evaluations := kept_of_update (f := assignAll EvaluationSet.assign sets) rfl
        (assignAll_keeps (f := Evaluation.runId) ?_ sets)
        (assignAll_keeps (f := fun e => evaluationHistory.key (toEvaluationSnapshot e)) ?_ sets) }
    · exact fun c a => by cases c <;> rfl
    · exact fun c a => by cases c <;> rfl
  | _ => exact { hrefl with }

/-- The operations of the services only add to the histories. -/
theorem service_step_grows [Externals] (s : Store) (i : Input) :
    Grows s (service.step s i).2 := by
  rcases service_step_cases s i with ⟨answer, s', hrun, hstep⟩ | ⟨e, -, hstep⟩
  · rw [hstep]
    exact Input.run_preserves (P := Grows s) (fun w s1 s2 _ happly hgrows =>
      hgrows.trans (write_grows happly)) (Grows.refl s) hrun
  · rw [hstep]
    exact Grows.refl s

/-- A run of the services only adds to the histories. -/
theorem service_after_grows [Externals] (inputs later : List Input) :
    Grows (service.after inputs) (service.after (inputs ++ later)) := by
  rw [service.after_append]
  exact service.afterFrom_induction (P := Grows (service.after inputs))
    (fun s i h => h.trans (service_step_grows s i)) later _ (Grows.refl _)

/-! ### Walks -/

/-- The rows of a walk through a history: each request meets its own store and has its own limit. -/
def walkHistory {ρ β : Type} (h : History ρ β) (clientId : String) (runId : Uuid)
    (busy : Lock → Bool) (requests : List (Store × ℕ)) : List β × Keyset.Progress Uuid PyError :=
  Keyset.walk h.id (fun s limit cursor =>
    ((getHistory h clientId runId limit cursor).run busy s).map Prod.fst) none requests

section Serving

variable {ρ β : Type} {h : History ρ β} {clientId : String} {runId : Uuid} {busy : Lock → Bool}
  {s : Store} {limit : ℕ}

theorem clampLimit_natCast (hpos : 1 ≤ limit) (hmax : limit ≤ 100) :
    clampLimit limit = limit := by
  unfold clampLimit
  omega

theorem run_getRunForClient_some {r : Run} (hrun : s.runForClient clientId runId = some r) :
    (getRunForClient clientId runId).run busy s = .ok (r, s) := by
  simp only [getRunForClient, Tx.bind_eq, Tx.run_bind, Tx.run_read, hrun]
  rfl

theorem History.ids_nodup (runId : Uuid) (s : Store) :
    ((h.snapshots runId s).map h.id).Nodup := by
  rw [History.snapshots, List.map_map]
  exact (h.distinct s).sublist (List.filter_sublist.map _)

theorem History.keys_nodup (runId : Uuid) (s : Store) :
    ((h.snapshots runId s).map h.key).Nodup := by
  refine List.Nodup.of_map (fun k => (ofLex k).2) ?_
  rw [List.map_map]
  exact History.ids_nodup runId s

/-- The row a cursor names. -/
theorem find?_anchor {a : ρ} (ha : a ∈ h.ofRun runId s) :
    (h.ofRun runId s).find? (fun r => h.id (h.snapshot r) == h.id (h.snapshot a)) = some a := by
  cases hfind : (h.ofRun runId s).find? (fun r => h.id (h.snapshot r) == h.id (h.snapshot a)) with
  | none => exact absurd (List.find?_eq_none.mp hfind a ha) (by simp)
  | some b =>
    have hids : ((h.ofRun runId s).map fun r => h.id (h.snapshot r)).Nodup :=
      (h.distinct s).sublist (List.filter_sublist.map _)
    have hfound := List.find?_some hfind
    have hsame : h.id (h.snapshot b) = h.id (h.snapshot a) := by simpa using hfound
    rw [List.inj_on_of_nodup_map hids (List.mem_of_find?_eq_some hfind) ha hsame]

theorem run_readPage (hpos : 1 ≤ limit) (hmax : limit ≤ 100)
    (bound : Option (Timestamp ×ₗ Uuid)) :
    (h.readPage runId limit bound).run busy s
      = .ok (Keyset.page h.key bound limit (h.snapshots runId s), s) := by
  rw [History.readPage, Tx.run_read, clampLimit_natCast hpos hmax, History.snapshots,
    Keyset.page_map]

/-- **The reads serve the pages of their history.** -/
theorem getHistory_serves (hvisible : (s.runForClient clientId runId).isSome = true)
    (hpos : 1 ≤ limit) (hmax : limit ≤ 100) :
    Keyset.Serves h.id h.key (fun limit cursor =>
      ((getHistory h clientId runId limit cursor).run busy s).map Prod.fst) limit
      (h.snapshots runId s) := by
  obtain ⟨r, hr⟩ := Option.isSome_iff_exists.mp hvisible
  refine ⟨hpos, History.keys_nodup runId s, ?_, fun x hx => ?_⟩
  · simp only [getHistory, Tx.bind_eq, Tx.run_bind, run_getRunForClient_some hr, Tx.ok_bind,
      run_readPage hpos hmax]
    rfl
  · obtain ⟨a, ha, rfl⟩ := List.mem_map.mp hx
    simp only [getHistory, Tx.bind_eq, Tx.run_bind, run_getRunForClient_some hr, Tx.ok_bind,
      Tx.run_read, find?_anchor ha, run_readPage hpos hmax]
    rfl

end Serving

/-- A walk through a history is complete, and it ends if the history does not grow. -/
structure PagesCompletely {ρ β : Type} (h : History ρ β) (clientId : String) (runId : Uuid)
    (busy : Lock → Bool) (requests : List (Store × ℕ)) : Prop where
  complete : Keyset.CompleteWalk h.id h.key (h.snapshots runId) requests
    (walkHistory h clientId runId busy requests)
  ends : ∀ rows : List (Timestamp ×ₗ Uuid),
    (∀ q ∈ requests, (h.snapshots runId q.1).map h.key = rows) → rows.length < requests.length →
    (walkHistory h clientId runId busy requests).2 = .ended

theorem pagesCompletely {ρ β : Type} {h : History ρ β} {clientId : String} {runId : Uuid}
    {busy : Lock → Bool} {requests : List (Store × ℕ)}
    (hvisible : ∀ q ∈ requests, (q.1.runForClient clientId runId).isSome = true)
    (hlimits : ∀ q ∈ requests, 1 ≤ q.2 ∧ q.2 ≤ 100)
    (hgrow : requests.Pairwise fun p q => Kept h p.1 q.1) :
    PagesCompletely h clientId runId busy requests := by
  have hserves : ∀ q ∈ requests, Keyset.Serves h.id h.key (fun limit cursor =>
      ((getHistory h clientId runId limit cursor).run busy q.1).map Prod.fst) q.2
      (h.snapshots runId q.1) :=
    fun q hq => getHistory_serves (hvisible q hq) (hlimits q hq).1 (hlimits q hq).2
  have hextends : requests.Pairwise fun p q =>
      Keyset.Extends h.id h.key (h.snapshots runId p.1) (h.snapshots runId q.1) :=
    hgrow.imp fun hkept => hkept.extends runId
  refine ⟨Keyset.walk_complete hserves hextends, fun rows hrows henough => ?_⟩
  exact Keyset.walk_ends hserves hrows hextends (fun q _ => .inl ⟨rfl, rfl⟩)
    ((List.length_filter_le ..).trans_lt henough)

/-- **History paging is complete and free of duplicates.** Along any stores in which rows are only
added, the walk through each history of a run returns rows in strictly increasing order, meets no
error and, once it has ended, has returned every row that was there when it began; if no row is
added it ends after at most one request more than there are rows. -/
theorem history_paging (clientId : String) (runId : Uuid) (busy : Lock → Bool)
    {requests : List (Store × ℕ)}
    (hvisible : ∀ q ∈ requests, (q.1.runForClient clientId runId).isSome = true)
    (hlimits : ∀ q ∈ requests, 1 ≤ q.2 ∧ q.2 ≤ 100)
    (hgrow : requests.Pairwise fun p q => Grows p.1 q.1) :
    PagesCompletely attemptHistory clientId runId busy requests
      ∧ PagesCompletely eventHistory clientId runId busy requests
      ∧ PagesCompletely evaluationHistory clientId runId busy requests :=
  ⟨pagesCompletely hvisible hlimits (hgrow.imp Grows.attempts),
    pagesCompletely hvisible hlimits (hgrow.imp Grows.events),
    pagesCompletely hvisible hlimits (hgrow.imp Grows.evaluations)⟩

/-- The stores around the retry of a run: events and attempts are added between the requests. -/
def samplePages : List (Store × ℕ) :=
  [(sampleService.after (sampleRetriedRun.take 1), 1),
    (sampleService.after (sampleRetriedRun.take 3), 1),
    (sampleService.after sampleRetriedRun, 100)]

theorem history_paging_sample :
    ((walkHistory eventHistory "tenant" (sampleUuid 1) (fun _ => false) samplePages).1.map
        EventSnapshot.eventType
      = [.runQueued, .runClaimed, .runRetryScheduled, .runRetryQueued, .runClaimed, .runSucceeded])
      ∧ PagesCompletely attemptHistory "tenant" (sampleUuid 1) (fun _ => false) samplePages
      ∧ PagesCompletely eventHistory "tenant" (sampleUuid 1) (fun _ => false) samplePages
      ∧ PagesCompletely evaluationHistory "tenant" (sampleUuid 1) (fun _ => false) samplePages := by
  let := sampleExternals
  refine ⟨by decide +kernel, history_paging "tenant" (sampleUuid 1) (fun _ => false) ?_ ?_ ?_⟩
  · simp only [samplePages, List.forall_mem_cons, List.not_mem_nil, false_implies, implies_true,
      and_true]
    decide +kernel
  · simp [samplePages]
  · simp only [samplePages, List.pairwise_cons, List.forall_mem_cons, List.not_mem_nil,
      false_implies, implies_true, List.Pairwise.nil, and_true]
    exact ⟨⟨service_after_grows (sampleRetriedRun.take 1) ((sampleRetriedRun.drop 1).take 2),
      service_after_grows (sampleRetriedRun.take 1) (sampleRetriedRun.drop 1)⟩,
      service_after_grows (sampleRetriedRun.take 3) (sampleRetriedRun.drop 3)⟩

end AgentRuntime.Lifecycle
