import AgentRuntime.Concurrency.QuotaBounds
import AgentRuntime.Lib.Commits
import AgentRuntime.Lifecycle.Idempotency

/-!
# Idempotent acceptance among others

Submissions and replays look their key up under the identity locks of their own principal, and insert
the run if nobody holds the key. Requests of two principals of one tenant meet at the tenant's lock,
and what slips through meets at the unique index and reads again. So of all requests with one key one
creates the run, together with its `RUN_QUEUED` event, and the others return it.

* `insertedRuns`, `applyAll_accepted`: the runs of a store are those that the committed writes inserted;
* `creator_unique`: two commits never create a run for one key;
* `acceptance_idempotent`: what every request with a key has done once it has returned.
-/

namespace AgentRuntime.Concurrency

open Lib Domain Application Database Lifecycle

/-! ### Inserted runs -/

/-- The runs that a write inserts. -/
def insertedRuns : Write → List Run
  | .insertRun r => [r]
  | _ => []

variable {r : Run}

theorem mem_insertedRuns {w : Write} : r ∈ insertedRuns w ↔ w = .insertRun r := by
  cases w with
  | insertRun q =>
    constructor
    · intro h
      rw [List.mem_singleton.mp h]
    · intro h
      cases h
      exact List.mem_singleton_self _
  | _ => simp [insertedRuns]

variable {ws : List Write}

theorem mem_flatMap_insertedRuns : r ∈ ws.flatMap insertedRuns ↔ .insertRun r ∈ ws := by
  rw [List.mem_flatMap]
  constructor
  · rintro ⟨w, hw, hr⟩
    rw [← mem_insertedRuns.mp hr]
    exact hw
  · intro h
    exact ⟨_, h, mem_insertedRuns.mpr rfl⟩

theorem apply_accepted {w : Write} {s s' : Store} (h : Writes.apply w s = .ok s') :
    s'.runs.rows.map accepted = s.runs.rows.map accepted ++ (insertedRuns w).map accepted := by
  cases applied h with
  | insertRun r hins =>
    dsimp only
    rw [(Table.insert?_eq_some hins).1, List.map_append]
    rfl
  | updateRun id sets =>
    rw [Table.update_rows, List.map_map]
    refine Eq.trans ?_ (List.append_nil _).symm
    refine List.map_congr_left fun r _ => ?_
    show accepted (if Row.id r = id then assignAll RunSet.assign sets r else r) = accepted r
    split
    · exact accepted_assignAll sets r
    · rfl
  | _ => exact (List.append_nil _).symm

/-- **The runs of a store** are those that were inserted, as far as their accepted columns go. -/
theorem applyAll_accepted {s : Store} (h : applyAll ws Store.empty = .ok s) :
    s.runs.rows.map accepted = (ws.flatMap insertedRuns).map accepted := by
  rw [applyAll_appends (f := fun s => s.runs.rows.map accepted) (fun w s s' => apply_accepted) h,
    List.map_flatMap]
  rfl

/-- The two runs are for different keys. -/
def OtherKey (a b : Accepted) : Prop :=
  ¬ (a.clientId = b.clientId ∧ a.idempotencyKey = b.idempotencyKey)

theorem OtherKey.symm {a b : Accepted} (h : OtherKey a b) : OtherKey b a :=
  fun hsame => h ⟨hsame.1.symm, hsame.2.symm⟩

/-- Inserted runs have different keys. -/
theorem insertedRuns_otherKey {s : Store} (h : applyAll ws Store.empty = .ok s) :
    (ws.flatMap insertedRuns).Pairwise fun r r' => OtherKey (accepted r) (accepted r') := by
  rw [← List.pairwise_map (f := accepted) (R := OtherKey), ← applyAll_accepted h, List.pairwise_map]
  refine s.runs.unique.imp ?_
  rintro r r' hclash ⟨hclient, hkey⟩
  have hsame : Row.clash (Row.ident r) (Row.ident r') = true := by
    have hkeys : (r.clientId, r.idempotencyKey) = (r'.clientId, r'.idempotencyKey) :=
      Prod.ext hclient hkey
    show (r.id == r'.id || (r.clientId, r.idempotencyKey) == (r'.clientId, r'.idempotencyKey))
      = true
    rw [hkeys, beq_self_eq_true, Bool.or_true]
  rw [hsame] at hclash
  cases hclash

/-! ### Creators -/

section Creators

variable {c : Config Input Store Write Lock PyError Answer Resource} {order : List ℕ}

/-- The `n`-th session has committed the insertion of `r`. -/
def CreatorOf (c : Config Input Store Write Lock PyError Answer Resource) (n : ℕ) (r : Run) :
    Prop :=
  .insertRun r ∈ c.writes n

/-- A run is created for a key at most once. -/
theorem creator_unique (hlog : CommitLog Store.empty c order) {n n' : ℕ} {r r' : Run}
    (h : CreatorOf c n r) (h' : CreatorOf c n' r') (hclient : r.clientId = r'.clientId)
    (hkey : r.idempotencyKey = r'.idempotencyKey) : n = n' ∧ r = r' :=
  hlog.eq_of_not (fun _ _ h => h.symm) (insertedRuns_otherKey hlog.store)
    (mem_flatMap_insertedRuns.mpr h) (mem_flatMap_insertedRuns.mpr h')
    fun hother => hother ⟨hclient, hkey⟩

/-- Every run of the store has a creator. -/
theorem exists_creator (hlog : CommitLog Store.empty c order) (h : r ∈ c.store.runs.rows) :
    ∃ n r0, CreatorOf c n r0 ∧ accepted r0 = accepted r := by
  have hmem : accepted r ∈ ((order.flatMap c.writes).flatMap insertedRuns).map accepted := by
    rw [← applyAll_accepted hlog.store]
    exact List.mem_map_of_mem h
  obtain ⟨r0, hr0, heq⟩ := List.mem_map.mp hmem
  obtain ⟨n, -, hn⟩ := List.mem_flatMap.mp (mem_flatMap_insertedRuns.mp hr0)
  exact ⟨n, r0, hn, heq⟩

/-- What was created is in the store. -/
theorem CreatorOf.stored (hlog : CommitLog Store.empty c order) {n : ℕ} {r0 : Run}
    (h : CreatorOf c n r0) : ∃ r ∈ c.store.runs.rows, accepted r = accepted r0 := by
  have hmem : r0 ∈ (order.flatMap c.writes).flatMap insertedRuns :=
    mem_flatMap_insertedRuns.mpr (List.mem_flatMap.mpr ⟨n, hlog.mem_of_write h, h⟩)
  have hstored : accepted r0 ∈ c.store.runs.rows.map accepted := by
    rw [applyAll_accepted hlog.store]
    exact List.mem_map_of_mem hmem
  exact List.mem_map.mp hstored

end Creators

/-! ### All requests -/

/-- A request with a key ends as an accepting request does. -/
theorem Post.accept {i : Input} {answer : Answer} {L : List (Hold Resource)} {v : Store}
    (h : Post i answer L ws v) {clientId key : String}
    (hkey : Op.clientKey? i.op = some (clientId, key)) :
    ∃ p, answer = .run p.1 p.2 ∧ AcceptPost i.call clientId key p ws v := by
  unfold Post at h
  cases hop : i.op with
  | submit svc clientId' key' input policy principalId =>
    rw [hop] at h hkey
    cases hkey
    exact h
  | submitRegression svc clientId' principalId payload key' =>
    rw [hop] at h hkey
    cases hkey
    exact h
  | replay svc clientId' runId key' principalId =>
    rw [hop] at h hkey
    cases hkey
    exact h
  | _ =>
    rw [hop] at hkey
    cases hkey

section Requests

variable [Externals]

/-- Whatever happens later, a request with a key has ended as an accepting request does. -/
theorem accepted_after (events : List (Event Input)) {n : ℕ} {i : Input} {answer : Answer}
    (h : (system.after events).outcome? n = some (i, answer, ws)) {clientId key : String}
    (hkey : Op.clientKey? i.op = some (clientId, key)) :
    ∃ p, answer = .run p.1 p.2 ∧
      AcceptPost i.call clientId key p ws (system.after events).store := by
  have hobeys : Verified locking (storeDiscipline none) request
      (fun i => ∀ l ∈ (none : Option QuotaLimits), Uses l i) Post := request_obeys
  have hall := outcome_after (R := fun i answer ws s => ∀ clientId key,
    Op.clientKey? i.op = some (clientId, key) →
      ∃ p, answer = .run p.1 p.2 ∧ AcceptPost i.call clientId key p ws s)
    hobeys (storeInv_empty none)
    (fun i answer L ws s v _ hpost clientId key hkey => hpost.accept hkey)
    (fun i answer ws s s' hframe hpost clientId key hkey => ?_) events (by simp)
  · exact hall n i answer ws h clientId key hkey
  · obtain ⟨p, hanswer, haccept⟩ := hpost clientId key hkey
    exact ⟨p, hanswer, haccept.frame hframe⟩

/-- **Idempotent acceptance.** In every interleaving the store is what the requests that returned have
made of it, so one that raised has left nothing behind. For every client and key at most one run is
created, once; and every request with the key that returned, returned the run that holds the key: as a
new one, together with its `RUN_QUEUED` event, if the request created it itself, and otherwise as
replayed and without a write. -/
theorem acceptance_idempotent (events : List (Event Input)) :
    (∃ order, CommitLog Store.empty (system.after events) order)
    ∧ (∀ n n' r r', CreatorOf (system.after events) n r → CreatorOf (system.after events) n' r' →
        r.clientId = r'.clientId → r.idempotencyKey = r'.idempotencyKey → n = n' ∧ r = r')
    ∧ ∀ n i answer ws clientId key,
        (system.after events).outcome? n = some (i, answer, ws) →
        Op.clientKey? i.op = some (clientId, key) →
        ∃ snapshot replayed r m r0, answer = .run snapshot replayed
          ∧ (system.after events).store.keyHolder clientId key = some r ∧ snapshot.id = r.id
          ∧ CreatorOf (system.after events) m r0 ∧ accepted r0 = accepted r
          ∧ (replayed = false ↔ m = n)
          ∧ (replayed = true → ws = [])
          ∧ (replayed = false → ∃ (payload : JsonObject) (queued : List RunEvent), ws = .insertRun r0
              :: .insertOutbox (queuedOutbox i.call r0.id payload) :: queued.map .insertEvent) := by
  obtain ⟨order, hlog⟩ := exists_commitLog request locking Store.empty events
  refine ⟨⟨order, hlog⟩, ?_, ?_⟩
  · intro n n' r r' h h' hclient hkey
    exact creator_unique hlog h h' hclient hkey
  · intro n i answer ws clientId key hn hkey
    have hwrites : (system.after events).writes n = ws := by
      unfold Config.writes
      rw [hn]
      rfl
    obtain ⟨p, rfl, hpost⟩ := accepted_after events hn hkey
    cases hpost with
    | @replayed snapshot r v holder hid =>
      obtain ⟨m, r0, hm, hr0⟩ := exists_creator hlog (keyHolder_eq_some.mp holder).1
      refine ⟨snapshot, true, r, m, r0, rfl, holder, hid.symm, hm, hr0, ?_, fun _ => rfl, ?_⟩
      · constructor
        · intro h
          cases h
        · rintro rfl
          unfold CreatorOf at hm
          rw [hwrites] at hm
          cases hm
      · intro h
        cases h
    | @created r0 payload queued v hclient hkey' =>
      have hm : CreatorOf (system.after events) n r0 := by
        unfold CreatorOf
        rw [hwrites]
        exact List.mem_cons_self
      obtain ⟨r, hr, haccepted⟩ := hm.stored hlog
      have holder : (system.after events).store.keyHolder clientId key = some r :=
        keyHolder_eq_some.mpr ⟨hr, (congrArg Accepted.clientId haccepted).trans hclient,
          (congrArg Accepted.idempotencyKey haccepted).trans hkey'⟩
      have hid : (toRunSnapshot r0).id = r.id := (congrArg Accepted.id haccepted).symm
      refine ⟨toRunSnapshot r0, false, r, n, r0, rfl, holder, hid, hm, haccepted.symm, ?_, ?_, ?_⟩
      · exact ⟨fun _ => rfl, fun _ => rfl⟩
      · intro h
        cases h
      · exact fun _ => ⟨payload, queued, rfl⟩

end Requests

/-- The same submission by two principals of one tenant, statement by statement in turn; the second
one waits for the tenant's lock until the first one commits. -/
def sampleRace : List (Event Input) :=
  .start (sampleInput 0 1 (.submit sampleRunService "tenant" "key" [] [] (some "first")))
    :: .start (sampleInput 0 2 (.submit sampleRunService "tenant" "key" [] [] (some "second")))
    :: (List.replicate 16 [Event.step 0, .step 1]).flatten

/-- The second submission of the race returns the run that the first one created. -/
theorem acceptance_idempotent_race :
    ∃ i ws snapshot r, (sampleSystem.after sampleRace).outcome? 1
        = some (i, .run snapshot true, ws)
      ∧ Op.clientKey? i.op = some ("tenant", "key")
      ∧ (sampleSystem.after sampleRace).store.keyHolder "tenant" "key" = some r
      ∧ snapshot.id = r.id ∧ ws = [] := by
  have hrace : ((sampleSystem.after sampleRace).outcome? 1).map
      (fun p => (Op.clientKey? p.1.op, replayedId (.ok p.2.1)))
      = some (some ("tenant", "key"), some (sampleUuid 1)) := by decide +kernel
  obtain ⟨⟨i, answer, ws⟩, hn, heq⟩ := Option.map_eq_some_iff.mp hrace
  obtain ⟨hkey, hid⟩ := Prod.mk.inj heq
  obtain ⟨snapshot, hanswer, -⟩ := eq_run_of_replayedId hid
  cases hanswer
  obtain ⟨snapshot', replayed, r, m, r0, hanswer, holder, hsame, -, -, -, hnil, -⟩ :=
    (@acceptance_idempotent sampleExternals sampleRace).2.2 1 i _ ws "tenant" "key" hn hkey
  cases hanswer
  exact ⟨i, ws, snapshot, r, hn, hkey, holder, hsame, hnil rfl⟩

end AgentRuntime.Concurrency
