import AgentRuntime.Application.CanonicalText
import AgentRuntime.Lifecycle.Attempts

/-!
# Idempotency keys

A key of a client is bound to the run that a first request created. A later request with the key
gets that run if its hash is the one the run carries. The hash covers what a request asks for, but
not which kind of request it is: a replay hashes its source's id and input as if they were an input,
so a submission of that very input has the hash of the replay. `_match_replay_or_raise` looks at
the row's source as well; `_match_or_raise` looks at the hash alone.

* `RequestOf`, `requests_of_runs`: every run was created by a request, and what the request left in
  its row;
* `submit_replayed`, `submit_conflict`, `replay_replayed`, `replay_conflict`: what a request makes
  of a key that is bound;
* `KeyFaithful`, `Aliased`: a bound key answers the request that created its run, and no other one;
  submissions with the hash of a run of another kind;
* `bound_keys_faithful`: what the keys of all other requests answer.
-/

namespace AgentRuntime.Lifecycle

open Lib Domain Database Application

/-! ### The requests behind the runs -/

variable {i : Input}

variable {svc : RunService} {clientId key : String} {runId : Uuid} {principalId : Option String}
  {r : Run}

section Requests

variable [Externals]

/-- The accepted columns are those of a run that the operation creates. -/
def RequestOf (op : Op) (a : Accepted) : Prop :=
  match op with
  | .submit _ clientId key input policy _ =>
    a.workKind = .execution ∧ a.replayOfRunId = none ∧ a.clientId = clientId
      ∧ a.idempotencyKey = key ∧ a.requestHash = canonicalRequestHash input policy
  | .submitRegression svc clientId _ payload key =>
    a.workKind = .regression ∧ a.replayOfRunId = none ∧ a.clientId = clientId
      ∧ a.idempotencyKey = key
      ∧ a.requestHash = canonicalRequestHash payload (hashedPolicy svc.jobPolicy .regression)
  | .evaluate _ _ _ _ _ => a.workKind = .evaluation ∧ a.replayOfRunId = none
  | .replay _ clientId runId key _ =>
    a.workKind = .execution ∧ a.replayOfRunId = some runId ∧ a.clientId = clientId
      ∧ a.idempotencyKey = key
  | _ => False

/-- Every run of the store that was not there at first has the columns `Q`. -/
def NewRuns (s0 : Store) (Q : Accepted → Prop) (s : Store) : Prop :=
  ∀ k r, s0.runs.get? k = none → s.runs.get? k = some r → Q (accepted r)

omit [Externals] in
theorem NewRuns.refl (s : Store) (Q : Accepted → Prop) : NewRuns s Q s := by
  intro k r hnone hsome
  rw [hnone] at hsome
  cases hsome

omit [Externals] in
/-- A write that inserts no run but those in `P` keeps it. -/
theorem NewRuns.apply {s0 s s' : Store} {P : Run → Prop} {Q : Accepted → Prop} {w : Write}
    (hPQ : ∀ r, P r → Q (accepted r)) (hw : ∀ r, w = .insertRun r → P r)
    (happly : Writes.apply w s = .ok s') (h : NewRuns s0 Q s) : NewRuns s0 Q s' := by
  intro k r hnone hsome
  rcases (apply_change happly).runs with hsame | ⟨q, rfl, hins⟩ | ⟨id, sets, rfl, hruns⟩
  · exact h k r hnone (hsame ▸ hsome)
  · rw [Table.get?_insert hins] at hsome
    split at hsome
    · cases hsome
      exact hPQ _ (hw _ rfl)
    · exact h k r hnone hsome
  · rw [hruns, Table.get?_update] at hsome
    split at hsome
    · rename_i hk
      subst hk
      obtain ⟨old, hold, rfl⟩ := Option.map_eq_some_iff.mp hsome
      rw [accepted_assignAll]
      exact h k old hnone hold
    · exact h k r hnone hsome

/-- A replay creates no run but the copy of its source. -/
theorem replay_creates {c : Call} {busy : Lock → Bool} {s s' : Store} {a : RunSnapshot × Bool}
    {Q : Accepted → Prop}
    (h : (replay svc c clientId runId key principalId).run busy s = .ok (a, s'))
    (hQ : ∀ source, s.runs.get? runId = some source →
      Q (accepted (replayedRun c clientId key source principalId))) : NewRuns s Q s' := by
  cases replay_ok h with
  | found _ _ => exact NewRuns.refl s _
  | @created source s1 s2 s3 _ hget hid h1 h2 h3 h4 =>
    have hkeep {w : Write} {s' s'' : Store} (hw : ∀ r, w ≠ .insertRun r)
        (h : Writes.apply w s' = .ok s'') :=
      @NewRuns.apply s s' s'' (fun _ => False) Q w (fun _ h => h.elim) hw h
    refine hkeep (by simp) h4 (hkeep (by simp) h3 (hkeep (by simp) h2 ?_))
    refine NewRuns.apply (P := fun r => r = replayedRun c clientId key source principalId) ?_ ?_ h1
      (NewRuns.refl s _)
    · rintro r rfl
      exact hQ source (hid ▸ hget)
    · rintro r hr
      exact (Write.insertRun.inj hr).symm

/-- The runs in the footprint of an operation, replays apart, are those it asks for. -/
theorem Input.requestOf_of_footprint
    (hop : ∀ svc clientId runId key principalId,
      i.op ≠ .replay svc clientId runId key principalId) (h : i.footprint (.insertRun r)) :
    RequestOf i.op (accepted r) := by
  unfold Input.footprint at h
  cases hi : i.op with
  | submit svc clientId key input policy principalId =>
    rw [hi] at h
    cases (h : r = _)
    exact ⟨rfl, rfl, rfl, rfl, rfl⟩
  | submitRegression svc clientId principalId payload key =>
    rw [hi] at h
    cases (h : r = _)
    exact ⟨rfl, rfl, rfl, rfl, rfl⟩
  | evaluate svc clientId runId rules principalId =>
    rw [hi] at h
    cases (h : r = _)
    exact ⟨rfl, rfl⟩
  | replay svc clientId runId key principalId => exact absurd hi (hop _ _ _ _ _)
  | _ =>
    rw [hi] at h
    exact h.elim

/-- Every run an operation creates is one that the operation asks for. -/
theorem run_newRuns {s s' : Store} {answer : Answer} (h : i.run s = .ok (answer, s')) :
    NewRuns s (RequestOf i.op) s' := by
  by_cases hop : ∃ svc clientId runId key principalId,
      i.op = .replay svc clientId runId key principalId
  · obtain ⟨svc, clientId, runId, key, principalId, hop⟩ := hop
    unfold Input.run at h
    rw [hop] at h ⊢
    exact Tx.of_map_ok (f := fun a => Answer.run a.1 a.2) (R := fun _ s' => NewRuns s
      (RequestOf (.replay svc clientId runId key principalId)) s') h
      fun _ _ hrun => replay_creates hrun fun source hget =>
        ⟨rfl, congrArg some (Table.mem_of_get? hget).2, rfl, rfl⟩
  · simp only [not_exists] at hop
    refine i.run_preserves (P := NewRuns s (RequestOf i.op)) ?_ (NewRuns.refl s _) h
    intro w s1 s2 hw happly hnew
    refine hnew.apply (P := fun r => RequestOf i.op (accepted r)) (fun _ h => h) ?_ happly
    rintro r rfl
    exact Input.requestOf_of_footprint hop hw

/-- The step of the history brings run `k` into the store. -/
def Creates (e : Entry Store Input (Except PyError Answer)) (k : Uuid) : Prop :=
  e.before.runs.get? k = none ∧ (e.after.runs.get? k).isSome = true

/-- **Every run was asked for.** A run of a reachable store was created by a step of its history,
and has the columns that the step's operation asks for. -/
theorem requests_of_runs (events : List Input) :
    ∀ k r, (service.after events).runs.get? k = some r →
      ∃ e ∈ service.history events, Creates e k ∧ RequestOf e.input.op (accepted r) := by
  refine service.history_induction (fun past s => ∀ k r, s.runs.get? k = some r →
    ∃ e ∈ past, Creates e k ∧ RequestOf e.input.op (accepted r)) ?_ ?_ events
  · intro k r h
    cases h
  · intro past s i ih k r hr
    have hpast {r' : Run} (h : s.runs.get? k = some r') (hcols : accepted r = accepted r') :
        ∃ e ∈ past ++ [service.entry s i], Creates e k ∧ RequestOf e.input.op (accepted r) := by
      obtain ⟨e, hmem, he⟩ := ih k r' h
      rw [hcols]
      exact ⟨e, List.mem_append_left _ hmem, he⟩
    rcases service_step_cases s i with ⟨answer, s', hrun, hstep⟩ | ⟨e, -, hstep⟩
    · rw [hstep] at hr
      cases hold : s.runs.get? k with
      | some r' =>
        obtain ⟨r'', hr'', hcols⟩ := (run_effects hrun k).accepted_eq hold
        have hsame : r'' = r := Option.some.inj (hr''.symm.trans hr)
        exact hpast hold (hsame ▸ hcols)
      | none =>
        refine ⟨service.entry s i, by simp, ⟨hold, ?_⟩, run_newRuns hrun k r hold hr⟩
        show ((service.step s i).2.runs.get? k).isSome = true
        rw [hstep]
        exact Option.isSome_iff_exists.mpr ⟨r, hr⟩
    · rw [hstep] at hr
      exact hpast hr rfl

end Requests

/-! ### Bound keys -/

section Keys

variable [Externals] {svc : RunService} {c : Call} {clientId key : String}
  {input policy : JsonObject} {principalId : Option String} {kind : WorkKind}
  {busy : Lock → Bool} {s s' : Store} {r : Run}
  {p : RunSnapshot × Bool} {runId : Uuid}

/-- A submission that returns a run as replayed returns the one that holds its key, which has its
hash. -/
theorem submit_replayed
    (h : (submit svc c clientId key input policy principalId kind).run busy s = .ok (p, s'))
    (hreplayed : p.2 = true) :
    ∃ r, s.keyHolder clientId key = some r ∧ p.1 = toRunSnapshot r
      ∧ r.requestHash = canonicalRequestHash input (hashedPolicy policy kind) := by
  cases submit_ok h with
  | found hholder hhash => exact ⟨_, hholder, rfl, hhash⟩
  | created _ _ _ _ => cases hreplayed

omit [Externals] in
/-- An exception that the `except` clause does not know is the answer of the request. -/
theorem run_of_unhandled {q : DbRequest (RunSnapshot × Bool)} {e : PyError}
    (hbody : q.body.run busy s = .error e) (hhandler : q.handler e = none) :
    q.run busy s = .error e := by
  unfold Request.run
  rw [hbody]
  simp only [hhandler]

/-- A submission whose key is bound under another hash is refused. -/
theorem submit_conflict (hholder : s.keyHolder clientId key = some r)
    (hhash : r.requestHash ≠ canonicalRequestHash input (hashedPolicy policy kind)) :
    ∃ message, (submit svc c clientId key input policy principalId kind).run busy s
      = .error (.idempotencyConflictError message) := by
  refine ⟨"Idempotency-Key is already bound to a different request", ?_⟩
  have hbody : (submit svc c clientId key input policy principalId kind).body.run busy s
      = .error (.idempotencyConflictError
        "Idempotency-Key is already bound to a different request") := by
    simp [submit, findByIdempotencyKey, hholder, matchOrRaise, hhash]
  exact run_of_unhandled hbody rfl

/-- A replay that returns a run as replayed returns the one that holds its key, which is a replay of
its source. -/
theorem replay_replayed
    (h : (replay svc c clientId runId key principalId).run busy s = .ok (p, s'))
    (hreplayed : p.2 = true) :
    ∃ r, s.keyHolder clientId key = some r ∧ p.1 = toRunSnapshot r
      ∧ r.replayOfRunId = some runId := by
  cases replay_ok h with
  | found hholder hsource => exact ⟨_, hholder, rfl, hsource⟩
  | created _ _ _ _ _ _ => cases hreplayed

/-- The source of a replay: an execution run of the client. -/
def Replayable (s : Store) (clientId : String) (runId : Uuid) : Prop :=
  ∃ source, s.runForClient clientId runId = some source ∧ source.workKind = .execution

/-- A replay whose key is bound to a run that is not a replay of its source is refused. -/
theorem replay_conflict (hsource : Replayable s clientId runId)
    (hholder : s.keyHolder clientId key = some r) (hother : r.replayOfRunId ≠ some runId) :
    ∃ message, (replay svc c clientId runId key principalId).run busy s
      = .error (.idempotencyConflictError message) := by
  refine ⟨"Idempotency-Key is already bound to a different replay request", ?_⟩
  obtain ⟨source, hsource, hkind⟩ := hsource
  have hid : source.id = runId := (Table.mem_of_get? (runForClient_eq_some.mp hsource).1).2
  have hbody : (replay svc c clientId runId key principalId).body.run busy s
      = .error (.idempotencyConflictError
        "Idempotency-Key is already bound to a different replay request") := by
    simp [replay, getRunForClient, hsource, hkind, findByIdempotencyKey, hholder,
      matchReplayOrRaise, hid, hother]
  exact run_of_unhandled hbody rfl

/-- Without a source to replay the key is not looked at. -/
theorem replay_missing (hsource : ¬ Replayable s clientId runId) :
    ∃ message, (replay svc c clientId runId key principalId).run busy s
      = .error (.runNotFoundError message) := by
  cases hfind : s.runForClient clientId runId with
  | none =>
    refine ⟨"Run " ++ runId.str ++ " was not found", run_of_unhandled ?_ rfl⟩
    simp [replay, getRunForClient, hfind]
  | some source =>
    have hkind : source.workKind ≠ .execution := fun h => hsource ⟨source, hfind, h⟩
    refine ⟨"Only execution runs can be replayed", run_of_unhandled ?_ rfl⟩
    simp [replay, getRunForClient, hfind, hkind]

end Keys

/-! ### The same request -/

/-- Two requests of one kind, for one client and key, with the same arguments: inputs and policies
up to the order of members. -/
def SameRequest : Op → Op → Prop
  | .submit _ clientId key input policy _, .submit _ clientId' key' input' policy' _ =>
    clientId = clientId' ∧ key = key' ∧ Reordered (.obj input) (.obj input')
      ∧ Reordered (.obj policy) (.obj policy')
  | .submitRegression _ clientId _ payload key, .submitRegression _ clientId' _ payload' key' =>
    clientId = clientId' ∧ key = key' ∧ Reordered (.obj payload) (.obj payload')
  | .replay _ clientId runId key _, .replay _ clientId' runId' key' _ =>
    clientId = clientId' ∧ key = key' ∧ runId = runId'
  | _, _ => False

section Same

variable [Externals] {op : Op} {a : Accepted} {clientId key : String} {input policy : JsonObject}

/-- With an injective digest the hash tells inputs and policies apart. -/
theorem reordered_of_hash (hsha : Function.Injective Externals.sha256)
    {input' policy' : JsonObject}
    (h : canonicalRequestHash input policy = canonicalRequestHash input' policy') :
    Reordered (.obj input) (.obj input') ∧ Reordered (.obj policy) (.obj policy') := by
  have hdumps : dumps (requestObject input policy) = dumps (requestObject input' policy') :=
    String.toByteArray_inj.mp (hsha h)
  obtain ⟨hinput, hpolicy⟩ := canon_requestObject_eq_iff.mp (dumps_eq_iff.mp hdumps)
  constructor
  · exact (reordered_canon _).trans (hinput ▸ (reordered_canon _).symm)
  · exact (reordered_canon _).trans (hpolicy ▸ (reordered_canon _).symm)

/-- A run with the columns and the hash of a submission was submitted by the same request. -/
theorem sameRequest_submit (hsha : Function.Injective Externals.sha256) (h : RequestOf op a)
    (hkind : a.workKind = .execution) (hsource : a.replayOfRunId = none)
    (hclient : a.clientId = clientId) (hkey : a.idempotencyKey = key)
    (hhash : a.requestHash = canonicalRequestHash input policy) (svc : RunService)
    (principalId : Option String) :
    SameRequest (.submit svc clientId key input policy principalId) op := by
  cases op with
  | submit svc' clientId' key' input' policy' principalId' =>
    obtain ⟨-, -, hclient', hkey', hhash'⟩ := h
    exact ⟨hclient.symm.trans hclient', hkey.symm.trans hkey',
      reordered_of_hash hsha (hhash.symm.trans hhash')⟩
  | submitRegression svc' clientId' principalId' payload' key' =>
    rw [h.1] at hkind
    cases hkind
  | evaluate svc' clientId' runId' rules' principalId' =>
    rw [h.1] at hkind
    cases hkind
  | replay svc' clientId' runId' key' principalId' =>
    rw [h.2.1] at hsource
    cases hsource
  | _ => exact h.elim

/-- A run with the columns and the hash of a regression job was submitted by the same request. -/
theorem sameRequest_submitRegression (hsha : Function.Injective Externals.sha256)
    (h : RequestOf op a) (hkind : a.workKind = .regression) (hclient : a.clientId = clientId)
    (hkey : a.idempotencyKey = key) (svc : RunService) (principalId : String)
    (hhash : a.requestHash
      = canonicalRequestHash input (hashedPolicy svc.jobPolicy .regression)) :
    SameRequest (.submitRegression svc clientId principalId input key) op := by
  cases op with
  | submit svc' clientId' key' input' policy' principalId' =>
    rw [h.1] at hkind
    cases hkind
  | submitRegression svc' clientId' principalId' payload' key' =>
    obtain ⟨-, -, hclient', hkey', hhash'⟩ := h
    exact ⟨hclient.symm.trans hclient', hkey.symm.trans hkey',
      (reordered_of_hash hsha (hhash.symm.trans hhash')).1⟩
  | evaluate svc' clientId' runId' rules' principalId' =>
    rw [h.1] at hkind
    cases hkind
  | replay svc' clientId' runId' key' principalId' =>
    rw [h.1] at hkind
    cases hkind
  | _ => exact h.elim

/-- A run that points to the source of a replay was created by the same replay. -/
theorem sameRequest_replay (h : RequestOf op a) (hsource : a.replayOfRunId = some runId)
    (hclient : a.clientId = clientId) (hkey : a.idempotencyKey = key) (svc : RunService)
    (principalId : Option String) :
    SameRequest (.replay svc clientId runId key principalId) op := by
  cases op with
  | submit svc' clientId' key' input' policy' principalId' =>
    rw [h.2.1] at hsource
    cases hsource
  | submitRegression svc' clientId' principalId' payload' key' =>
    rw [h.2.1] at hsource
    cases hsource
  | evaluate svc' clientId' runId' rules' principalId' =>
    rw [h.2] at hsource
    cases hsource
  | replay svc' clientId' runId' key' principalId' =>
    obtain ⟨-, hsource', hclient', hkey'⟩ := h
    exact ⟨hclient.symm.trans hclient', hkey.symm.trans hkey',
      Option.some.inj (hsource.symm.trans hsource')⟩
  | _ => exact h.elim

end Same

/-! ### Faithful keys -/

/-- The client and the idempotency key of a request. -/
def Op.clientKey? : Op → Option (String × String)
  | .submit _ clientId key _ _ _ => some (clientId, key)
  | .submitRegression _ clientId _ _ key => some (clientId, key)
  | .replay _ clientId _ key _ => some (clientId, key)
  | _ => none

section Faithful

variable [Externals]

/-- Run `k` was created by a request that is the same as `op`. -/
def CreatedBySame (events : List Input) (op : Op) (k : Uuid) : Prop :=
  ∃ e ∈ service.history events, Creates e k ∧ SameRequest op e.input.op

/-- A request whose key is bound gets the bound run if the same request created it, and is refused
otherwise. -/
structure KeyFaithful (events : List Input) (i : Input) : Prop where
  replayed : ∀ snapshot,
    (service.step (service.after events) i).1 = .ok (.run snapshot true) →
      CreatedBySame events i.op snapshot.id
  refused : ∀ clientId key r, Op.clientKey? i.op = some (clientId, key) →
    (service.after events).keyHolder clientId key = some r → ¬ CreatedBySame events i.op r.id →
      ∃ message,
        (service.step (service.after events) i).1 = .error (.idempotencyConflictError message)

/-- The request is a submission with the hash of the run that holds its key, which is a run of
another kind: a replay or a job where an execution is submitted, or the other way round. -/
def Aliased (s : Store) : Op → Prop
  | .submit _ clientId key input policy _ => ∃ r, s.keyHolder clientId key = some r
      ∧ r.requestHash = canonicalRequestHash input policy
      ∧ ¬ (r.workKind = .execution ∧ r.replayOfRunId = none)
  | .submitRegression svc clientId _ payload key => ∃ r, s.keyHolder clientId key = some r
      ∧ r.requestHash = canonicalRequestHash payload (hashedPolicy svc.jobPolicy .regression)
      ∧ r.workKind ≠ .regression
  | _ => False

/-- The request is a replay of something that is not an execution run of the client. -/
def SourceMissing (s : Store) : Op → Prop
  | .replay _ clientId runId _ _ => ¬ Replayable s clientId runId
  | _ => False

variable {events : List Input}

/-- The run that holds a key was created by some request of the history. -/
theorem holder_createdBySame {op : Op}
    (h : (service.after events).keyHolder clientId key = some r)
    (hsame : ∀ op', RequestOf op' (accepted r) → SameRequest op op') :
    CreatedBySame events op r.id := by
  obtain ⟨e, hmem, hcreates, hrequest⟩ := requests_of_runs events r.id r
    (Table.get?_eq_some_iff.mpr ⟨(keyHolder_eq_some.mp h).1, rfl⟩)
  exact ⟨e, hmem, hcreates, hsame _ hrequest⟩

/-- What passes `_match_or_raise` for a submission is the same submission, or aliased. -/
theorem submit_createdBySame (hsha : Function.Injective Externals.sha256)
    {input policy : JsonObject}
    (halias : ¬ Aliased (service.after events)
      (.submit svc clientId key input policy principalId))
    (hholder : (service.after events).keyHolder clientId key = some r)
    (hhash : r.requestHash = canonicalRequestHash input policy) :
    CreatedBySame events (.submit svc clientId key input policy principalId) r.id := by
  obtain ⟨-, hclient, hkey⟩ := keyHolder_eq_some.mp hholder
  have hkind : r.workKind = .execution ∧ r.replayOfRunId = none := by
    by_contra hother
    exact halias ⟨r, hholder, hhash, hother⟩
  exact holder_createdBySame hholder fun op' h =>
    sameRequest_submit hsha h hkind.1 hkind.2 hclient hkey hhash svc principalId

theorem submitRegression_createdBySame (hsha : Function.Injective Externals.sha256)
    {clientId principalId key : String} {payload : JsonObject}
    (halias : ¬ Aliased (service.after events)
      (.submitRegression svc clientId principalId payload key))
    (hholder : (service.after events).keyHolder clientId key = some r)
    (hhash : r.requestHash
      = canonicalRequestHash payload (hashedPolicy svc.jobPolicy .regression)) :
    CreatedBySame events (.submitRegression svc clientId principalId payload key) r.id := by
  obtain ⟨-, hclient, hkey⟩ := keyHolder_eq_some.mp hholder
  have hkind : r.workKind = .regression := by
    by_contra hother
    exact halias ⟨r, hholder, hhash, hother⟩
  exact holder_createdBySame hholder fun op' h =>
    sameRequest_submitRegression hsha h hkind hclient hkey svc principalId hhash

theorem replay_createdBySame (hholder : (service.after events).keyHolder clientId key = some r)
    (hsource : r.replayOfRunId = some runId) :
    CreatedBySame events (.replay svc clientId runId key principalId) r.id := by
  obtain ⟨-, hclient, hkey⟩ := keyHolder_eq_some.mp hholder
  exact holder_createdBySame hholder fun op' h =>
    sameRequest_replay h hsource hclient hkey svc principalId

/-- **Idempotent replays.** A request that gets an existing run as its own, and is not aliased, is
the request that created the run. -/
theorem replayed_createdBySame (hsha : Function.Injective Externals.sha256)
    (halias : ¬ Aliased (service.after events) i.op) {snapshot : RunSnapshot}
    (h : (service.step (service.after events) i).1 = .ok (.run snapshot true)) :
    CreatedBySame events i.op snapshot.id := by
  rcases service_step_cases (service.after events) i with ⟨answer, s', hrun, hstep⟩ | ⟨e, -, hstep⟩
  · rw [hstep] at h
    cases h
    have hmap {x : Except PyError ((RunSnapshot × Bool) × Store)}
        (h : (x.map fun p => (Answer.run p.1.1 p.1.2, p.2)) = .ok (.run snapshot true, s')) :
        x = .ok ((snapshot, true), s') := by
      obtain ⟨⟨⟨_, _⟩, _⟩, hx, heq⟩ := Tx.map_eq_ok.mp h
      cases heq
      exact hx
    unfold Input.run at hrun
    cases hop : i.op with
    | submit svc clientId key input policy principalId =>
      rw [hop] at hrun halias
      obtain ⟨r, hholder, rfl, hhash⟩ := submit_replayed (hmap hrun) rfl
      exact submit_createdBySame hsha halias hholder hhash
    | submitRegression svc clientId principalId payload key =>
      rw [hop] at hrun halias
      obtain ⟨r, hholder, rfl, hhash⟩ := submit_replayed (hmap hrun) rfl
      exact submitRegression_createdBySame hsha halias hholder hhash
    | replay svc clientId runId key principalId =>
      rw [hop] at hrun
      obtain ⟨r, hholder, rfl, hsource⟩ := replay_replayed (hmap hrun) rfl
      exact replay_createdBySame hholder hsource
    | _ =>
      rw [hop] at hrun
      obtain ⟨p, -, heq⟩ := Tx.map_eq_ok.mp hrun
      cases heq
  · rw [hstep] at h
    cases h

/-- **Refused requests.** A request whose key is bound to a run that another request created, and
which is not aliased, is refused: with a conflict, or because there is nothing to replay. -/
theorem refused_of_other (hsha : Function.Injective Externals.sha256)
    (halias : ¬ Aliased (service.after events) i.op)
    (hkey : Op.clientKey? i.op = some (clientId, key))
    (hholder : (service.after events).keyHolder clientId key = some r)
    (hother : ¬ CreatedBySame events i.op r.id) :
    SourceMissing (service.after events) i.op
        ∧ (∃ message,
          (service.step (service.after events) i).1 = .error (.runNotFoundError message))
      ∨ ¬ SourceMissing (service.after events) i.op
        ∧ ∃ message, (service.step (service.after events) i).1
          = .error (.idempotencyConflictError message) := by
  simp only [service_step_fst_error]
  unfold Input.run
  cases hop : i.op with
  | submit svc clientId' key' input policy principalId =>
    rw [hop] at halias hother hkey
    cases hkey
    have hhash : r.requestHash ≠ canonicalRequestHash input (hashedPolicy policy .execution) :=
      fun hhash => hother (submit_createdBySame hsha halias hholder hhash)
    obtain ⟨message, hrun⟩ := submit_conflict hholder hhash
    exact .inr ⟨id, message, Tx.map_eq_error.mpr hrun⟩
  | submitRegression svc clientId' principalId payload key' =>
    rw [hop] at halias hother hkey
    cases hkey
    have hhash : r.requestHash
        ≠ canonicalRequestHash payload (hashedPolicy svc.jobPolicy .regression) :=
      fun hhash => hother (submitRegression_createdBySame hsha halias hholder hhash)
    obtain ⟨message, hrun⟩ := submit_conflict hholder hhash
    exact .inr ⟨id, message, Tx.map_eq_error.mpr hrun⟩
  | replay svc clientId' runId key' principalId =>
    rw [hop] at hother hkey
    cases hkey
    by_cases hsource : Replayable (service.after events) clientId runId
    · obtain ⟨message, hrun⟩ := replay_conflict hsource hholder
        fun hsame => hother (replay_createdBySame hholder hsame)
      exact .inr ⟨fun hmissing => hmissing hsource, message, Tx.map_eq_error.mpr hrun⟩
    · obtain ⟨message, hrun⟩ := replay_missing hsource
      exact .inl ⟨hsource, message, Tx.map_eq_error.mpr hrun⟩
  | _ =>
    rw [hop] at hkey
    cases hkey

/-- **Keys answer the request they are bound to.** After every history, a request that is not
aliased gets an existing run only if the same request created it; with a key that is bound to any
other run it raises a conflict, except that a replay without a source to replay does not find the
source. -/
theorem bound_keys_faithful (hsha : Function.Injective Externals.sha256) (events : List Input)
    (i : Input) (halias : ¬ Aliased (service.after events) i.op) :
    (∀ snapshot, (service.step (service.after events) i).1 = .ok (.run snapshot true) →
      CreatedBySame events i.op snapshot.id)
    ∧ ∀ clientId key r, Op.clientKey? i.op = some (clientId, key) →
        (service.after events).keyHolder clientId key = some r →
          ¬ CreatedBySame events i.op r.id →
            SourceMissing (service.after events) i.op
                ∧ (∃ message,
                  (service.step (service.after events) i).1 = .error (.runNotFoundError message))
              ∨ ¬ SourceMissing (service.after events) i.op
                ∧ ∃ message, (service.step (service.after events) i).1
                  = .error (.idempotencyConflictError message) := by
  constructor
  · intro snapshot h
    exact replayed_createdBySame hsha halias h
  · intro clientId key r hkey hholder hother
    exact refused_of_other hsha halias hkey hholder hother

end Faithful

/-! ### A key that answers another request -/

/-- A digest that keeps everything, and a validator that accepts every rule. -/
@[reducible] def exactExternals : Externals := ⟨byteText, fun _ => .ok ()⟩

/-- The id of a run that a step returns as replayed. -/
def replayedId : Except PyError Answer → Option Uuid
  | .ok (.run snapshot true) => some snapshot.id
  | _ => none

theorem eq_run_of_replayedId {out : Except PyError Answer} {k : Uuid}
    (h : replayedId out = some k) :
    ∃ snapshot, out = .ok (.run snapshot true) ∧ snapshot.id = k := by
  unfold replayedId at h
  split at h
  · rename_i snapshot
    exact ⟨snapshot, rfl, Option.some.inj h⟩
  · cases h

/-- A run, and its replay under the key `replay`. -/
def sampleReplay : List Input :=
  [sampleSubmit 0 1 [],
    sampleInput 1 2 (.replay sampleRunService "tenant" (sampleUuid 1) "replay" none)]

/-- The submission of the input that the replay was hashed with, under the key of the replay. -/
def sampleAlias : Input :=
  sampleInput 2 3 (.submit sampleRunService "tenant" "replay"
    [("replay_of_run_id", .str (sampleUuid 1).str), ("input", .obj [])] [] none)

/-- The replay of a run that does not exist, under the key of the replay. -/
def sampleMissing : Input :=
  sampleInput 2 3 (.replay sampleRunService "tenant" (sampleUuid 9) "replay" none)

/-- The key of a replay does not answer every other request with a conflict: a replay of a missing
run does not find it, and a submission of what the replay was hashed with gets the replay's run. -/
theorem bound_key_answers_others :
    let _ : Externals := exactExternals
    ¬ KeyFaithful sampleReplay sampleMissing ∧ ¬ KeyFaithful sampleReplay sampleAlias := by
  intro _
  have hother : ∀ op k, (∀ i ∈ sampleReplay, ¬ SameRequest op i.op) →
      ¬ CreatedBySame sampleReplay op k := by
    rintro op k hop ⟨e, hmem, -, hsame⟩
    refine hop e.input ?_ hsame
    rcases List.mem_cons.mp hmem with rfl | hmem
    · exact List.mem_cons_self
    · rw [List.mem_singleton.mp hmem]
      exact List.mem_cons_of_mem _ List.mem_cons_self
  constructor
  · intro h
    have hnone : ∀ i ∈ sampleReplay, ¬ SameRequest sampleMissing.op i.op :=
      List.forall_mem_cons.mpr ⟨id, List.forall_mem_singleton.mpr fun hsame =>
        absurd hsame.2.2 (by decide)⟩
    have hbound : ((service.after sampleReplay).keyHolder "tenant" "replay").isSome = true := by
      decide +kernel
    obtain ⟨r, hr⟩ := Option.isSome_iff_exists.mp hbound
    obtain ⟨message, hout⟩ := h.refused _ _ r rfl hr (hother _ _ hnone)
    have hraised : raised (service.step (service.after sampleReplay) sampleMissing).1
        = some (.runNotFoundError ("Run " ++ (sampleUuid 9).str ++ " was not found")) := by
      decide +kernel
    rw [hout] at hraised
    cases hraised
  · intro h
    have hnone : ∀ i ∈ sampleReplay, ¬ SameRequest sampleAlias.op i.op :=
      List.forall_mem_cons.mpr ⟨fun hsame => absurd hsame.2.1 (by decide),
        List.forall_mem_singleton.mpr id⟩
    have hrun : replayedId (service.step (service.after sampleReplay) sampleAlias).1
        = some (sampleUuid 2) := by decide +kernel
    obtain ⟨snapshot, hout, -⟩ := eq_run_of_replayedId hrun
    exact hother _ _ hnone (h.replayed snapshot hout)

/-- The same submission once more. -/
theorem bound_keys_faithful_repeat :
    let _ : Externals := exactExternals
    ¬ Aliased (service.after [sampleSubmit 0 1 []]) (sampleSubmit 1 2 []).op
      ∧ CreatedBySame [sampleSubmit 0 1 []] (sampleSubmit 1 2 []).op (sampleUuid 1) := by
  intro _
  have halias : ¬ Aliased (service.after [sampleSubmit 0 1 []]) (sampleSubmit 1 2 []).op := by
    rintro ⟨r, hholder, -, hkind⟩
    have hrow : ((service.after [sampleSubmit 0 1 []]).keyHolder "tenant" "key").map
        (fun r => (r.workKind, r.replayOfRunId)) = some (.execution, none) := by decide +kernel
    rw [hholder] at hrow
    exact hkind (Prod.mk.inj (Option.some.inj hrow))
  have hrun : replayedId (service.step (service.after [sampleSubmit 0 1 []])
      (sampleSubmit 1 2 [])).1 = some (sampleUuid 1) := by decide +kernel
  obtain ⟨snapshot, hout, hid⟩ := eq_run_of_replayedId hrun
  have hsame := (bound_keys_faithful byteText_injective [sampleSubmit 0 1 []] (sampleSubmit 1 2 [])
    halias).1 snapshot hout
  exact ⟨halias, hid ▸ hsame⟩

end AgentRuntime.Lifecycle
