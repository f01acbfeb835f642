import AgentRuntime.Lifecycle.Idempotency

/-!
# Where replays come from

`replay` copies a stored execution run of the client, its input and its policy snapshot, and notes
the source in the column `replay_of_run_id`. Replays can be replayed, so the sources form chains.
A source is older than its replays, and what was accepted with it never changes: every chain ends,
at a run that was asked for as such and has the input and the policy of all runs of the chain.

* `Stems`: the end of the chain of a run;
* `run_copies`: a new replay copies a run that is stored already;
* `Lineal.run`: the step lemma;
* `replay_lineage`: the run lemma: every run stems from a request that was no replay.
-/

namespace AgentRuntime.Lifecycle

open Lib Domain Database Application

variable {s s' : Store} {r r' r0 : Run} {k k' : Uuid}

/-- What a replay takes over from its source. -/
def inherited (a : Accepted) : String × WorkKind × JsonObject × JsonObject :=
  (a.clientId, a.workKind, a.inputPayload, a.policySnapshot)

/-- Run `k` is a replay of run `k'`. -/
def ReplayOf (s : Store) (k k' : Uuid) : Prop :=
  ∃ r, s.runs.get? k = some r ∧ r.replayOfRunId = some k'

/-- The chain of sources of the run ends at `r0`, which has what the run inherited. -/
structure Stems (s : Store) (r r0 : Run) : Prop where
  stored : s.runs.get? r0.id = some r0
  first : r0.replayOfRunId = none
  chain : Relation.ReflTransGen (ReplayOf s) r.id r0.id
  same : inherited (accepted r) = inherited (accepted r0)

/-- Every run of the store stems from some run. -/
def Lineal (s : Store) : Prop := ∀ k r, s.runs.get? k = some r → ∃ r0, Stems s r r0

section Steps

variable [Externals] {i : Input} {answer : Answer}

/-- Chains of sources stay, as no operation changes what was accepted with a run. -/
theorem Stems.run (hstems : Stems s r r0) (h : i.run s = .ok (answer, s'))
    (hr : accepted r' = accepted r) : ∃ r0', Stems s' r' r0' := by
  obtain ⟨r0', hstored, hcols⟩ := (run_effects h _).accepted_eq hstems.stored
  have hend : r0'.id = r0.id := congrArg Accepted.id hcols
  refine ⟨r0', hend ▸ hstored, (congrArg Accepted.replayOfRunId hcols).trans hstems.first, ?_, ?_⟩
  · rw [show r'.id = r.id from congrArg Accepted.id hr, hend]
    refine Relation.ReflTransGen.mono ?_ _ _ hstems.chain
    rintro k k' ⟨q, hq, hof⟩
    obtain ⟨q', hq', hsame⟩ := (run_effects h k).accepted_eq hq
    exact ⟨q', hq', (congrArg Accepted.replayOfRunId hsame).trans hof⟩
  · rw [hr, hcols]
    exact hstems.same

/-- A new run with a source is a copy of it, and the source was in the store before. -/
theorem run_copies (h : i.run s = .ok (answer, s')) (hnone : s.runs.get? k = none)
    (hr : s'.runs.get? k = some r) (hof : r.replayOfRunId = some k') :
    ∃ source, s.runs.get? k' = some source
      ∧ inherited (accepted r) = inherited (accepted source) := by
  have hnew := run_newRuns h k r hnone hr
  cases hop : i.op with
  | replay svc clientId runId key principalId =>
    unfold Input.run at h
    rw [hop] at h hnew
    obtain rfl : runId = k' := Option.some.inj (hnew.2.1.symm.trans hof)
    refine Tx.of_map_ok (f := fun a => Answer.run a.1 a.2) (R := fun _ s' => NewRuns s (fun a =>
      ∃ source, s.runs.get? runId = some source ∧ inherited a = inherited (accepted source)) s') h
      (fun _ _ hrun => replay_creates hrun fun source hget => ⟨source, hget, ?_⟩) k r hnone hr
    -- a replay commits only if the client has such an execution run
    by_cases hsource : Replayable s clientId runId
    · obtain ⟨source', hfind, hkind⟩ := hsource
      obtain ⟨hget', hclient⟩ := runForClient_eq_some.mp hfind
      obtain rfl := Option.some.inj (hget'.symm.trans hget)
      rw [← hclient]
      exact congrArg (fun kind => (source'.clientId, kind, _)) hkind.symm
    · obtain ⟨message, herror⟩ := replay_missing hsource
      rw [herror] at hrun
      cases hrun
  | _ => simp [hop, RequestOf, accepted, hof] at hnew

/-- **The step lemma.** A new run is the end of its own chain or extends the chain of its
source. -/
theorem Lineal.run (hs : Lineal s) (h : i.run s = .ok (answer, s')) : Lineal s' := by
  intro k r hr
  obtain rfl : r.id = k := (Table.mem_of_get? hr).2
  cases hold : s.runs.get? r.id with
  | some old =>
    obtain ⟨r', hr', hcols⟩ := (run_effects h r.id).accepted_eq hold
    obtain rfl := Option.some.inj (hr'.symm.trans hr)
    obtain ⟨r0, hstems⟩ := hs _ old hold
    exact hstems.run h hcols
  | none =>
    cases hof : r.replayOfRunId with
    | none => exact ⟨r, hr, hof, .refl, rfl⟩
    | some k' =>
      obtain ⟨source, hsource, hsame⟩ := run_copies h hold hr hof
      obtain rfl : source.id = k' := (Table.mem_of_get? hsource).2
      obtain ⟨_, hstems⟩ := hs _ source hsource
      obtain ⟨r0, hstems'⟩ := hstems.run h rfl
      exact ⟨r0, hstems'.stored, hstems'.first, .head ⟨r, hr, hof⟩ hstems'.chain,
        hsame.trans hstems'.same⟩

/-- **The lineage of replays.** After any inputs every run stems from one that is no replay, of the
same client and kind, with the same input and the same policy; a step of the history created that
one, at a request of its own. -/
theorem replay_lineage (inputs : List Input) (k : Uuid) (r : Run)
    (h : (service.after inputs).runs.get? k = some r) :
    ∃ r0, Stems (service.after inputs) r r0
      ∧ ∃ e ∈ service.history inputs, Creates e r0.id ∧ RequestOf e.input.op (accepted r0) := by
  have hlineal : Lineal (service.after inputs) := by
    refine service.reachable_induction (P := Lineal) (fun _ _ h => by cases h) ?_ ⟨inputs, rfl⟩
    intro s i hs
    rcases service_step_cases s i with ⟨answer, s', hrun, hstep⟩ | ⟨e, -, hstep⟩
    · rw [hstep]
      exact hs.run hrun
    · rw [hstep]
      exact hs
  obtain ⟨r0, hstems⟩ := hlineal k r h
  exact ⟨r0, hstems, requests_of_runs inputs _ r0 hstems.stored⟩

end Steps

/-- A run and its replay. -/
theorem replay_lineage_copy :
    let _ : Externals := exactExternals
    ∃ r r0, (service.after sampleReplay).runs.get? (sampleUuid 2) = some r
      ∧ Stems (service.after sampleReplay) r r0 := by
  intro _
  have hstored : ((service.after sampleReplay).runs.get? (sampleUuid 2)).isSome = true := by
    decide +kernel
  obtain ⟨r, hr⟩ := Option.isSome_iff_exists.mp hstored
  obtain ⟨r0, hstems, -⟩ := replay_lineage sampleReplay _ r hr
  exact ⟨r, r0, hr, hstems⟩

end AgentRuntime.Lifecycle
