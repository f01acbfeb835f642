import AgentRuntime.Security.Envelope

/-!
# Preview and erasure

Which tenants can be erased is written twice: as the `WHERE` clause of the preview and as the
checks of the erasure. Both say the same of every tenant, so a drain — preview a page, erase what
it lists, and again — erases every eligible tenant once and ends.

* `Eligible`, `mem_candidates`: the tenants the preview selects;
* `run_eraseTenantKey`: what an erasure with a cutoff returns and leaves;
* `candidates_erased`: erasing a tenant takes it out of the preview and nothing else;
* `drain`: pages until nothing is left; `run_drain` — what it erases;
* `preview_agrees_with_erasure`: the two together.
-/

namespace AgentRuntime.Security

open Lib Domain Database

/-! ### The selection -/

/-- The tenant has a row that the preview selects. -/
def Eligible (cutoff : Timestamp) (s : Vault) (tenantId : String) : Prop :=
  ∃ row, s.2.keys.get? tenantId = some row ∧ isCandidate cutoff s row = true

variable {cutoff : Timestamp} {s : Vault} {t : String}

theorem mem_candidates : t ∈ candidates cutoff s ↔ Eligible cutoff s t := by
  unfold candidates Eligible
  rw [List.mem_insertionSort, List.mem_map]
  constructor
  · rintro ⟨row, hrow, rfl⟩
    obtain ⟨hmem, hcandidate⟩ := List.mem_filter.mp hrow
    exact ⟨row, Table.get?_eq_some_iff.mpr ⟨hmem, rfl⟩, hcandidate⟩
  · rintro ⟨row, hget, hcandidate⟩
    obtain ⟨hmem, hid⟩ := Table.get?_eq_some_iff.mp hget
    exact ⟨row, List.mem_filter.mpr ⟨hmem, hcandidate⟩, hid⟩

theorem candidates_sorted : (candidates cutoff s).Pairwise (· ≤ ·) :=
  List.pairwise_insertionSort _ _

theorem candidates_nodup : (candidates cutoff s).Nodup := by
  refine (List.perm_insertionSort _ _).nodup_iff.mpr ?_
  exact (s.2.keys.ids_nodup).sublist (List.filter_sublist.map _)

/-! ### The erasure -/

/-- The vault after the tenant's key was destroyed. -/
def erased (c : KeyCall) (tenantId principalId : String) (s : Vault) : Vault :=
  (s.1, { keys := s.2.keys.update tenantId
            (assignAll KeySet.assign [.wrappedDek none, .destroyedAt (some c.now)])
            (assignAll_keeps KeySet.ident_assign [.wrappedDek none, .destroyedAt (some c.now)])
          audit := s.2.audit ++ [erasureRecord c tenantId principalId] })

theorem get?_erased (c : KeyCall) (principalId : String) (t' : String) :
    (erased c t principalId s).2.keys.get? t'
      = if t' = t then (s.2.keys.get? t').map fun row =>
          { row with wrappedDek := none, destroyedAt := some c.now }
        else s.2.keys.get? t' := by
  unfold erased
  rw [Table.get?_update]
  rfl

theorem run_destroyKey (busy : Lock → Bool) (c : KeyCall) (principalId : String) :
    (destroyKey c t principalId).run busy s = .ok (true, erased c t principalId s) := rfl

/-- **The checks of an erasure** with a cutoff are the selection of the preview. -/
theorem run_eraseLive {row : TenantKey} (busy : Lock → Bool) (c : KeyCall) (principalId : String)
    (dryRun : Bool) (confirmTenant : Option String)
    (hconfirm : dryRun = true ∨ confirmTenant = some t) (hid : row.tenantId = t)
    (hlive : row.destroyedAt = none) :
    (eraseLive c t principalId dryRun confirmTenant (some cutoff) row).run busy s
      = .ok (isCandidate cutoff s row,
          if isCandidate cutoff s row = true ∧ dryRun = false then erased c t principalId s
          else s) := by
  unfold eraseLive isCandidate
  rw [hid, hlive]
  by_cases hfresh : cutoff < row.lastEncryptedAt
  · simp [hfresh]
  · cases hblocked : hasBlockingRun t (some cutoff) s.1 with
    | true => simp [hfresh, hblocked]
    | false =>
      cases dryRun with
      | true => simp [hfresh, hblocked, not_lt.mp hfresh]
      | false =>
        have hsame : confirmTenant = some t := by simpa using hconfirm
        simp [hfresh, hblocked, not_lt.mp hfresh, hsame, run_destroyKey]

instance : Decidable (Eligible cutoff s t) :=
  decidable_of_iff (t ∈ candidates cutoff s) mem_candidates

/-- **An erasure with a cutoff**, as a dry run or confirmed: it returns whether the tenant is
eligible, and only then and only if confirmed it destroys the key. -/
theorem run_eraseTenantKey (busy : Lock → Bool) (c : KeyCall) (principalId : String)
    (dryRun : Bool) (confirmTenant : Option String)
    (hconfirm : dryRun = true ∨ confirmTenant = some t) :
    (eraseTenantKey c t principalId dryRun confirmTenant (some cutoff)).run busy s
      = .ok (decide (Eligible cutoff s t),
          if Eligible cutoff s t ∧ dryRun = false then erased c t principalId s else s) := by
  unfold eraseTenantKey lockTenant lockedKey
  simp only [Tx.bind_eq, Tx.run_bind, Tx.run_acquire, Tx.ok_bind, Tx.run_read]
  cases hget : s.2.keys.get? t with
  | none =>
    have hnot : ¬ Eligible cutoff s t := by
      rintro ⟨row, hrow, -⟩
      rw [hget] at hrow
      cases hrow
    simp [hnot]
  | some row =>
    have hrow : Eligible cutoff s t ↔ isCandidate cutoff s row = true := by
      unfold Eligible
      rw [hget]
      simp
    have hid : row.tenantId = t := (Table.get?_eq_some_iff.mp hget).2
    cases hdestroyed : row.destroyedAt with
    | some time =>
      have hnot : ¬ Eligible cutoff s t := by
        rw [hrow, isCandidate, hdestroyed]
        simp
      simp [hdestroyed, hnot]
    | none =>
      simp only [hdestroyed, Option.isSome_none, Bool.false_eq_true, if_false]
      rw [run_eraseLive busy c principalId dryRun confirmTenant hconfirm hid hdestroyed]
      simp [hrow]

/-! ### What an erasure leaves to erase -/

theorem eligible_erased (c : KeyCall) (principalId : String) {t' : String} :
    Eligible cutoff (erased c t principalId s) t' ↔ t' ≠ t ∧ Eligible cutoff s t' := by
  unfold Eligible
  rw [get?_erased]
  by_cases hsame : t' = t
  · rw [if_pos hsame]
    refine iff_of_false ?_ fun h => h.1 hsame
    rintro ⟨row, hget, hcandidate⟩
    obtain ⟨old, -, rfl⟩ := Option.map_eq_some_iff.mp hget
    simp [isCandidate] at hcandidate
  · rw [if_neg hsame]
    simp only [ne_eq, hsame, not_false_eq_true, true_and]
    rfl

/-- Lists in strict order with the same members are the same. -/
theorem eq_of_mem_iff {xs ys : List String} (hxs : xs.Pairwise (· ≤ ·)) (hys : ys.Pairwise (· ≤ ·))
    (hxs' : xs.Nodup) (hys' : ys.Nodup) (h : ∀ t, t ∈ xs ↔ t ∈ ys) : xs = ys :=
  ((List.perm_ext_iff_of_nodup hxs' hys').mpr h).eq_of_pairwise' hxs hys

/-- **Erasing the first candidate** leaves the others. -/
theorem candidates_erased (c : KeyCall) (principalId : String) {rest : List String}
    (h : candidates cutoff s = t :: rest) :
    candidates cutoff (erased c t principalId s) = rest := by
  have hsorted : (t :: rest).Pairwise (· ≤ ·) := h ▸ candidates_sorted
  have hnodup : (t :: rest).Nodup := h ▸ candidates_nodup
  refine eq_of_mem_iff candidates_sorted hsorted.of_cons candidates_nodup hnodup.of_cons ?_
  intro t'
  rw [mem_candidates, eligible_erased, ← mem_candidates, h, List.mem_cons]
  constructor
  · rintro ⟨hne, heq | hmem⟩
    · exact absurd heq hne
    · exact hmem
  · intro hmem
    refine ⟨?_, .inr hmem⟩
    rintro rfl
    exact (List.nodup_cons.mp hnodup).1 hmem

/-! ### Draining -/

/-- How many tenants a preview lists at most. -/
def pageSize (limit : ℤ) : ℕ := (max 1 (min limit 100)).toNat

theorem run_retentionCandidates (busy : Lock → Bool) (limit : ℤ) :
    (retentionCandidates cutoff limit).run busy s
      = .ok ((candidates cutoff s).take (pageSize limit), s) := rfl

/-- Erase the listed tenants one after the other; the ones that were erased. -/
def eraseListed (call : String → KeyCall) (principalId : String) (cutoff : Timestamp) :
    List String → VaultTx (List String)
  | [] => pure []
  | t :: ts => do
      let gone ← eraseTenantKey (call t) t principalId false (some t) (some cutoff)
      let rest ← eraseListed call principalId cutoff ts
      pure (if gone then t :: rest else rest)

/-- Preview a page and erase what it lists, `rounds` times; the ones that were erased. -/
def drain (calls : ℕ → String → KeyCall) (principalId : String) (cutoff : Timestamp) (limit : ℤ) :
    ℕ → VaultTx (List String)
  | 0 => pure []
  | rounds + 1 => do
      let listed ← retentionCandidates cutoff limit
      let gone ← eraseListed (calls rounds) principalId cutoff listed
      let rest ← drain calls principalId cutoff limit rounds
      pure (gone ++ rest)

/-- **A page**: what a preview lists first is erased, all of it and nothing else. -/
theorem run_eraseListed (busy : Lock → Bool) (call : String → KeyCall) (principalId : String)
    (listed : List String) {rest : List String} (h : candidates cutoff s = listed ++ rest) :
    ∃ s', (eraseListed call principalId cutoff listed).run busy s = .ok (listed, s')
      ∧ candidates cutoff s' = rest := by
  induction listed generalizing s with
  | nil => exact ⟨s, rfl, h⟩
  | cons t ts ih =>
    have hfirst : Eligible cutoff s t := by
      rw [← mem_candidates, h]
      exact List.mem_cons_self
    obtain ⟨s', hrun, hrest⟩ := ih (candidates_erased (call t) principalId h)
    refine ⟨s', ?_, hrest⟩
    unfold eraseListed
    simp only [Tx.bind_eq, Tx.run_bind, run_eraseTenantKey busy (call t) principalId false _
      (.inr rfl), hfirst, true_and, if_true, Tx.ok_bind, hrun]
    simp

/-- **A drain** erases the candidates in their order and leaves none. -/
theorem run_drain (busy : Lock → Bool) (calls : ℕ → String → KeyCall) (principalId : String)
    (limit : ℤ) (rounds : ℕ) (h : (candidates cutoff s).length ≤ rounds * pageSize limit) :
    ∃ s', (drain calls principalId cutoff limit rounds).run busy s
        = .ok (candidates cutoff s, s')
      ∧ candidates cutoff s' = [] := by
  induction rounds generalizing s with
  | zero =>
    have hnone : candidates cutoff s = [] := List.length_eq_zero_iff.mp (by omega)
    rw [hnone]
    exact ⟨s, rfl, hnone⟩
  | succ rounds ih =>
    -- the page is the front of the candidates; the rest takes one round less
    obtain ⟨s1, hpage, hrest⟩ := run_eraseListed busy (calls rounds) principalId
      ((candidates cutoff s).take (pageSize limit)) (List.take_append_drop _ _).symm
    have hfewer : (candidates cutoff s1).length ≤ rounds * pageSize limit := by
      rw [hrest, List.length_drop]
      rw [Nat.succ_mul] at h
      omega
    obtain ⟨s', hrun, hnone⟩ := ih hfewer
    refine ⟨s', ?_, hnone⟩
    unfold drain
    simp only [Tx.bind_eq, Tx.run_bind, run_retentionCandidates, Tx.ok_bind, hpage, hrun, hrest,
      Tx.pure_eq, Tx.run_done, List.take_append_drop]

/-! ### Preview and erasure agree -/

/-- The call destroyed the tenant's key: it was there before and is not there after. -/
def DestroysKey (s s' : Vault) (tenantId : String) : Prop :=
  ∃ row row', s.2.keys.get? tenantId = some row ∧ row.destroyedAt = none
    ∧ s'.2.keys.get? tenantId = some row' ∧ row'.wrappedDek = none ∧ row'.destroyedAt ≠ none

theorem destroysKey_erased (c : KeyCall) (principalId : String) (h : Eligible cutoff s t) :
    DestroysKey s (erased c t principalId s) t := by
  obtain ⟨row, hget, hcandidate⟩ := h
  refine ⟨row, { row with wrappedDek := none, destroyedAt := some c.now }, hget, ?_, ?_, rfl, ?_⟩
  · unfold isCandidate at hcandidate
    rw [Bool.and_eq_true, Bool.and_eq_true, Option.isNone_iff_eq_none] at hcandidate
    exact hcandidate.1.1
  · rw [get?_erased, if_pos rfl, hget]
    rfl
  · simp

theorem not_destroysKey_self : ¬ DestroysKey s s t := by
  rintro ⟨row, row', hget, hlive, hget', -, hdestroyed⟩
  rw [hget] at hget'
  exact hdestroyed (Option.some.inj hget' ▸ hlive)

/-- **Preview and erasure agree.** A dry run returns whether the tenant is selected by the
preview, and a confirmed erasure destroys the key exactly then; a preview of at most a hundred
eligible tenants lists them all in order; and a drain ends with an empty preview after it has erased
each eligible tenant once, however many there are. -/
theorem preview_agrees_with_erasure (busy : Lock → Bool) (cutoff : Timestamp) (s : Vault)
    (principalId : String) :
    (∀ c t confirmTenant,
      (eraseTenantKey c t principalId true confirmTenant (some cutoff)).run busy s
        = .ok (decide (Eligible cutoff s t), s))
    ∧ (∀ c t, ∃ s', (eraseTenantKey c t principalId false (some t) (some cutoff)).run busy s
          = .ok (decide (Eligible cutoff s t), s')
        ∧ (DestroysKey s s' t ↔ Eligible cutoff s t))
    ∧ ((candidates cutoff s).length ≤ 100 →
        ∃ listed, (retentionCandidates cutoff 100).run busy s = .ok (listed, s)
          ∧ (∀ t, t ∈ listed ↔ Eligible cutoff s t) ∧ listed.Pairwise (· < ·))
    ∧ (∀ calls limit rounds, (candidates cutoff s).length ≤ rounds * pageSize limit →
        ∃ gone s', (drain calls principalId cutoff limit rounds).run busy s = .ok (gone, s')
          ∧ (retentionCandidates cutoff limit).run busy s' = .ok ([], s')
          ∧ gone.Nodup ∧ ∀ t, t ∈ gone ↔ Eligible cutoff s t) := by
  refine ⟨?dryRun, ?confirmed, ?page, ?drained⟩
  case dryRun =>
    intro c t confirmTenant
    rw [run_eraseTenantKey busy c principalId true confirmTenant (.inl rfl)]
    simp
  case confirmed =>
    intro c t
    refine ⟨_, run_eraseTenantKey busy c principalId false (some t) (.inr rfl), ?_⟩
    by_cases heligible : Eligible cutoff s t
    · rw [if_pos ⟨heligible, rfl⟩]
      exact iff_of_true (destroysKey_erased c principalId heligible) heligible
    · rw [if_neg fun h => heligible h.1]
      exact iff_of_false not_destroysKey_self heligible
  case page =>
    intro hfew
    refine ⟨candidates cutoff s, ?_, fun t => mem_candidates, ?_⟩
    · have hpage : pageSize 100 = 100 := by decide
      rw [run_retentionCandidates, hpage, List.take_of_length_le hfew]
    · exact candidates_sorted.imp₂ (fun _ _ hle hne => lt_of_le_of_ne hle hne) candidates_nodup
  case drained =>
    intro calls limit rounds hrounds
    obtain ⟨s', hrun, hnone⟩ := run_drain busy calls principalId limit rounds hrounds
    refine ⟨_, s', hrun, ?_, candidates_nodup, fun t => mem_candidates⟩
    rw [run_retentionCandidates, hnone, List.take_nil]

/-- Three tenants with pages of two: two rounds erase them all. -/
theorem drain_two_pages :
    let c := plainCall ⟨5, by decide⟩
    let row := fun t => TenantKey.mk t (some []) ⟨0, Nat.zero_le _⟩ none
    let s : Vault := (Store.empty, ⟨⟨["b", "c", "a"].map row, by decide⟩, []⟩)
    (candidates ⟨1, by decide⟩ s).length ≤ 100
      ∧ ∃ gone s', (drain (fun _ _ => c) "ops" ⟨1, by decide⟩ 2 2).run (fun _ => false) s
          = .ok (gone, s') ∧ gone.Nodup := by
  intro c row s
  obtain ⟨-, -, -, drained⟩ :=
    preview_agrees_with_erasure (fun _ => false) ⟨1, by decide⟩ s "ops"
  obtain ⟨gone, s', hrun, -, hnodup, -⟩ := drained (fun _ _ => c) 2 2 (by decide +kernel)
  exact ⟨by decide +kernel, gone, s', hrun, hnodup⟩

end AgentRuntime.Security
