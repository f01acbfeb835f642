import AgentRuntime.Database.Rules
import AgentRuntime.Lib.Outcomes

/-!
# The advisory check and the charge agree

Admission looks at the provider budget without changing it; execution charges it. One skips rows
that are missing or from another window, the other creates or resets them first, and both then
compare the same number, `usedIn`, with the limit.

* `usedIn`: what a scope has used in a window;
* `observe_checkScopeBudget`, `run_openScope_refused`, `run_openScope_opened`: one scope of the
  check and of the charge;
* `budget_check_agrees_with_charge`: both scopes.
-/

namespace AgentRuntime.Database

open Lib Tx Table Domain

/-- The calls a scope has used in the window that starts at `window`. -/
def usedIn (s : Store) (window : ℤ) (scope : String) : ℕ :=
  match s.quotas.get? scope with
  | some row => if row.windowStart = window then row.used else 0
  | none => 0

variable {s : Store} {window limit : ℤ} {scope : String} (busy : Lock → Bool)

theorem usedIn_congr (window : ℤ) {s' : Store} (h : s'.quotas.get? scope = s.quotas.get? scope) :
    usedIn s' window scope = usedIn s window scope := by
  unfold usedIn
  rw [h]

theorem usedIn_missing (h : s.quotas.get? scope = none) : usedIn s window scope = 0 := by
  unfold usedIn
  rw [h]

theorem usedIn_current {row : ProviderQuota} (h : s.quotas.get? scope = some row)
    (hwindow : row.windowStart = window) : usedIn s window scope = row.used := by
  unfold usedIn
  rw [h]
  exact if_pos hwindow

theorem usedIn_stale {row : ProviderQuota} (h : s.quotas.get? scope = some row)
    (hwindow : row.windowStart ≠ window) : usedIn s window scope = 0 := by
  unfold usedIn
  rw [h]
  exact if_neg hwindow

/-- **One scope of the check** reads `usedIn` and changes nothing. -/
theorem observe_checkScopeBudget (hlimit : 1 ≤ limit) :
    (checkScopeBudget window scope limit).observe busy s
      = (if limit ≤ usedIn s window scope then .error providerCallsExceeded else .ok (), s) := by
  have hnot : ¬ limit ≤ ((0 : ℕ) : ℤ) := by omega
  unfold checkScopeBudget
  simp only [bind_eq, pure_eq, observe_bind, observe_read, Tx.follow_ok]
  cases hget : s.quotas.get? scope with
  | none =>
    rw [usedIn_missing hget, if_neg hnot]
    rfl
  | some row =>
    by_cases hwindow : row.windowStart = window
    · dsimp only
      rw [usedIn_current hget hwindow, if_neg (not_not.mpr hwindow)]
      split
      · rfl
      · rfl
    · dsimp only
      rw [usedIn_stale hget hwindow, if_pos hwindow, if_neg hnot]
      rfl

/-- What opening a scope leaves: its row is in the window, and no other one has changed. -/
structure Opened (s : Store) (window : ℤ) (scope : String) (s' : Store) : Prop where
  row : s'.quotas.get? scope = some ⟨scope, window, usedIn s window scope⟩
  others : ∀ other, other ≠ scope → s'.quotas.get? other = s.quotas.get? other

theorem ident_setQuota (window : ℤ) (used : ℕ) :
    Row.Keeps fun q : ProviderQuota => ⟨q.scope, window, used⟩ := fun _ => rfl

/-- The store after a row of the quotas was set. -/
def setQuota (s : Store) (scope : String) (window : ℤ) (used : ℕ) : Store :=
  { s with
    quotas := s.quotas.update scope (fun q => ⟨q.scope, window, used⟩)
      (ident_setQuota window used) }

theorem run_setQuota (used : ℕ) :
    (exec (.updateQuota scope window used)).run busy s = .ok ((), setQuota s scope window used) := rfl

theorem get?_setQuota (used : ℕ) (other : String) :
    (setQuota s scope window used).quotas.get? other
      = if other = scope then (s.quotas.get? other).map fun q => ⟨q.scope, window, used⟩
        else s.quotas.get? other := by
  unfold setQuota
  rw [get?_update]

theorem get?_setQuota_self {row : ProviderQuota} (used : ℕ) (h : s.quotas.get? scope = some row) :
    (setQuota s scope window used).quotas.get? scope = some ⟨scope, window, used⟩ := by
  have hscope : row.scope = scope := (get?_eq_some_iff.mp h).2
  rw [get?_setQuota, if_pos rfl, h, Option.map_some, hscope]

theorem opened_insert (window : ℤ) (hget : s.quotas.get? scope = none) :
    ∃ s', (exec (.insertQuota ⟨scope, window, 0⟩)).run busy s = .ok ((), s')
      ∧ Opened s window scope s' := by
  obtain ⟨quotas, hinsert⟩ : ∃ t, s.quotas.insert? ⟨scope, window, 0⟩ = some t := by
    refine insert?_isSome fun b hb => ?_
    have hne : b.scope ≠ scope := get?_eq_none_iff.mp hget b hb
    simpa [Row.clash, Row.ident] using hne
  refine ⟨{ s with quotas }, ?_, ?_, ?_⟩
  · have happly : Writes.apply (Write.insertQuota ⟨scope, window, 0⟩) s
        = .ok { s with quotas } := by
      show insertOr s.quotas _ _ = _
      unfold insertOr
      rw [hinsert]
    unfold exec
    rw [run_exec, happly]
    rfl
  · show quotas.get? scope = _
    rw [get?_insert hinsert, usedIn_missing hget]
    exact if_pos rfl
  · intro other hother
    show quotas.get? other = _
    rw [get?_insert hinsert]
    exact if_neg fun h => hother h.symm

/-- **A scope of the charge that is used up** raises. -/
theorem run_openScope_refused (hlimit : 1 ≤ limit) (h : limit ≤ usedIn s window scope) :
    (openScope window scope limit).run busy s = .error providerCallsExceeded := by
  have hpos : usedIn s window scope ≠ 0 := by omega
  unfold openScope
  simp only [bind_eq, pure_eq, run_bind, run_read, ok_bind]
  cases hget : s.quotas.get? scope with
  | none => exact absurd (usedIn_missing hget) hpos
  | some row =>
    have hwindow : row.windowStart = window := by
      by_contra hstale
      exact hpos (usedIn_stale hget hstale)
    rw [usedIn_current hget hwindow] at h
    dsimp only
    rw [if_neg (not_not.mpr hwindow), if_pos h]
    rfl

/-- **A scope of the charge that is not used up** is opened. -/
theorem run_openScope_opened (hlimit : 1 ≤ limit) (h : ¬ limit ≤ usedIn s window scope) :
    ∃ s', (openScope window scope limit).run busy s = .ok (usedIn s window scope, s')
      ∧ Opened s window scope s' := by
  have hpos : ¬ limit ≤ 0 := by omega
  unfold openScope
  simp only [bind_eq, pure_eq, run_bind, run_read, ok_bind]
  cases hget : s.quotas.get? scope with
  | none =>
    obtain ⟨s', hrun, hopened⟩ := opened_insert busy window hget
    refine ⟨s', ?_, hopened⟩
    simp only [run_bind, hrun, ok_bind, if_neg hpos, run_done, usedIn_missing hget]
  | some row =>
    by_cases hwindow : row.windowStart = window
    · have hscope : row.scope = scope := (get?_eq_some_iff.mp hget).2
      have hused := usedIn_current hget hwindow
      rw [hused] at h
      refine ⟨s, ?_, ?_, fun other _ => rfl⟩
      · dsimp only
        rw [if_neg (not_not.mpr hwindow), if_neg h, hused]
        rfl
      · rw [hget, hused, ← hwindow, ← hscope]
    · refine ⟨setQuota s scope window 0, ?_, ?_, fun other hother => ?_⟩
      · dsimp only
        rw [if_pos hwindow, if_neg hpos]
        simp only [run_bind, run_setQuota, ok_bind, run_done, usedIn_stale hget hwindow]
      · rw [get?_setQuota_self 0 hget, usedIn_stale hget hwindow]
      · rw [get?_setQuota, if_neg hother]

/-- The calls of one of the two scopes are used up. -/
def UsedUp (s : Store) (epoch : ℤ) (principal tenant : String) (limits : QuotaLimits) : Prop :=
  limits.principalCalls
      ≤ usedIn s (currentWindow epoch limits.windowSeconds) (principalScope principal)
    ∨ limits.tenantCalls
      ≤ usedIn s (currentWindow epoch limits.windowSeconds) (tenantScope tenant)

section Charge

variable {epoch : ℤ} {principal tenant : String} {limits : QuotaLimits}
  (hprincipal : 1 ≤ limits.principalCalls) (htenant : 1 ≤ limits.tenantCalls)

include hprincipal htenant

/-- **The check** raises exactly if one of the scopes is used up, and changes nothing. -/
theorem observe_checkProviderBudget (s : Store) (epoch : ℤ) (principal tenant : String) :
    (checkProviderBudget epoch principal tenant limits).observe busy s = (.ok (), s)
        ∧ ¬ UsedUp s epoch principal tenant limits
      ∨ (checkProviderBudget epoch principal tenant limits).observe busy s
          = (.error providerCallsExceeded, s) ∧ UsedUp s epoch principal tenant limits := by
  unfold checkProviderBudget UsedUp
  simp only [bind_eq, observe_bind, observe_checkScopeBudget busy hprincipal]
  by_cases hfirst : limits.principalCalls
      ≤ usedIn s (currentWindow epoch limits.windowSeconds) (principalScope principal)
  · rw [if_pos hfirst]
    exact .inr ⟨rfl, .inl hfirst⟩
  · rw [if_neg hfirst, Tx.follow_ok, observe_checkScopeBudget busy htenant]
    split
    · rename_i hsecond
      exact .inr ⟨rfl, .inr hsecond⟩
    · rename_i hsecond
      exact .inl ⟨rfl, not_or.mpr ⟨hfirst, hsecond⟩⟩

theorem run_chargeProviderCall_refused (h : UsedUp s epoch principal tenant limits) :
    (chargeProviderCall epoch principal tenant limits).run busy s
      = .error providerCallsExceeded := by
  unfold chargeProviderCall
  simp only [bind_eq, run_bind, run_lockIdentity, ok_bind]
  by_cases hfirst : limits.principalCalls
      ≤ usedIn s (currentWindow epoch limits.windowSeconds) (principalScope principal)
  · rw [run_openScope_refused busy hprincipal hfirst]
    rfl
  · obtain ⟨s1, hrun, hopened⟩ := run_openScope_opened busy hprincipal hfirst
    have hsame := usedIn_congr (currentWindow epoch limits.windowSeconds)
      (hopened.others _ (principalScope_ne_tenantScope principal tenant).symm)
    rw [hrun, ok_bind, run_openScope_refused busy htenant (hsame ▸ h.resolve_left hfirst)]
    rfl

/-- **A charge that is not refused** leaves both rows in the window with one call more. -/
theorem run_chargeProviderCall_charged (h : ¬ UsedUp s epoch principal tenant limits) :
    ∃ s', (chargeProviderCall epoch principal tenant limits).run busy s = .ok ((), s')
      ∧ ∀ scope ∈ [principalScope principal, tenantScope tenant],
          s'.quotas.get? scope = some ⟨scope, currentWindow epoch limits.windowSeconds,
            usedIn s (currentWindow epoch limits.windowSeconds) scope + 1⟩ := by
  obtain ⟨hfirst, hsecond⟩ := not_or.mp h
  have hne := principalScope_ne_tenantScope principal tenant
  obtain ⟨s1, hrun1, hopened1⟩ := run_openScope_opened busy hprincipal hfirst
  have hsame := usedIn_congr (currentWindow epoch limits.windowSeconds) (hopened1.others _ hne.symm)
  obtain ⟨s2, hrun2, hopened2⟩ := run_openScope_opened busy htenant (hsame.symm ▸ hsecond)
  -- the row of the principal is still there when the row of the tenant is opened
  have hrow := (hopened2.others _ hne).trans hopened1.row
  set window := currentWindow epoch limits.windowSeconds with hwindow
  set charged := setQuota s2 (principalScope principal) window
    (usedIn s window (principalScope principal) + 1) with hcharged
  refine ⟨setQuota charged (tenantScope tenant) window
    (usedIn s1 window (tenantScope tenant) + 1), ?_, ?_⟩
  · unfold chargeProviderCall
    simp only [bind_eq, run_bind, run_lockIdentity, ok_bind, ← hwindow, hrun1, hrun2,
      run_setQuota, ← hcharged]
  · intro scope hscope
    rcases List.mem_pair.mp hscope with rfl | rfl
    · rw [get?_setQuota, if_neg hne, hcharged, get?_setQuota_self _ hrow]
    · have htenantRow : charged.quotas.get? (tenantScope tenant)
          = some ⟨tenantScope tenant, window, usedIn s1 window (tenantScope tenant)⟩ := by
        rw [hcharged, get?_setQuota, if_neg hne.symm, hopened2.row]
      rw [get?_setQuota_self _ htenantRow, hsame]

end Charge

/-- **The advisory check and the charge agree.** With limits of at least one call, whatever rows
there are and whatever the time: the check raises exactly if the charge does, neither raises
anything else, the check changes nothing, and a successful charge leaves both rows in the current
window with one call more than the check has seen. -/
theorem budget_check_agrees_with_charge (epoch : ℤ) (principal tenant : String)
    (limits : QuotaLimits) (hprincipal : 1 ≤ limits.principalCalls)
    (htenant : 1 ≤ limits.tenantCalls) (s : Store) :
    ((checkProviderBudget epoch principal tenant limits).run busy s = .error providerCallsExceeded
        ↔ (chargeProviderCall epoch principal tenant limits).run busy s
            = .error providerCallsExceeded)
    ∧ (∀ e, (checkProviderBudget epoch principal tenant limits).run busy s = .error e
        ∨ (chargeProviderCall epoch principal tenant limits).run busy s = .error e →
        e = providerCallsExceeded)
    ∧ ((checkProviderBudget epoch principal tenant limits).observe busy s).2 = s
    ∧ (∀ s', (chargeProviderCall epoch principal tenant limits).run busy s = .ok ((), s') →
        ∀ scope ∈ [principalScope principal, tenantScope tenant],
          s'.quotas.get? scope = some ⟨scope, currentWindow epoch limits.windowSeconds,
            usedIn s (currentWindow epoch limits.windowSeconds) scope + 1⟩) := by
  rw [run_eq_observe]
  obtain ⟨hcheck, hopen⟩ | ⟨hcheck, hfull⟩ :=
    observe_checkProviderBudget busy hprincipal htenant s epoch principal tenant
  · obtain ⟨s1, hcharge, hrows⟩ := run_chargeProviderCall_charged busy hprincipal htenant hopen
    rw [hcheck, hcharge]
    refine ⟨by simp, by simp, rfl, ?_⟩
    rintro s' hs'
    cases hs'
    exact hrows
  · rw [hcheck, run_chargeProviderCall_refused busy hprincipal htenant hfull]
    refine ⟨by simp, ?_, rfl, by simp⟩
    rintro e (he | he)
    · cases he
      rfl
    · cases he
      rfl

/-- The row of the principal is of an earlier window and starts again, the row of the tenant is of the
current one and goes on. -/
theorem budget_check_agrees_next_window :
    let charge (epoch : ℤ) (principal : String) :=
      chargeProviderCall epoch principal "acme" QuotaLimits.default
    let s := (((charge 3600 "ada").bind fun _ => charge 7200 "bob").observe (fun _ => false)
      Store.empty).2
    s.quotas.rows = [⟨"p:ada", 3600, 1⟩, ⟨"t:acme", 7200, 1⟩, ⟨"p:bob", 7200, 1⟩]
      ∧ ∃ s', (charge 7200 "ada").run (fun _ => false) s = .ok ((), s')
        ∧ s'.quotas.get? "p:ada" = some ⟨"p:ada", 7200, 1⟩
        ∧ s'.quotas.get? "t:acme" = some ⟨"t:acme", 7200, 2⟩ := by
  intro charge s
  have hrun : ((charge 7200 "ada").run (fun _ => false) s).isOk = true := by decide +kernel
  cases hs : (charge 7200 "ada").run (fun _ => false) s with
  | error e =>
    rw [hs] at hrun
    cases hrun
  | ok p =>
    obtain ⟨-, -, -, hrows⟩ := budget_check_agrees_with_charge (fun _ => false) 7200 "ada" "acme"
      QuotaLimits.default (by decide) (by decide) s
    exact ⟨by decide +kernel, p.2, rfl, (hrows _ hs "p:ada" (by decide)).trans (by decide +kernel),
      (hrows _ hs "t:acme" (by decide)).trans (by decide +kernel)⟩

end AgentRuntime.Database
