import AgentRuntime.Concurrency.QuotaBounds
import AgentRuntime.Database.QuotaChecks
import AgentRuntime.Lib.Commits

/-!
# The ledger of committed charges

A counter forgets: it holds what was spent in one window and is reset when a charge finds it in
another. The sessions remember, so the charges of a scope in a window are counted over all committed
transactions. Every charge reads the database clock after it has taken the locks of both scopes; as
long as this clock does not go back, a counter never returns to a window that it has left. So the
counter of the latest window is exact, and no window of a scope is ever charged beyond the limit.

* `chargesIn`: the sessions that have committed a charge to a scope in a window;
* `replay_usedIn`: what a transaction does to a counter is what its writes count;
* `Clocked`: the readings of a clock that does not go back;
* `Ledger`, `ledger_after`: the counters and the committed charges agree, after every run.
-/

namespace AgentRuntime.Concurrency

open Lib Domain Application Database Lifecycle Execution

/-! ### Counting writes -/

/-- The write counts one call of the scope in the window. -/
def raises (k : Scope) (window : ℤ) : Write → Bool
  | .updateQuota scope start used => decide (scope = k.text ∧ start = window ∧ 0 < used)
  | _ => false

/-- The write is about the counter of the scope. -/
def OnCounter (k : Scope) : Write → Prop
  | .insertQuota q => q.scope = k.text
  | .updateQuota scope _ _ => scope = k.text
  | _ => False

/-- The write leaves counters alone, or leaves one in the window. -/
def InWindow (window : ℤ) : Write → Prop
  | .insertQuota q => q.windowStart = window
  | .updateQuota _ start _ => start = window
  | _ => True

section Counting

variable {k : Scope} {window : ℤ} {w : Write} {ws : List Write} {s u : Store}
  {limits : Option QuotaLimits} {L : List (Hold Resource)}

theorem onCounter_of_raises (h : raises k window w = true) : OnCounter k w := by
  cases w with
  | updateQuota scope start used => exact (of_decide_eq_true h).1
  | _ => cases h

theorem spares_onCounter (h : ¬ Charges w) : ¬ OnCounter k w := by
  cases w with
  | insertQuota q => exact absurd trivial h
  | updateQuota scope start used => exact absurd trivial h
  | _ => exact id

/-- A write about something else leaves the counter of the scope. -/
theorem apply_counter (hother : ¬ OnCounter k w) (happly : Writes.apply w s = .ok u) :
    u.quotas.get? k.text = s.quotas.get? k.text := by
  cases applied happly with
  | insertQuota q hins =>
    rw [Table.get?_insert hins]
    exact if_neg hother
  | updateQuota scope start used => rw [Table.get?_update, if_neg fun h => hother h.symm]
  | _ => rfl

theorem applyAll_counter (hother : ∀ w ∈ ws, ¬ OnCounter k w) (happly : applyAll ws s = .ok u) :
    u.quotas.get? k.text = s.quotas.get? k.text := by
  induction ws generalizing s with
  | nil =>
    cases happly
    rfl
  | cons w ws ih =>
    obtain ⟨s1, hw, hws⟩ := applyAll_cons_ok.mp happly
    rw [ih (fun w' hw' => hother w' (List.mem_cons_of_mem _ hw')) hws]
    exact apply_counter (hother w List.mem_cons_self) hw

/-- **One write.** Opening a counter changes nothing that was spent in its window. -/
theorem apply_usedIn (hlegal : Legal limits L s w) (hwindow : InWindow window w)
    (happly : Writes.apply w s = .ok u) :
    usedIn u window k.text = usedIn s window k.text + if raises k window w then 1 else 0 := by
  by_cases hon : OnCounter k w
  · cases w with
    | insertQuota q =>
      obtain ⟨t, hins, rfl⟩ := insertOr_ok happly
      have hmissing : s.quotas.get? k.text = none := by
        have hfresh := Table.get?_insert_fresh hins
        rwa [show Row.id q = k.text from hon] at hfresh
      have hget : ({ s with quotas := t } : Store).quotas.get? k.text = some q := by
        rw [Table.get?_insert hins]
        exact if_pos hon
      rw [usedIn_missing hmissing, usedIn_current hget hwindow, hlegal.2]
      rfl
    | updateQuota scope start used =>
      obtain ⟨-, row, hrow, hcount⟩ := hlegal
      cases hwindow
      cases hon
      cases happly
      have hget : (setQuota s k.text window used).quotas.get? k.text
          = some ⟨k.text, window, used⟩ := get?_setQuota_self used hrow
      have hafter : usedIn (setQuota s k.text window used) window k.text = used :=
        usedIn_current hget rfl
      refine hafter.trans ?_
      rcases hcount with ⟨hstale, rfl⟩ | ⟨hcurrent, rfl, -⟩
      · rw [usedIn_stale hrow hstale]
        simp [raises]
      · rw [usedIn_current hrow hcurrent]
        simp [raises]
    | _ => exact absurd hon id
  · have hsame : usedIn u window k.text = usedIn s window k.text :=
      usedIn_congr _ (apply_counter hon happly)
    have hno : raises k window w = false := by
      cases hr : raises k window w with
      | false => rfl
      | true => exact absurd (onCounter_of_raises hr) hon
    rw [hsame, hno]
    rfl

/-- **All writes of a transaction** in one window count what they raise. -/
theorem replay_usedIn (h : Replay (storeDiscipline limits) L ws s u)
    (hwindow : ∀ w ∈ ws, InWindow window w) :
    usedIn u window k.text = usedIn s window k.text + ws.countP (raises k window) := by
  induction h with
  | nil s => rfl
  | cons hlegal happly _ ih =>
    rw [ih fun w hw => hwindow w (List.mem_cons_of_mem _ hw),
      apply_usedIn hlegal (hwindow _ List.mem_cons_self) happly, List.countP_cons]
    omega

end Counting

/-! ### Committed charges -/

/-- The operation charges a provider call. -/
def IsCharge (i : Input) : Prop :=
  ∃ limits runId attemptId workerId, i.op = .charge limits runId attemptId workerId

/-- The sessions that have committed a charge to the scope in the window. -/
def chargesIn (c : Config Input Store Write Lock PyError Answer Resource) (k : Scope)
    (window : ℤ) : Finset ℕ :=
  (Finset.range c.sessions.length).filter fun n => (c.writes n).any (raises k window) = true

variable {n : ℕ} {i : Input}

section Charges

variable {c c' : Config Input Store Write Lock PyError Answer Resource} {k : Scope} {window : ℤ}

theorem mem_chargesIn : n ∈ chargesIn c k window ↔ (c.writes n).any (raises k window) = true := by
  unfold chargesIn
  rw [Finset.mem_filter, Finset.mem_range, and_iff_right_iff_imp]
  intro h
  cases ho : c.outcome? n with
  | none =>
    unfold Config.writes at h
    rw [ho] at h
    cases h
  | some o =>
    obtain ⟨i, a, ws⟩ := o
    exact (List.getElem?_eq_some_iff.mp (Config.outcome?_eq_some.mp ho)).1

theorem writes_congr (h : c'.outcome? n = c.outcome? n) : c'.writes n = c.writes n := by
  unfold Config.writes
  rw [h]

theorem chargesIn_quiet (h : ∀ n, c'.outcome? n = c.outcome? n) :
    chargesIn c' k window = chargesIn c k window := by
  ext n
  rw [mem_chargesIn, mem_chargesIn, writes_congr (h n)]

/-- A commit adds its session to the charges if its writes count a call. -/
theorem card_chargesIn_commit {a : Answer} {ws : List Write} (hnone : c.outcome? n = none)
    (hnew : c'.outcome? n = some (i, a, ws)) (hold : ∀ m, m ≠ n → c'.outcome? m = c.outcome? m) :
    (chargesIn c' k window).card
      = (chargesIn c k window).card + if ws.any (raises k window) then 1 else 0 := by
  have hwrites : c'.writes n = ws := by
    unfold Config.writes
    rw [hnew]
    rfl
  have hbefore : n ∉ chargesIn c k window := by
    rw [mem_chargesIn]
    unfold Config.writes
    rw [hnone]
    exact Bool.false_ne_true
  have hother (m : ℕ) (hm : m ≠ n) :
      m ∈ chargesIn c' k window ↔ m ∈ chargesIn c k window := by
    rw [mem_chargesIn, mem_chargesIn, writes_congr (hold m hm)]
  by_cases hraises : ws.any (raises k window) = true
  · have hinsert : chargesIn c' k window = insert n (chargesIn c k window) := by
      ext m
      rw [Finset.mem_insert]
      by_cases hm : m = n
      · rw [hm, mem_chargesIn, hwrites]
        simp [hraises]
      · rw [hother m hm]
        simp [hm]
    rw [hinsert, Finset.card_insert_of_notMem hbefore, if_pos hraises]
  · have hsame : chargesIn c' k window = chargesIn c k window := by
      ext m
      by_cases hm : m = n
      · rw [hm, mem_chargesIn, hwrites]
        exact ⟨fun h => absurd h hraises, fun h => absurd h hbefore⟩
      · exact hother m hm
    rw [hsame, if_neg hraises]
    rfl

end Charges

/-! ### What a commit does to a counter -/

variable {scope : String}

section Effect

variable {i : Input} {a : Answer} {L : List (Hold Resource)} {ws : List Write} {s v : Store}
  {k : Scope} {limits : QuotaLimits}

/-- Only charges touch the counters. -/
theorem Post.spares (h : Post i a L ws v) (hi : ¬ IsCharge i) : ∀ w ∈ ws, ¬ Charges w := by
  have haccept {clientId key : String}
      (h : ∃ p, a = .run p.1 p.2 ∧ AcceptPost i.call clientId key p ws v) :
      ∀ w ∈ ws, ¬ Charges w := by
    obtain ⟨p, -, hpost⟩ := h
    cases hpost with
    | replayed holder hid => exact fun w hw => absurd hw List.not_mem_nil
    | created events hclient hkey =>
      intro w hw hcharges
      rcases List.mem_cons.mp hw with rfl | hw
      · exact hcharges
      · rcases List.mem_cons.mp hw with rfl | hw
        · exact hcharges
        · obtain ⟨e, -, rfl⟩ := List.mem_map.mp hw
          exact hcharges
  obtain ⟨op, call, busy⟩ := i
  cases op with
  | submit => exact haccept h
  | submitRegression => exact haccept h
  | replay => exact haccept h
  | claim =>
    obtain ⟨-, -, -, hworks⟩ := h
    exact fun w hw => (hworks w hw).spares
  | charge quotas runId attemptId workerId =>
    exact absurd ⟨quotas, runId, attemptId, workerId, rfl⟩ hi
  | _ => exact h

variable {w : Write}

theorem opening_inWindow {k' : Scope} {window : ℤ} (h : Opening k' window w) :
    InWindow window w ∧ ∀ window', raises k window' w = false := by
  rcases h with rfl | rfl
  · exact ⟨rfl, fun _ => rfl⟩
  · exact ⟨rfl, fun _ => by simp [raises]⟩

variable {runId attemptId : Uuid} {workerId : String} {run : Run}

variable {c : Call}

/-- A charge stays in its window. -/
theorem Charged.inWindow (h : Charged limits c runId attemptId workerId run L ws v) :
    ∀ w ∈ ws, InWindow (currentWindow c.epoch limits.windowSeconds) w := by
  obtain ⟨opens, used1, used2, rfl, hopens⟩ := h.writes
  intro w hw
  rcases List.mem_append.mp hw with hw | hw
  · obtain ⟨k', -, hopening⟩ := hopens w hw
    exact (opening_inWindow (k := k') hopening).1
  · simp only [List.mem_cons, List.not_mem_nil, or_false] at hw
    rcases hw with rfl | rfl
    · rfl
    · rfl

/-- **A charge counts one call** of each of its scopes. -/
theorem Charged.countP (h : Charged limits c runId attemptId workerId run L ws v)
    (hk : k ∈ scopes run) :
    ws.countP (raises k (currentWindow c.epoch limits.windowSeconds)) = 1 := by
  obtain ⟨opens, used1, used2, rfl, hopens⟩ := h.writes
  have hnone : opens.countP (raises k (currentWindow c.epoch limits.windowSeconds)) = 0 := by
    rw [List.countP_eq_zero]
    intro w hw
    obtain ⟨k', -, hopening⟩ := hopens w hw
    rw [(opening_inWindow hopening).2]
    exact Bool.false_ne_true
  rw [List.countP_append, hnone]
  have hne := principalScope_ne_tenantScope (orElseText run.principalId run.clientId) run.clientId
  simp only [scopes, List.mem_cons, List.not_mem_nil, or_false] at hk
  rcases hk with rfl | rfl
  · simp [raises, Scope.text, hne.symm]
  · simp [raises, Scope.text, hne]

/-- A charge is about the counters of its run only. -/
theorem Charged.onCounter (h : Charged limits c runId attemptId workerId run L ws v) (hw : w ∈ ws)
    (hon : OnCounter k w) : k ∈ scopes run := by
  obtain ⟨opens, used1, used2, rfl, hopens⟩ := h.writes
  rcases List.mem_append.mp hw with hw | hw
  · obtain ⟨k', hk', hopening⟩ := hopens w hw
    rcases hopening with rfl | rfl
    · exact Scope.text_injective hon ▸ hk'
    · exact Scope.text_injective hon ▸ hk'
  · simp only [List.mem_cons, List.not_mem_nil, or_false] at hw
    rcases hw with rfl | rfl
    · have htext : (Scope.principal (orElseText run.principalId run.clientId)).text = k.text := hon
      rw [← Scope.text_injective htext]
      simp [scopes]
    · have htext : (Scope.tenant run.clientId).text = k.text := hon
      rw [← Scope.text_injective htext]
      simp [scopes]

/-- A transaction leaves the counter of a scope alone, or it holds the scope's lock and counts one
call in the window of its reading of the clock. -/
inductive CounterStep (limits : QuotaLimits) (k : Scope) (i : Input) (L : List (Hold Resource))
    (ws : List Write) (s v : Store) : Prop where
  | alone (hsame : v.quotas.get? k.text = s.quotas.get? k.text)
      (hno : ∀ window, ws.any (raises k window) = false)
  | raised (row : ProviderQuota) (hcharge : IsCharge i) (hheld : ScopeHeld L k.text)
      (hrow : v.quotas.get? k.text = some row)
      (hwindow : row.windowStart = currentWindow i.call.epoch limits.windowSeconds)
      (hused : row.used = usedIn s row.windowStart k.text + 1)
      (hraises : ∀ window, ws.any (raises k window) = true ↔ window = row.windowStart)

theorem alone_of (hother : ∀ w ∈ ws, ¬ OnCounter k w) (happly : applyAll ws s = .ok v) :
    CounterStep limits k i L ws s v := by
  refine .alone (applyAll_counter hother happly) fun window => ?_
  rw [List.any_eq_false]
  exact fun w hw hraises => hother w hw (onCounter_of_raises hraises)

theorem row_of_usedIn {window : ℤ} (h : 0 < usedIn s window scope) :
    ∃ row, s.quotas.get? scope = some row ∧ row.windowStart = window := by
  cases hget : s.quotas.get? scope with
  | none =>
    rw [usedIn_missing hget] at h
    exact absurd h (lt_irrefl 0)
  | some row =>
    refine ⟨row, rfl, ?_⟩
    by_contra hstale
    rw [usedIn_stale hget hstale] at h
    exact absurd h (lt_irrefl 0)

theorem raises_window {window window' : ℤ} (hin : InWindow window w)
    (hraises : raises k window' w = true) : window' = window := by
  cases w with
  | updateQuota scope start used => exact (of_decide_eq_true hraises).2.1.symm.trans hin
  | _ => cases hraises

/-- **What a commit does to a counter.** -/
theorem counterStep (huses : Uses limits i) (hpost : Post i a L ws v)
    (hreplay : Replay (storeDiscipline (some limits)) L ws s v) (k : Scope) :
    CounterStep limits k i L ws s v := by
  by_cases hi : IsCharge i
  · obtain ⟨quotas, runId, attemptId, workerId, hop⟩ := hi
    unfold Uses at huses
    unfold Post at hpost
    rw [hop] at huses hpost
    cases huses
    obtain ⟨run, hcharged⟩ := hpost
    by_cases hk : k ∈ scopes run
    · have hcount := hcharged.countP hk
      have hused := replay_usedIn (k := k) hreplay hcharged.inWindow
      rw [hcount] at hused
      obtain ⟨row, hrow, hwindow⟩ := row_of_usedIn (by rw [hused]; exact Nat.succ_pos _)
      refine .raised row ⟨_, _, _, _, hop⟩ (hcharged.scopesHeld k hk) hrow hwindow ?_ ?_
      · rw [usedIn_current hrow hwindow] at hused
        rw [hused, hwindow]
      · intro window
        rw [hwindow]
        constructor
        · intro hany
          obtain ⟨w, hw, hraises⟩ := List.any_eq_true.mp hany
          exact raises_window (hcharged.inWindow w hw) hraises
        · rintro rfl
          have hpos : 0 < ws.countP (raises k
              (currentWindow i.call.epoch limits.windowSeconds)) := hcount ▸ Nat.one_pos
          obtain ⟨w, hw, hraises⟩ := List.countP_pos_iff.mp hpos
          exact List.any_eq_true.mpr ⟨w, hw, hraises⟩
    · exact alone_of (fun w hw hon => hk (hcharged.onCounter hw hon)) hreplay.applyAll
  · exact alone_of (fun w hw => spares_onCounter (hpost.spares hi w hw)) hreplay.applyAll

end Effect

/-! ### A clock that does not go back -/

theorem currentWindow_mono {now now' windowSeconds : ℤ} (hpos : 0 < windowSeconds)
    (h : now ≤ now') : currentWindow now windowSeconds ≤ currentWindow now' windowSeconds :=
  mul_le_mul_of_nonneg_right (Int.ediv_le_ediv hpos h) hpos.le

section

variable [Externals]

/-- The readings of the database clock that charges make, with `clock t` its time after `t` events.
The clock does not go back; a charge reads it after its last lock statement, and before it
commits. -/
structure Clocked (clock : ℕ → ℤ) (events : List (Event Input)) : Prop where
  monotone : ∀ t t', t ≤ t' → clock t ≤ clock t'
  after : ∀ t ≤ events.length, ∀ (n : ℕ) i p,
    (system.after (events.take t)).sessions[n]? = some ⟨i, p⟩ → IsCharge i → p.Locks →
      clock t ≤ i.call.epoch
  before : ∀ t ≤ events.length, ∀ (n : ℕ) i p,
    (system.after (events.take t)).sessions[n]? = some ⟨i, p⟩ → IsCharge i →
      p.outcome?.isSome = true → i.call.epoch ≤ clock t

variable {clock : ℕ → ℤ} {events : List (Event Input)} {e : Event Input}

theorem Clocked.init (h : Clocked clock (events ++ [e])) : Clocked clock events where
  monotone := h.monotone
  after t ht n i p hx := by
    refine h.after t (ht.trans (by simp)) n i p ?_
    rw [List.take_append_of_le_length ht]
    exact hx
  before t ht n i p hx := by
    refine h.before t (ht.trans (by simp)) n i p ?_
    rw [List.take_append_of_le_length ht]
    exact hx

/-- **The counters and the committed charges.** No counter is ahead of the clock, nor of the
reading of a charge that holds its lock; of the windows that are not over a counter has counted the
charges, and no window has more charges than the limit allows. -/
structure Ledger (limits : QuotaLimits) (now : ℤ)
    (c : Config Input Store Write Lock PyError Answer Resource) : Prop where
  past : ∀ (k : Scope) row, c.store.quotas.get? k.text = some row →
    row.windowStart ≤ currentWindow now limits.windowSeconds
  held : ∀ (n : ℕ) i p, c.sessions[n]? = some ⟨i, p⟩ → IsCharge i → ∀ k : Scope,
    ScopeHeld p.held k.text → ∀ row, c.store.quotas.get? k.text = some row →
      row.windowStart ≤ currentWindow i.call.epoch limits.windowSeconds
  current : ∀ (k : Scope) window,
    (∀ row, c.store.quotas.get? k.text = some row → row.windowStart ≤ window) →
      (chargesIn c k window).card = usedIn c.store window k.text
  bounded : ∀ (k : Scope) window, ((chargesIn c k window).card : ℤ) ≤ max (calls limits k) 0

omit [Externals] in
theorem advisory_notMem_taken {m : Mode} (w : Write) : (.lock (.advisory scope), m) ∉ taken w := by
  rw [lock_mem_taken]
  cases w <;> simp [touched]

/-- What a session holds of a scope it held before, or it has just taken the lock. -/
theorem scopeHeld_origin {c : Config Input Store Write Lock PyError Answer Resource}
    {p : Stage Store Write Lock PyError Answer Resource}
    (hx : (system.step c e).2.sessions[n]? = some ⟨i, p⟩) (hheld : ScopeHeld p.held scope) :
    ∃ p0, c.sessions[n]? = some ⟨i, p0⟩
      ∧ (ScopeHeld p0.held scope ∨ (p0.Locks ∧ e = .step n)) := by
  generalize hy : (⟨i, p⟩ : Session Input Store Write Lock PyError Answer Resource) = y at hx
  cases session_of_step hx with
  | same hold =>
    rw [← hy] at hold
    exact ⟨p, hold, .inl hheld⟩
  | @moved x he hold =>
    cases hy
    refine ⟨x.stage, hold, ?_⟩
    rcases Stage.held_advance hheld with h | h | ⟨w, hw⟩
    · exact .inl h
    · exact .inr ⟨h, he⟩
    · exact absurd hw (advisory_notMem_taken w)
  | cut hold =>
    cases hy
    exact absurd hheld List.not_mem_nil
  | fresh he hn =>
    cases hy
    exact absurd hheld List.not_mem_nil

variable {limits : QuotaLimits} {now now' : ℤ}
  {c : Config Input Store Write Lock PyError Answer Resource}

/-- A step without a commit. -/
theorem Ledger.quiet (h : Ledger limits now c) (hle : now ≤ now')
    (hafter : ∀ (n : ℕ) i p, c.sessions[n]? = some ⟨i, p⟩ → IsCharge i → p.Locks →
      now ≤ i.call.epoch)
    (hstore : (system.step c e).2.store = c.store)
    (houtcome : ∀ n, (system.step c e).2.outcome? n = c.outcome? n) :
    Ledger limits now' (system.step c e).2 where
  past k row hrow := by
    rw [hstore] at hrow
    exact (h.past k row hrow).trans (currentWindow_mono limits.window_pos hle)
  held n i p hx hi k hheld row hrow := by
    rw [hstore] at hrow
    obtain ⟨p0, hx0, hheld0 | ⟨hlocks, -⟩⟩ := scopeHeld_origin hx hheld
    · exact h.held n i p0 hx0 hi k hheld0 row hrow
    · exact (h.past k row hrow).trans
        (currentWindow_mono limits.window_pos (hafter n i p0 hx0 hi hlocks))
  current k window hwindow := by
    rw [hstore] at hwindow ⊢
    rw [chargesIn_quiet houtcome]
    exact h.current k window hwindow
  bounded k window := by
    rw [chargesIn_quiet houtcome]
    exact h.bounded k window

omit [Externals] in
/-- A window that the counter has not reached has seen nothing. -/
theorem usedIn_ahead {s : Store} {window window' : ℤ}
    (h : ∀ row, s.quotas.get? scope = some row → row.windowStart ≤ window)
    (hlt : window < window') : usedIn s window' scope = 0 := by
  cases hget : s.quotas.get? scope with
  | none => exact usedIn_missing hget
  | some row => exact usedIn_stale hget (by have := h row hget; omega)

/-- The commit of session `n` leads from `c` to `c'`. -/
structure Posts (limits : QuotaLimits) (n : ℕ) (i : Input) (held : List (Hold Resource))
    (ws : List Write) (c c' : Config Input Store Write Lock PyError Answer Resource) : Prop where
  opened : ∃ p, c.sessions[n]? = some ⟨i, p⟩ ∧ p.held = held
  counters : ∀ k, CounterStep limits k i held ws c.store c'.store
  cards : ∀ k window, (chargesIn c' k window).card
    = (chargesIn c k window).card + if ws.any (raises k window) then 1 else 0

namespace Posts

variable {c' : Config Input Store Write Lock PyError Answer Resource} {n : ℕ} {i : Input}
  {held : List (Hold Resource)} {ws : List Write}

omit [Externals] in
/-- The counter that is raised was in the same window or in an earlier one. -/
theorem reached (h : Ledger limits now c) (hc : Posts limits n i held ws c c') {k : Scope}
    (hcharge : IsCharge i) (hheld : ScopeHeld held k.text) :
    ∀ row, c.store.quotas.get? k.text = some row →
      row.windowStart ≤ currentWindow i.call.epoch limits.windowSeconds := by
  obtain ⟨p, hx, rfl⟩ := hc.opened
  exact h.held n i p hx hcharge k hheld

omit [Externals] in
theorem past (h : Ledger limits now c) (hc : Posts limits n i held ws c c') (hle : now ≤ now')
    (hbefore : IsCharge i → i.call.epoch ≤ now') (k : Scope) (row : ProviderQuota)
    (hrow : c'.store.quotas.get? k.text = some row) :
    row.windowStart ≤ currentWindow now' limits.windowSeconds := by
  cases hc.counters k with
  | alone hsame _ =>
    rw [hsame] at hrow
    exact (h.past k row hrow).trans (currentWindow_mono limits.window_pos hle)
  | raised row' hcharge _ hrow' hwindow _ _ =>
    rw [hrow'] at hrow
    cases hrow
    rw [hwindow]
    exact currentWindow_mono limits.window_pos (hbefore hcharge)

omit [Externals] in
theorem current (h : Ledger limits now c) (hc : Posts limits n i held ws c c') (k : Scope)
    (window : ℤ)
    (hwindow : ∀ row, c'.store.quotas.get? k.text = some row → row.windowStart ≤ window) :
    (chargesIn c' k window).card = usedIn c'.store window k.text := by
  cases hc.counters k with
  | alone hsame hno =>
    rw [hc.cards, hno window, usedIn_congr window hsame]
    rw [hsame] at hwindow
    exact h.current k window hwindow
  | raised row hcharge hheld hrow hrowWindow hused hraises =>
    have hreached := hc.reached h hcharge hheld
    rw [← hrowWindow] at hreached
    by_cases hsame : window = row.windowStart
    · rw [hc.cards, if_pos ((hraises window).mpr hsame), hsame, h.current k _ hreached,
        usedIn_current hrow rfl, hused]
    · have hlt : row.windowStart < window :=
        lt_of_le_of_ne (hwindow row hrow) fun heq => hsame heq.symm
      rw [hc.cards, if_neg fun hany => hsame ((hraises window).mp hany),
        h.current k _ fun row0 hrow0 => (hreached row0 hrow0).trans hlt.le,
        usedIn_ahead hreached hlt, usedIn_stale hrow fun heq => hsame heq.symm]

omit [Externals] in
theorem bounded (h : Ledger limits now c) (hc : Posts limits n i held ws c c')
    (hinv : StoreInv (some limits) c'.store) (k : Scope) (window : ℤ) :
    ((chargesIn c' k window).card : ℤ) ≤ max (calls limits k) 0 := by
  cases hc.counters k with
  | alone _ hno =>
    rw [hc.cards, hno window]
    exact h.bounded k window
  | raised row _ _ hrow _ _ hraises =>
    by_cases hsame : window = row.windowStart
    · have hexact := hc.current h k window fun row' hrow' => by
        rw [hrow] at hrow'
        cases hrow'
        exact hsame.ge
      rw [hexact, usedIn_current hrow hsame.symm]
      exact hinv.spent limits rfl k row hrow
    · rw [hc.cards, if_neg fun hany => hsame ((hraises window).mp hany)]
      exact h.bounded k window

end Posts

/-- **A commit.** The session that commits holds the locks of the counters it raises. -/
theorem Ledger.commit (h : Ledger limits now c)
    (hsound : Sound locking (storeDiscipline (some limits)) Post c)
    (hinv : StoreInv (some limits) (system.step c e).2.store) {a : Answer} {ws : List Write}
    {handler : PyError → Option (DbTx Answer)} {held : List (Hold Resource)}
    (hopen : c.sessions[n]? = some ⟨i, .running (.done a) handler held ws⟩)
    (huses : Uses limits i) (happly : applyAll ws c.store = .ok (system.step c e).2.store)
    (hnew : (system.step c e).2.outcome? n = some (i, a, ws))
    (hold : ∀ m, m ≠ n → (system.step c e).2.outcome? m = c.outcome? m) (hle : now ≤ now')
    (hbefore : IsCharge i → i.call.epoch ≤ now') : Ledger limits now' (system.step c e).2 := by
  obtain ⟨⟨v, hreplay, hobeys⟩, -⟩ := hsound.sessions hopen
  obtain rfl : v = (system.step c e).2.store :=
    Except.ok.inj (hreplay.applyAll.symm.trans happly)
  have hpost : Post i a held ws (system.step c e).2.store := hobeys _ (Frame.refl _ _)
  have hnone : c.outcome? n = none := by
    unfold Config.outcome?
    rw [hopen]
    rfl
  have hc : Posts limits n i held ws c (system.step c e).2 :=
    ⟨⟨_, hopen, rfl⟩, counterStep huses hpost hreplay,
      fun k window => card_chargesIn_commit hnone hnew hold⟩
  refine ⟨hc.past h hle hbefore, fun m j p hx hj k hheld row hrow => ?_, hc.current h,
    hc.bounded h hinv⟩
  by_cases hm : m = n
  · -- the session that commits holds nothing any more
    rw [hm, Config.outcome?_eq_some.mp hnew] at hx
    cases hx
    exact absurd hheld List.not_mem_nil
  · obtain ⟨p0, hx0, hheld0 | ⟨-, he⟩⟩ := scopeHeld_origin hx hheld
    · cases hc.counters k with
      | alone hsame _ =>
        rw [hsame] at hrow
        exact h.held m j p0 hx0 hj k hheld0 row hrow
      | raised _ _ hheldn _ _ _ _ =>
        exact absurd hheld0 ((hsound.apart (fun heq => hm heq.symm) hopen hx0).not_mem hheldn)
    · rw [step_of_outcome hnone hnew] at he
      cases he
      exact absurd rfl hm

/-- **The ledger.** After every run with such a clock the counters and the charges agree. -/
theorem ledger_after (limits : QuotaLimits) (clock : ℕ → ℤ) (events : List (Event Input))
    (huses : ∀ i, .start i ∈ events → Uses limits i) (hclock : Clocked clock events) :
    Ledger limits (clock events.length) (system.after events) := by
  induction events using List.reverseRecOn with
  | nil =>
    refine ⟨fun k row hrow => ?_, fun n i p hx => ?_, fun k window _ => ?_, fun k window => ?_⟩
    · exact absurd hrow (by simp [interleaving, Machine.after, Machine.afterFrom, Store.empty])
    · exact absurd hx (by simp [interleaving, Machine.after, Machine.afterFrom])
    · rfl
    · exact le_max_right _ _
  | append_singleton events e ih =>
    have hbefore : ∀ i, .start i ∈ events → Uses limits i := fun i hi =>
      huses i (List.mem_append_left _ hi)
    have h := ih hbefore hclock.init
    have hsound := sound (some limits) events (by simpa using hbefore)
    have hsound' := sound (some limits) (events ++ [e]) (by simpa using huses)
    have hle : clock events.length ≤ clock (events ++ [e]).length :=
      hclock.monotone _ _ (by simp)
    have hinv := hsound'.inv
    rw [Machine.after_concat] at hinv ⊢
    cases step_commits request locking Store.empty (system.after events) e with
    | quiet hstore houtcome =>
      refine h.quiet hle (fun n i p hx => ?_) hstore houtcome
      refine hclock.after events.length (by simp) n i p ?_
      rw [List.take_left' rfl]
      exact hx
    | @commit n i a ws handler held hopen happly hnew hold =>
      have hstarted := started_of_session request locking Store.empty events n _ hopen
      refine h.commit hsound hinv hopen (hbefore i hstarted) happly hnew hold hle fun hi => ?_
      refine hclock.before (events ++ [e]).length le_rfl n i (.committed a ws) ?_ hi rfl
      rw [List.take_length, Machine.after_concat]
      exact Config.outcome?_eq_some.mp hnew

end

end AgentRuntime.Concurrency
