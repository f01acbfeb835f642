import AgentRuntime.Application.RequestHash
import AgentRuntime.Lib.FixedWindow
import AgentRuntime.Lib.Machine

/-!
# The shared rate limiter

Every API instance runs one script on a shared Redis: increment the counter of the principal, read
its time to live, and give it one where it has none. A key without an expiry would block its
principal for ever, so the script also repairs a key that lost its expiry.

Times are milliseconds of the Redis clock. Redis drops a key when its time to live has elapsed;
whether it still serves the key in the very millisecond of the deadline is left open.

* `RedisFixedWindowRateLimiter.machine`: calls of all principals, and keys that lose their expiry;
* `KeyState`: what the stored counter knows about the calls so far;
* `rate_limiter_windows`: expiries, windows and spans, for every principal and every run.
-/

namespace AgentRuntime.Redis

open Lib Lib.FixedWindow Application

/-! ### Redis -/

/-- A counter and the time at which it expires. -/
structure RedisEntry where
  value : ℕ
  expireAt : Option ℤ

/-- The keys with their entries. An entry whose time to live has elapsed is not there any more. -/
abbrev Database := String → Option RedisEntry

/-- Redis: whether a key is still served in the millisecond of its deadline. -/
structure RedisServer where
  servesDeadline : Bool

namespace RedisServer

variable (redis : RedisServer)

/-- The time to live has not elapsed. -/
def live (now : ℤ) (entry : RedisEntry) : Bool :=
  match entry.expireAt with
  | none => true
  | some deadline => decide (now < deadline) || (redis.servesDeadline && decide (now = deadline))

/-- The entry of a key, if it is there. -/
def find (db : Database) (key : String) (now : ℤ) : Option RedisEntry :=
  (db key).filter (redis.live now)

/-- `INCR key`: a missing key counts as zero and gets no expiry. -/
def incr (db : Database) (key : String) (now : ℤ) : ℕ × Database :=
  match redis.find db key now with
  | some entry =>
    (entry.value + 1, Function.update db key (some { entry with value := entry.value + 1 }))
  | none => (1, Function.update db key (some ⟨1, none⟩))

/-- `TTL key` in seconds, rounded: `-2` without the key, `-1` without an expiry. -/
def ttl (db : Database) (key : String) (now : ℤ) : ℤ :=
  match redis.find db key now with
  | none => -2
  | some entry =>
    match entry.expireAt with
    | none => -1
    | some deadline => (max 0 (deadline - now) + 500) / 1000

/-- `EXPIRE key seconds` with a positive number of seconds. -/
def expire (db : Database) (key : String) (seconds : ℕ) (now : ℤ) : Database :=
  match redis.find db key now with
  | none => db
  | some entry => Function.update db key (some { entry with expireAt := some (now + seconds * 1000) })

/-- `PERSIST key`: the key loses its expiry. -/
def persist (db : Database) (key : String) (now : ℤ) : Database :=
  match redis.find db key now with
  | none => db
  | some entry => Function.update db key (some { entry with expireAt := none })

/-- The script of the limiter, which Redis runs as one operation. -/
def script (db : Database) (key : String) (window : ℕ) (now : ℤ) : (ℕ × ℤ) × Database :=
  let (current, db) := redis.incr db key now
  let ttl := redis.ttl db key now
  if ttl < 0 then ((current, window), redis.expire db key window now) else ((current, ttl), db)

end RedisServer

/-! ### The limiter -/

structure RateLimitDecision where
  allowed : Bool
  retryAfterSeconds : ℤ
  deriving DecidableEq, Repr

/-- The settings of the limiter, the same in every instance. -/
structure RedisFixedWindowRateLimiter where
  redis : RedisServer
  limit : ℕ
  windowSeconds : ℕ
  one_le_windowSeconds : 1 ≤ windowSeconds

/-- What happens at the shared Redis. -/
inductive Event where
  /-- Some instance runs `check(client_id)`. -/
  | check (clientId : String)
  /-- A key loses its expiry. -/
  | orphan (key : String)

namespace RedisFixedWindowRateLimiter

variable [Externals] (limiter : RedisFixedWindowRateLimiter)

/-- The key of a principal. -/
def rateKey (clientId : String) : String :=
  "arr:rate-limit:" ++ Externals.sha256 clientId.toUTF8

def check (db : Database) (clientId : String) (now : ℤ) : RateLimitDecision × Database :=
  let ((current, ttl), db) :=
    limiter.redis.script db (rateKey clientId) limiter.windowSeconds now
  let retryAfter := max 1 (if ttl > 0 then ttl else limiter.windowSeconds)
  (⟨decide (current ≤ limiter.limit), retryAfter⟩, db)

/-- Runs of the shared Redis: each event has the time at which it happens. -/
def machine : Machine Database (ℤ × Event) (Option RateLimitDecision) where
  init := fun _ => none
  step db event :=
    match event.2 with
    | .check clientId =>
      let (decision, db) := limiter.check db clientId event.1
      (some decision, db)
    | .orphan key => (none, limiter.redis.persist db key event.1)

/-- The length of a window in milliseconds. -/
def width : ℤ := limiter.windowSeconds * 1000

/-! ### One call -/

omit [Externals] in
theorem width_pos : 0 < limiter.width := by
  have := limiter.one_le_windowSeconds
  unfold width
  omega

/-- The entry a call leaves behind. -/
def counted (db : Database) (key : String) (now : ℤ) : RedisEntry :=
  match limiter.redis.find db key now with
  | none => ⟨1, some (now + limiter.width)⟩
  | some entry => ⟨entry.value + 1, some (entry.expireAt.getD (now + limiter.width))⟩

variable {now : ℤ}

omit [Externals] in
/-- Whether a key is there depends on its deadline alone. -/
theorem find_update_of_live (db : Database) (key : String) {entry : RedisEntry}
    (h : limiter.redis.live now entry = true) :
    limiter.redis.find (Function.update db key (some entry)) key now = some entry := by
  simp [RedisServer.find, h]

variable {db : Database} {key : String}

omit [Externals] in
theorem live_of_find {entry : RedisEntry} (h : limiter.redis.find db key now = some entry) :
    db key = some entry ∧ limiter.redis.live now entry = true :=
  Option.filter_eq_some_iff.mp h

omit [Externals] in
/-- **The script**: it counts the call, the key has an expiry afterwards, and the time to live is a
whole window for a key that gets its expiry now, the rounded rest of the window otherwise. -/
theorem script_eq (db : Database) (key : String) (now : ℤ) :
    limiter.redis.script db key limiter.windowSeconds now
      = (((limiter.counted db key now).value,
          match (limiter.redis.find db key now).bind RedisEntry.expireAt with
          | none => (limiter.windowSeconds : ℤ)
          | some deadline => (max 0 (deadline - now) + 500) / 1000),
        Function.update db key (some (limiter.counted db key now))) := by
  cases hfind : limiter.redis.find db key now with
  | none =>
    have hnew : limiter.redis.find (Function.update db key (some ⟨1, none⟩)) key now
        = some ⟨1, none⟩ := limiter.find_update_of_live db key rfl
    simp [RedisServer.script, RedisServer.incr, RedisServer.ttl, RedisServer.expire, counted,
      hfind, hnew, width]
  | some entry =>
    obtain ⟨value, expireAt⟩ := entry
    have hlive : limiter.redis.live now ⟨value + 1, expireAt⟩ = true :=
      (limiter.live_of_find hfind).2
    have hnew := limiter.find_update_of_live db key hlive
    cases expireAt with
    | none =>
      simp [RedisServer.script, RedisServer.incr, RedisServer.ttl, RedisServer.expire, counted,
        hfind, hnew, width]
    | some deadline =>
      have hpositive : ¬ (max 0 (deadline - now) + 500) / 1000 < 0 := by omega
      simp [RedisServer.script, RedisServer.incr, RedisServer.ttl, counted, hfind, hnew, hpositive]

omit [Externals] in
theorem script_ttl (db : Database) (key : String) (now : ℤ) :
    (limiter.redis.script db key limiter.windowSeconds now).1.2
      = match (limiter.redis.find db key now).bind RedisEntry.expireAt with
        | none => (limiter.windowSeconds : ℤ)
        | some deadline => (max 0 (deadline - now) + 500) / 1000 := by
  rw [limiter.script_eq]

theorem check_spec (db : Database) (clientId : String) (now : ℤ) :
    ((limiter.check db clientId now).1.allowed
        = decide ((limiter.counted db (rateKey clientId) now).value ≤ limiter.limit))
      ∧ (limiter.check db clientId now).2
        = Function.update db (rateKey clientId) (some (limiter.counted db (rateKey clientId) now)) := by
  unfold check
  rw [limiter.script_eq]
  exact ⟨rfl, rfl⟩

/-! ### The calls on a key -/

/-- The call an entry of the history is on a key, if it is one. -/
def callOn (key : String) (e : Entry Database (ℤ × Event) (Option RateLimitDecision)) :
    Option (WindowCall ℤ) :=
  match e.input.2, e.output with
  | .check clientId, some decision =>
    if rateKey clientId = key then
      some ⟨e.input.1, (limiter.redis.find e.before key e.input.1).isNone, decision.allowed⟩
    else none
  | _, _ => none

/-- The calls on a key in a history, the newest first. -/
def callsOn (key : String)
    (past : List (Entry Database (ℤ × Event) (Option RateLimitDecision))) : List (WindowCall ℤ) :=
  (past.filterMap (limiter.callOn key)).reverse

theorem callsOn_concat (key : String)
    (past : List (Entry Database (ℤ × Event) (Option RateLimitDecision)))
    (e : Entry Database (ℤ × Event) (Option RateLimitDecision)) :
    limiter.callsOn key (past ++ [e]) = (limiter.callOn key e).toList ++ limiter.callsOn key past := by
  unfold callsOn
  cases hcall : limiter.callOn key e <;> simp [List.filterMap_append, hcall]

/-- A check of the key is a call; its window is the one its entry counts. -/
theorem callOn_check (db : Database) (clientId : String) (now : ℤ) :
    limiter.callOn (rateKey clientId) (limiter.machine.entry db (now, .check clientId))
      = some ⟨now, (limiter.redis.find db (rateKey clientId) now).isNone,
          decide ((limiter.counted db (rateKey clientId) now).value ≤ limiter.limit)⟩ := by
  rw [← (limiter.check_spec db clientId now).1]
  exact if_pos rfl

/-- What an event does to a key: a check of it counts a call, an orphaning takes its expiry, and
everything else leaves it alone and is no call. -/
theorem step_cases (key : String) (db : Database) (now : ℤ) (event : Event) :
    ((∃ clientId, event = .check clientId ∧ rateKey clientId = key)
        ∧ (limiter.machine.step db (now, event)).2 key = some (limiter.counted db key now)
        ∧ limiter.callOn key (limiter.machine.entry db (now, event))
          = some ⟨now, (limiter.redis.find db key now).isNone,
              decide ((limiter.counted db key now).value ≤ limiter.limit)⟩)
      ∨ limiter.callOn key (limiter.machine.entry db (now, event)) = none
        ∧ ((limiter.machine.step db (now, event)).2 key = db key
          ∨ event = .orphan key ∧ ∃ value expireAt, db key = some ⟨value, expireAt⟩
            ∧ (limiter.machine.step db (now, event)).2 key = some ⟨value, none⟩) := by
  cases event with
  | check clientId =>
    by_cases hkey : rateKey clientId = key
    · subst hkey
      refine .inl ⟨⟨clientId, rfl, rfl⟩, ?_, limiter.callOn_check db clientId now⟩
      show (limiter.check db clientId now).2 _ = _
      rw [(limiter.check_spec db clientId now).2, Function.update_self]
    · refine .inr ⟨if_neg hkey, .inl ?_⟩
      show (limiter.check db clientId now).2 _ = _
      rw [(limiter.check_spec db clientId now).2, Function.update_of_ne (Ne.symm hkey)]
  | orphan lost =>
    refine .inr ⟨rfl, ?_⟩
    show limiter.redis.persist db lost now key = _
      ∨ _ ∧ ∃ value expireAt, _ ∧ limiter.redis.persist db lost now key = _
    unfold RedisServer.persist
    cases hfind : limiter.redis.find db lost now with
    | none => exact .inl rfl
    | some entry =>
      by_cases hkey : lost = key
      · subst hkey
        exact .inr ⟨rfl, entry.value, entry.expireAt, (limiter.live_of_find hfind).1,
          Function.update_self ..⟩
      · exact .inl (Function.update_of_ne (Ne.symm hkey) ..)

/-! ### What the counter knows -/

/-- What the entry of a key knows about the calls on it, with all events up to `now`: the counter is
the number of calls since the last opening, and the deadline lies a whole window after the opening
and at most a window ahead. -/
structure KeyState (log : List (WindowCall ℤ)) (entry : RedisEntry) (now : ℤ) : Prop where
  called : log ≠ []
  value : entry.value = ordinal log
  lasts : ∀ deadline, entry.expireAt = some deadline →
    ∀ opened, start? log = some opened → opened + limiter.width ≤ deadline
  ahead : ∀ deadline, entry.expireAt = some deadline → deadline ≤ now + limiter.width

/-- The invariant of a key. -/
structure KeyInvariant (log : List (WindowCall ℤ)) (stored : Option RedisEntry) (now : ℤ) :
    Prop where
  windowed : Windowed limiter.limit limiter.width log
  past : ∀ c ∈ log, c.time ≤ now
  absent : stored = none → log = []
  present : ∀ entry, stored = some entry → limiter.KeyState log entry now

variable {limiter} {log : List (WindowCall ℤ)}

omit [Externals] in
theorem KeyInvariant.later {stored : Option RedisEntry} {now now' : ℤ}
    (h : limiter.KeyInvariant log stored now) (hle : now ≤ now') :
    limiter.KeyInvariant log stored now' where
  windowed := h.windowed
  past c hc := (h.past c hc).trans hle
  absent := h.absent
  present entry hentry :=
    let hstate := h.present entry hentry
    ⟨hstate.called, hstate.value, hstate.lasts, fun deadline hdeadline =>
      (hstate.ahead deadline hdeadline).trans (by omega)⟩

omit [Externals] in
/-- A key that is not there any more: its deadline has come, a whole window after the opening. -/
theorem KeyInvariant.expired (h : limiter.KeyInvariant log (db key) now)
    (hfind : limiter.redis.find db key now = none) {opened : ℤ}
    (hopened : start? log = some opened) : opened + limiter.width ≤ now := by
  cases hstored : db key with
  | none =>
    rw [h.absent hstored] at hopened
    exact absurd hopened (by simp [start?])
  | some entry =>
    have hdead : limiter.redis.live now entry = false := by
      simpa [RedisServer.find, hstored] using hfind
    cases hexpire : entry.expireAt with
    | none => exact absurd hdead (by simp [RedisServer.live, hexpire])
    | some deadline =>
      have hpassed : ¬ now < deadline := by
        intro hlt
        simp [RedisServer.live, hexpire, hlt] at hdead
      have hlasts := (h.present entry hstored).lasts deadline hexpire opened hopened
      omega

omit [Externals] in
/-- **A call keeps the invariant.** -/
theorem KeyInvariant.call (h : limiter.KeyInvariant log (db key) now) :
    limiter.KeyInvariant
      (⟨now, (limiter.redis.find db key now).isNone,
        decide ((limiter.counted db key now).value ≤ limiter.limit)⟩ :: log)
      (some (limiter.counted db key now)) now := by
  have hpast : ∀ c ∈ (⟨now, (limiter.redis.find db key now).isNone,
      decide ((limiter.counted db key now).value ≤ limiter.limit)⟩ : WindowCall ℤ) :: log,
      c.time ≤ now := by
    intro c hc
    rcases List.mem_cons.mp hc with rfl | hc
    · exact le_refl _
    · exact h.past c hc
  cases hfind : limiter.redis.find db key now with
  | none =>
    have hentry : limiter.counted db key now = ⟨1, some (now + limiter.width)⟩ := by
      simp only [counted, hfind]
    rw [hfind] at hpast
    refine ⟨.cons h.windowed h.past (fun _ => rfl) (fun _ s hs => h.expired hfind hs) ?_, hpast,
      fun hnone => absurd hnone (by simp), ?_⟩
    · simp [hentry, ordinal]
    · rintro entry hstored
      obtain rfl := Option.some.inj hstored
      rw [hentry]
      refine ⟨List.cons_ne_nil _ _, rfl, fun deadline hdeadline opened hopened => ?_,
        fun deadline hdeadline => ?_⟩
      · obtain rfl : now = opened := Option.some.inj hopened
        exact (Option.some.inj hdeadline).le
      · exact (Option.some.inj hdeadline).ge
  | some entry =>
    obtain ⟨hstored, hlive⟩ := limiter.live_of_find hfind
    have hstate := h.present entry hstored
    have hentry : limiter.counted db key now
        = ⟨entry.value + 1, some (entry.expireAt.getD (now + limiter.width))⟩ := by
      simp only [counted, hfind]
    rw [hfind] at hpast
    refine ⟨.cons h.windowed h.past (fun hnil => absurd hnil hstate.called)
      (fun hopens => absurd hopens (by simp)) ?_, hpast, fun hnone => absurd hnone (by simp), ?_⟩
    · simp [hentry, ordinal, hstate.value]
    · rintro entry' hstored'
      obtain rfl := Option.some.inj hstored'
      rw [hentry]
      refine ⟨List.cons_ne_nil _ _, ?_, fun deadline hdeadline opened hopened => ?_,
        fun deadline hdeadline => ?_⟩
      · simp [ordinal, hstate.value]
      · obtain rfl := Option.some.inj hdeadline
        have hopened' : start? log = some opened := hopened
        cases hexpire : entry.expireAt with
        | some deadline =>
          exact hstate.lasts deadline hexpire opened hopened'
        | none =>
          obtain ⟨c, hc, rfl⟩ := start?_mem hopened'
          have := h.past c hc
          simp only [Option.getD_none]
          omega
      · obtain rfl := Option.some.inj hdeadline
        cases hexpire : entry.expireAt with
        | some deadline => exact hstate.ahead deadline hexpire
        | none => exact le_refl _

/-- **An event keeps the invariant of every key.** -/
theorem KeyInvariant.step {past}
    (h : limiter.KeyInvariant (limiter.callsOn key past) (db key) now) (event : Event) :
    limiter.KeyInvariant
      (limiter.callsOn key (past ++ [limiter.machine.entry db (now, event)]))
      ((limiter.machine.step db (now, event)).2 key) now := by
  rw [callsOn_concat]
  rcases limiter.step_cases key db now event with ⟨-, hstored, hcall⟩ | ⟨hcall, hsame | ⟨-, hlost⟩⟩
  · rw [hstored, hcall]
    exact h.call
  · rw [hsame, hcall]
    exact h
  · obtain ⟨value, expireAt, hbefore, hafter⟩ := hlost
    rw [hafter, hcall]
    have hstate := h.present _ hbefore
    refine ⟨h.windowed, h.past, fun hnone => absurd hnone (by simp), fun entry hentry => ?_⟩
    obtain rfl := Option.some.inj hentry
    exact ⟨hstate.called, hstate.value, fun _ hnone => absurd hnone (by simp),
      fun _ hnone => absurd hnone (by simp)⟩

variable (limiter) in
/-- **Every run keeps it**, as long as time does not go back. -/
theorem keyInvariant_after (key : String) {events : List (ℤ × Event)}
    (hsorted : (events.map Prod.fst).Pairwise (· ≤ ·)) (hnow : ∀ e ∈ events, e.1 ≤ now) :
    limiter.KeyInvariant (limiter.callsOn key (limiter.machine.history events))
      (limiter.machine.after events key) now := by
  induction events using List.reverseRecOn generalizing now with
  | nil =>
    exact ⟨.nil, fun c hc => absurd hc List.not_mem_nil, fun _ => rfl,
      fun entry hentry => absurd hentry (by simp [Machine.after, Machine.afterFrom, machine])⟩
  | append_singleton events event ih =>
    rw [List.map_append, List.pairwise_append] at hsorted
    obtain ⟨hinitial, -, hlast⟩ := hsorted
    have hbefore := ih hinitial fun e he =>
      hlast e.1 (List.mem_map_of_mem he) event.1 (by simp)
    rw [Machine.history_concat, Machine.after_concat]
    exact (hbefore.step event.2).later (hnow event (by simp))

/-! ### Deadlines -/

variable (limiter) in
omit [Externals] in
theorem expireAt_counted (db : Database) (key : String) (now : ℤ) :
    (limiter.counted db key now).expireAt
      = some (((limiter.redis.find db key now).bind RedisEntry.expireAt).getD
          (now + limiter.width)) := by
  unfold counted
  cases limiter.redis.find db key now with
  | none => rfl
  | some entry => rfl

variable (limiter) in
omit [Externals] in
theorem live_counted (db : Database) (key : String) (now : ℤ) :
    limiter.redis.live now (limiter.counted db key now) = true := by
  have hpos := limiter.width_pos
  cases hfind : limiter.redis.find db key now with
  | none => simp [counted, hfind, RedisServer.live, hpos]
  | some entry =>
    have hlive := (limiter.live_of_find hfind).2
    cases hexpire : entry.expireAt with
    | none => simp [counted, hfind, hexpire, RedisServer.live, hpos]
    | some deadline =>
      simp only [RedisServer.live, hexpire] at hlive
      simpa only [counted, hfind, hexpire, RedisServer.live, Option.getD_some] using hlive

variable (limiter) in
omit [Externals] in
theorem exists_deadline (db : Database) (key : String) (now : ℤ) :
    ∃ value deadline, limiter.counted db key now = ⟨value, some deadline⟩ := by
  unfold counted
  split
  · exact ⟨_, _, rfl⟩
  · exact ⟨_, _, rfl⟩

variable {value : ℕ}

omit [Externals] in
theorem le_of_live {now deadline : ℤ} (h : limiter.redis.live now ⟨value, some deadline⟩ = true) :
    now ≤ deadline := by
  simp only [RedisServer.live, Bool.or_eq_true, Bool.and_eq_true, decide_eq_true_eq] at h
  omega

/-- Since the call at `now` a call was allowed, or the key still waits for the same deadline. -/
def Waiting (now deadline : ℤ) (log : List (WindowCall ℤ)) (stored : Option RedisEntry) : Prop :=
  (∃ c ∈ log, c.allowed = true ∧ now < c.time) ∨ ∃ value, stored = some ⟨value, some deadline⟩

/-- A call that finds the deadline past is allowed; one that does not leaves the deadline. -/
theorem Waiting.step {past} {now deadline time : ℤ} (hlimit : 1 ≤ limiter.limit)
    (hlive : limiter.redis.live now ⟨value, some deadline⟩ = true)
    (h : Waiting now deadline (limiter.callsOn key past) (db key)) (hle : now ≤ time)
    {event : Event} (hevent : event ≠ .orphan key) :
    Waiting now deadline
      (limiter.callsOn key (past ++ [limiter.machine.entry db (time, event)]))
      ((limiter.machine.step db (time, event)).2 key) := by
  rw [callsOn_concat]
  rcases h with ⟨c, hc, hallowed⟩ | ⟨count, hstored⟩
  · exact .inl ⟨c, List.mem_append_right _ hc, hallowed⟩
  rcases limiter.step_cases key db time event with ⟨-, hafter, hcall⟩ | ⟨-, hsame | ⟨horphan, -⟩⟩
  · cases hfind : limiter.redis.find db key time with
    | some entry =>
      obtain rfl : (⟨count, some deadline⟩ : RedisEntry) = entry :=
        Option.some.inj (hstored.symm.trans (limiter.live_of_find hfind).1)
      refine .inr ⟨count + 1, hafter.trans ?_⟩
      simp only [counted, hfind, Option.getD_some]
    | none =>
      have hdead : limiter.redis.live time ⟨value, some deadline⟩ = false := by
        simpa [RedisServer.find, hstored, RedisServer.live] using hfind
      have hne : time ≠ now := by
        rintro rfl
        exact absurd (hdead.symm.trans hlive) (by simp)
      have hlater : now < time := by omega
      refine .inl ⟨_, List.mem_append_left _ (Option.mem_toList.mpr hcall), ?_, hlater⟩
      simpa [counted, hfind] using hlimit
  · exact .inr ⟨count, hsame.trans hstored⟩
  · exact absurd horphan hevent

variable {before more : List (ℤ × Event)}

theorem Waiting.run {now deadline : ℤ} (hlimit : 1 ≤ limiter.limit)
    (hlive : limiter.redis.live now ⟨value, some deadline⟩ = true)
    (h : Waiting now deadline (limiter.callsOn key (limiter.machine.history before))
      (limiter.machine.after before key)) (hmore : ∀ e ∈ more, now ≤ e.1 ∧ e.2 ≠ .orphan key) :
    Waiting now deadline (limiter.callsOn key (limiter.machine.history (before ++ more)))
      (limiter.machine.after (before ++ more) key) := by
  induction more using List.reverseRecOn with
  | nil => simpa using h
  | append_singleton more event ih =>
    obtain ⟨hle, hevent⟩ := hmore event (by simp)
    rw [← List.append_assoc, Machine.history_concat, Machine.after_concat]
    exact (ih fun e he => hmore e (by simp [he])).step hlimit hlive hle hevent

variable {clientId : String}

/-- A call more than a window after the deadline was set finds the key gone. -/
theorem Waiting.ends {past} {now deadline time : ℤ} (hlimit : 1 ≤ limiter.limit)
    (h : Waiting now deadline (limiter.callsOn (rateKey clientId) past) (db (rateKey clientId)))
    (hnow : now < time) (hlate : deadline < time) :
    ∃ c ∈ limiter.callsOn (rateKey clientId)
        (past ++ [limiter.machine.entry db (time, .check clientId)]),
      c.allowed = true ∧ now < c.time := by
  rw [callsOn_concat, limiter.callOn_check]
  rcases h with ⟨c, hc, hallowed⟩ | ⟨count, hstored⟩
  · exact ⟨c, List.mem_append_right _ hc, hallowed⟩
  · have hfind : limiter.redis.find db (rateKey clientId) time = none := by
      simp [RedisServer.find, RedisServer.live, hstored]
      omega
    refine ⟨_, List.mem_append_left _ (Option.mem_toList.mpr rfl), ?_, hnow⟩
    simpa [counted, hfind] using hlimit

/-- The key after a call has a deadline, at most a window ahead. -/
theorem deadline_after_check {before : List (ℤ × Event)}
    (hsorted : ((before ++ [(now, Event.check clientId)]).map Prod.fst).Pairwise (· ≤ ·)) :
    ∃ value deadline,
      limiter.machine.after (before ++ [(now, .check clientId)]) (rateKey clientId)
          = some ⟨value, some deadline⟩
        ∧ limiter.redis.live now ⟨value, some deadline⟩ = true
        ∧ deadline ≤ now + limiter.width := by
  have hbound : ∀ e ∈ before ++ [(now, Event.check clientId)], e.1 ≤ now := by
    rw [List.map_append, List.pairwise_append] at hsorted
    intro e he
    rcases List.mem_append.mp he with he | he
    · exact hsorted.2.2 e.1 (List.mem_map_of_mem he) now (by simp)
    · rw [List.mem_singleton.mp he]
  have hinv := limiter.keyInvariant_after (rateKey clientId) hsorted hbound
  rw [Machine.after_concat] at hinv ⊢
  have hafter : (limiter.machine.step (limiter.machine.after before) (now, .check clientId)).2
      (rateKey clientId)
      = some (limiter.counted (limiter.machine.after before) (rateKey clientId) now) := by
    show (limiter.check _ clientId now).2 _ = _
    rw [(limiter.check_spec _ clientId now).2, Function.update_self]
  obtain ⟨value, deadline, hentry⟩ :=
    limiter.exists_deadline (limiter.machine.after before) (rateKey clientId) now
  have hlive := limiter.live_counted (limiter.machine.after before) (rateKey clientId) now
  rw [hentry] at hafter hlive
  exact ⟨value, deadline, hafter, hlive, (hinv.present _ hafter).ahead deadline rfl⟩

/-- **Nobody is blocked for ever**: more than a window after a call, unless the key lost its expiry
again, some call since then is allowed. -/
theorem allowed_again {now time : ℤ} (hlimit : 1 ≤ limiter.limit)
    (hsorted : ((before ++ [(now, Event.check clientId)] ++ more
      ++ [(time, Event.check clientId)]).map Prod.fst).Pairwise (· ≤ ·))
    (hmore : ∀ e ∈ more, e.2 ≠ .orphan (rateKey clientId)) (hlate : now + limiter.width < time) :
    ∃ c ∈ limiter.callsOn (rateKey clientId) (limiter.machine.history
        (before ++ [(now, .check clientId)] ++ more ++ [(time, .check clientId)])),
      c.allowed = true ∧ now < c.time := by
  rw [List.map_append, List.pairwise_append, List.map_append, List.pairwise_append] at hsorted
  obtain ⟨⟨hbefore, -, hlater⟩, -, -⟩ := hsorted
  obtain ⟨value, deadline, hstored, hlive, hahead⟩ := deadline_after_check hbefore
  have hfollow : ∀ e ∈ more, now ≤ e.1 ∧ e.2 ≠ .orphan (rateKey clientId) := fun e he =>
    ⟨hlater now (by simp) e.1 (List.mem_map_of_mem he), hmore e he⟩
  have hwaiting := Waiting.run hlimit hlive (.inr ⟨value, hstored⟩) hfollow
  have hpos := limiter.width_pos
  rw [Machine.history_concat]
  exact hwaiting.ends hlimit (by omega) (by omega)

variable (limiter)

omit [Externals] in
theorem exists_time_bound (events : List (ℤ × Event)) : ∃ now, ∀ e ∈ events, e.1 ≤ now := by
  induction events with
  | nil => exact ⟨0, fun e he => absurd he List.not_mem_nil⟩
  | cons event events ih =>
    obtain ⟨now, hnow⟩ := ih
    refine ⟨max event.1 now, fun e he => ?_⟩
    rcases List.mem_cons.mp he with rfl | he
    · exact le_max_left _ _
    · exact (hnow e he).trans (le_max_right _ _)

/-- **Windows of the rate limiter.** For every run of checks and orphanings at non-decreasing times
and every principal: after a check the key has an expiry at most a window ahead, and a window later
some call is allowed again; a call is allowed exactly when it is one of the first `limit` since the
key was last gone; and in any half-open span of the length of a window at most `2 * limit` calls are
allowed. -/
theorem rate_limiter_windows (events : List (ℤ × Event))
    (hsorted : (events.map Prod.fst).Pairwise (· ≤ ·)) (clientId : String) :
    let calls := limiter.callsOn (rateKey clientId) (limiter.machine.history events)
    (∀ before now, events = before ++ [(now, .check clientId)] →
        ∃ value deadline, limiter.machine.after events (rateKey clientId)
            = some ⟨value, some deadline⟩ ∧ now ≤ deadline ∧ deadline ≤ now + limiter.width)
      ∧ (∀ before more now time, events = before ++ [(now, .check clientId)] ++ more
            ++ [(time, .check clientId)] →
          (∀ e ∈ more, e.2 ≠ .orphan (rateKey clientId)) → now + limiter.width < time →
          1 ≤ limiter.limit → ∃ c ∈ calls, c.allowed = true ∧ now < c.time)
      ∧ (∀ later c earlier, calls = later ++ c :: earlier →
          (c.allowed = true ↔ ordinal (c :: earlier) ≤ limiter.limit))
      ∧ ∀ a, countIn a limiter.width calls ≤ 2 * limiter.limit := by
  intro calls
  obtain ⟨now, hnow⟩ := exists_time_bound events
  have hwindowed := (limiter.keyInvariant_after (rateKey clientId) hsorted hnow).windowed
  refine ⟨?_, ?_, fun later c earlier hcalls => hwindowed.allowed_iff hcalls,
    fun a => hwindowed.count_le a⟩
  · rintro before now rfl
    obtain ⟨value, deadline, hstored, hlive, hahead⟩ := deadline_after_check hsorted
    exact ⟨value, deadline, hstored, le_of_live hlive, hahead⟩
  · rintro before more now time rfl hmore hlate hlimit
    exact allowed_again hlimit hsorted hmore hlate

/-! ### Retry-After -/

/-- The key is gone, has lost its expiry, or has at least half a second to live. -/
def HalfSecondLeft (db : Database) (key : String) (now : ℤ) : Prop :=
  ∀ deadline, (limiter.redis.find db key now).bind RedisEntry.expireAt = some deadline →
    500 ≤ deadline - now

/-- The seconds a check returns. -/
theorem retryAfter_check (db : Database) (clientId : String) (now : ℤ) :
    (limiter.check db clientId now).1.retryAfterSeconds
      = max 1 (if (limiter.redis.script db (rateKey clientId) limiter.windowSeconds now).1.2 > 0
          then (limiter.redis.script db (rateKey clientId) limiter.windowSeconds now).1.2
          else limiter.windowSeconds) := rfl

omit [Externals] in
/-- The seconds for `left` milliseconds of a window. -/
theorem rounded_retry {left window retry : ℤ} (hleft : 0 ≤ left) (hwindow : 1 ≤ window)
    (hle : left ≤ window * 1000)
    (h : retry = max 1 (if (max 0 left + 500) / 1000 > 0 then (max 0 left + 500) / 1000
      else window)) :
    1 ≤ retry ∧ retry ≤ window ∧ (retry * 1000 ≤ left + 1000 ↔ 500 ≤ left ∨ window = 1) := by
  rw [max_eq_right hleft] at h
  by_cases hhalf : 500 ≤ left
  · rw [if_pos (by omega)] at h
    exact ⟨by omega, by omega, iff_of_true (by omega) (.inl hhalf)⟩
  · -- less than half a second is left: the rounded time to live is zero
    rw [if_neg (by omega)] at h
    refine ⟨by omega, by omega, ?_⟩
    rw [or_iff_right hhalf]
    omega

/-- **Retry-After.** In every run of checks and orphanings at non-decreasing times, each check
returns a number of seconds between one and a window. It exceeds what is left of the window by at
most a second if and only if at the time of the check the key was gone or orphaned or had at least
half a second to live, or the window is a second. -/
theorem retry_after_accurate_iff (before : List (ℤ × Event)) (now : ℤ) (clientId : String)
    (hsorted : ((before ++ [(now, Event.check clientId)]).map Prod.fst).Pairwise (· ≤ ·)) :
    let db := limiter.machine.after before
    let retryAfter := (limiter.check db clientId now).1.retryAfterSeconds
    ∃ value deadline,
      (limiter.check db clientId now).2 (rateKey clientId) = some ⟨value, some deadline⟩
      ∧ 1 ≤ retryAfter ∧ retryAfter ≤ limiter.windowSeconds
      ∧ (retryAfter * 1000 ≤ deadline - now + 1000
          ↔ limiter.HalfSecondLeft db (rateKey clientId) now ∨ limiter.windowSeconds = 1) := by
  intro db retryAfter
  have hwindow := limiter.one_le_windowSeconds
  obtain ⟨value, deadline, hafter, hlive, hahead⟩ := deadline_after_check hsorted
  have hnow : now ≤ deadline := le_of_live hlive
  rw [Machine.after_concat] at hafter
  have hstored : (limiter.check db clientId now).2 (rateKey clientId)
      = some ⟨value, some deadline⟩ := hafter
  -- the deadline is the one that was there, or a window ahead
  have hdeadline : deadline = ((limiter.redis.find db (rateKey clientId) now).bind
      RedisEntry.expireAt).getD (now + limiter.width) := by
    have hexpire := limiter.expireAt_counted db (rateKey clientId) now
    rw [(limiter.check_spec db clientId now).2, Function.update_self] at hstored
    rw [Option.some.inj hstored] at hexpire
    exact Option.some.inj hexpire
  have hretry : retryAfter = _ := limiter.retryAfter_check db clientId now
  rw [limiter.script_ttl] at hretry
  refine ⟨value, deadline, hstored, ?_⟩
  unfold HalfSecondLeft
  unfold width at hdeadline hahead
  cases hrest : (limiter.redis.find db (rateKey clientId) now).bind RedisEntry.expireAt with
  | none =>
    rw [hrest] at hretry hdeadline
    dsimp only [Option.getD_none] at hretry hdeadline
    rw [if_pos (by omega)] at hretry
    refine ⟨by omega, by omega, iff_of_true (by omega) (.inl fun d hd => ?_)⟩
    cases hd
  | some d =>
    rw [hrest] at hretry hdeadline
    dsimp only [Option.getD_some] at hretry hdeadline
    have hleft : (∀ d', some d = some d' → 500 ≤ d' - now) ↔ 500 ≤ deadline - now := by
      rw [hdeadline]
      exact ⟨fun h => h d rfl, fun h d' hd' => Option.some.inj hd' ▸ h⟩
    rw [hleft]
    subst hdeadline
    have hseconds := rounded_retry (by omega) (by omega) (by omega) hretry
    rwa [Nat.cast_eq_one] at hseconds

end RedisFixedWindowRateLimiter

open RedisFixedWindowRateLimiter in
/-- With a limit of one call in a minute, a second call 400 milliseconds before the end of the
window is denied and told to come back in a minute. -/
theorem denied_at_the_end_of_the_window :
    letI : Externals := ⟨fun _ => "", fun _ => .ok ()⟩
    let limiter : RedisFixedWindowRateLimiter := ⟨⟨true⟩, 1, 60, by decide⟩
    let db := limiter.machine.after [(0, .check "a")]
    (limiter.check db "a" 59600).1 = ⟨false, 60⟩
      ∧ ((limiter.check db "a" 59600).2 (rateKey "a")).bind RedisEntry.expireAt
        = some 60000 := by
  decide

open RedisFixedWindowRateLimiter in
/-- Ten seconds earlier the answer is right. -/
theorem retry_after_accurate_earlier :
    let _ : Externals := ⟨fun _ => "", fun _ => .ok ()⟩
    let limiter : RedisFixedWindowRateLimiter := ⟨⟨true⟩, 1, 60, by decide⟩
    ∃ value deadline,
      (limiter.check (limiter.machine.after [(0, .check "a")]) "a" 49600).2 (rateKey "a")
        = some ⟨value, some deadline⟩
      ∧ (limiter.check (limiter.machine.after [(0, .check "a")]) "a" 49600).1.retryAfterSeconds
        * 1000 ≤ deadline - 49600 + 1000 := by
  intro _ limiter
  obtain ⟨value, deadline, hstored, -, -, haccurate⟩ :=
    retry_after_accurate_iff limiter [(0, .check "a")] 49600 "a" (by decide)
  refine ⟨value, deadline, hstored, haccurate.mpr (.inl ?_)⟩
  intro d hd
  have hfind : (limiter.redis.find (limiter.machine.after [(0, .check "a")]) (rateKey "a")
      49600).bind RedisEntry.expireAt = some 60000 := by decide
  obtain rfl := Option.some.inj (hfind.symm.trans hd)
  decide

open RedisFixedWindowRateLimiter in
/-- Three calls within a window of a minute, with a limit of two. -/
theorem rate_limiter_windows_third_call :
    letI : Externals := ⟨fun _ => "", fun _ => .ok ()⟩
    let limiter : RedisFixedWindowRateLimiter := ⟨⟨true⟩, 2, 60, by decide⟩
    let events : List (ℤ × Event) := [(0, .check "a"), (10, .check "a"), (10, .check "a")]
    (limiter.callsOn (rateKey "a") (limiter.machine.history events)).map WindowCall.allowed
        = [false, true, true]
      ∧ ∀ a, countIn a limiter.width
          (limiter.callsOn (rateKey "a") (limiter.machine.history events)) ≤ 2 * 2 := by
  let inst : Externals := ⟨fun _ => "", fun _ => .ok ()⟩
  intro limiter events
  exact ⟨by decide, (rate_limiter_windows limiter events (by decide) "a").2.2.2⟩

end AgentRuntime.Redis
