import Mathlib.Algebra.Order.Group.Defs
import Mathlib.Data.List.Basic

/-!
# Fixed windows

A fixed-window limiter counts the calls since its counter was last opened and allows the first
`limit` of them. The counter lives at least `width`, so two openings are at least `width` apart.
What follows about arbitrary spans of time does not depend on how the counter is kept.

A log lists the calls with the newest first.

* `Windowed`: the logs of a fixed-window limiter;
* `Windowed.allowed_iff`: a call is allowed when it is one of the first `limit` since the last
  opening;
* `Windowed.count_le`: a span of length `width` meets at most two windows.
-/

namespace AgentRuntime.Lib

/-- A call to a limiter: when it came, whether it found no counter, and whether it was allowed. -/
structure WindowCall (τ : Type*) where
  time : τ
  opens : Bool
  allowed : Bool

namespace FixedWindow

variable {τ : Type*}

/-- How many calls came since the last opening, that one included. -/
def ordinal : List (WindowCall τ) → ℕ
  | [] => 0
  | c :: log => if c.opens then 1 else ordinal log + 1

/-- When the current window was opened. -/
def start? : List (WindowCall τ) → Option τ
  | [] => none
  | c :: log => if c.opens then some c.time else start? log

theorem start?_mem {log : List (WindowCall τ)} {s : τ} (h : start? log = some s) :
    ∃ c ∈ log, c.time = s := by
  induction log with
  | nil => exact absurd h (by simp [start?])
  | cons c log ih =>
    by_cases hopens : c.opens = true
    · rw [start?, if_pos hopens] at h
      exact ⟨c, List.mem_cons_self, Option.some.inj h⟩
    · rw [start?, if_neg hopens] at h
      obtain ⟨d, hd, htime⟩ := ih h
      exact ⟨d, List.mem_cons_of_mem _ hd, htime⟩

variable [AddCommGroup τ] [LinearOrder τ]

/-- **The logs of a fixed-window limiter.** -/
inductive Windowed (limit : ℕ) (width : τ) : List (WindowCall τ) → Prop where
  | nil : Windowed limit width []
  | cons {c : WindowCall τ} {log : List (WindowCall τ)} (rest : Windowed limit width log)
      (ordered : ∀ d ∈ log, d.time ≤ c.time)
      (first : log = [] → c.opens = true)
      (apart : c.opens = true → ∀ s, start? log = some s → s + width ≤ c.time)
      (allowed : c.allowed = true ↔ ordinal (c :: log) ≤ limit) : Windowed limit width (c :: log)

variable {limit : ℕ} {width : τ} {log : List (WindowCall τ)}

/-- **Exactly the first `limit` calls of a window are allowed.** -/
theorem Windowed.allowed_iff (h : Windowed limit width log) {later earlier : List (WindowCall τ)}
    {c : WindowCall τ} (hlog : log = later ++ c :: earlier) :
    c.allowed = true ↔ ordinal (c :: earlier) ≤ limit := by
  induction later generalizing log with
  | nil =>
    subst hlog
    cases h with
    | cons _ _ _ _ hallowed => exact hallowed
  | cons d later ih =>
    subst hlog
    cases h with
    | cons hrest _ _ _ _ => exact ih hrest rfl

/-! ### Spans -/

/-- How many of the calls in `[a, a + width)` were allowed. -/
def countIn (a width : τ) (log : List (WindowCall τ)) : ℕ :=
  (log.filter fun c => c.allowed && decide (a ≤ c.time) && decide (c.time < a + width)).length

theorem countIn_cons (a width : τ) (c : WindowCall τ) (log : List (WindowCall τ)) :
    countIn a width (c :: log)
      = countIn a width log
        + if c.allowed = true ∧ a ≤ c.time ∧ c.time < a + width then 1 else 0 := by
  unfold countIn
  rw [List.filter_cons]
  split_ifs <;> simp_all

/-- Calls before the span do not count. -/
theorem countIn_eq_zero {a : τ} (h : ∀ c ∈ log, c.time < a) : countIn a width log = 0 := by
  unfold countIn
  rw [List.length_eq_zero_iff, List.filter_eq_nil_iff]
  intro c hc
  simp [not_le.mpr (h c hc)]

/-- A log that is not empty has a window. -/
theorem Windowed.exists_start (h : Windowed limit width log) (hne : log ≠ []) :
    ∃ s, start? log = some s := by
  induction h with
  | nil => exact absurd rfl hne
  | @cons c log _ _ hfirst _ _ ih =>
    by_cases hopens : c.opens = true
    · exact ⟨c.time, if_pos hopens⟩
    · obtain ⟨s, hs⟩ := ih fun hnil => hopens (hfirst hnil)
      exact ⟨s, (if_neg hopens).trans hs⟩

/-- What the calls of a log so far contribute to the span from `a`: a window opened before the span
is the only one in it, and one opened in it is at most the second. -/
structure InSpan (limit : ℕ) (width a : τ) (log : List (WindowCall τ)) : Prop where
  total : countIn a width log ≤ 2 * limit
  early : ∀ s, start? log = some s → s < a →
    countIn a width log ≤ limit ∧ countIn a width log ≤ ordinal log
  within : ∀ s, start? log = some s → s < a + width →
    countIn a width log ≤ limit + ordinal log

variable [IsOrderedAddMonoid τ]

/-- An opening inside the span: what came before it belongs to one window. -/
theorem InSpan.before_opening {a t : τ} (h : InSpan limit width a log)
    (hlog : Windowed limit width log) (hapart : ∀ s, start? log = some s → s + width ≤ t)
    (ht : t < a + width) : countIn a width log ≤ limit := by
  by_cases hne : log = []
  · subst hne
    exact Nat.zero_le _
  · obtain ⟨s, hs⟩ := hlog.exists_start hne
    have hbefore : s < a := lt_of_add_lt_add_right ((hapart s hs).trans_lt ht)
    exact (h.early s hs hbefore).1

theorem Windowed.inSpan (h : Windowed limit width log) (a : τ) : InSpan limit width a log := by
  induction h with
  | nil =>
    exact ⟨Nat.zero_le _, fun s hs => absurd hs (by simp [start?]),
      fun s hs => absurd hs (by simp [start?])⟩
  | @cons c log hlog hordered hfirst hapart hallowed ih =>
    by_cases hopens : c.opens = true
    · have hstart : start? (c :: log) = some c.time := if_pos hopens
      have hordinal : ordinal (c :: log) = 1 := if_pos hopens
      rw [hordinal] at hallowed
      have hbefore := ih.before_opening hlog (hapart hopens)
      refine ⟨?_, fun s hs hlt => ?_, fun s hs hlt => ?_⟩
      · rw [countIn_cons]
        split
        · rename_i hcounts
          have hone := hallowed.mp hcounts.1
          have hlimit := hbefore hcounts.2.2
          omega
        · exact ih.total
      · obtain rfl : c.time = s := Option.some.inj (hstart.symm.trans hs)
        have hzero : countIn a width (c :: log) = 0 := by
          refine countIn_eq_zero fun d hd => ?_
          rcases List.mem_cons.mp hd with rfl | hd
          · exact hlt
          · exact (hordered d hd).trans_lt hlt
        omega
      · obtain rfl : c.time = s := Option.some.inj (hstart.symm.trans hs)
        have hlimit := hbefore hlt
        rw [countIn_cons, hordinal]
        split <;> omega
    · have hstart : start? (c :: log) = start? log := if_neg hopens
      have hordinal : ordinal (c :: log) = ordinal log + 1 := if_neg hopens
      rw [hordinal] at hallowed
      refine ⟨?_, fun s hs hlt => ?_, fun s hs hlt => ?_⟩
      · rw [countIn_cons]
        split
        · rename_i hcounts
          obtain ⟨s, hs⟩ := hlog.exists_start fun hnil => hopens (hfirst hnil)
          obtain ⟨d, hd, rfl⟩ := start?_mem hs
          have hin := ih.within _ hs ((hordered d hd).trans_lt hcounts.2.2)
          have hfits := hallowed.mp hcounts.1
          omega
        · exact ih.total
      · obtain ⟨hlimit, hcount⟩ := ih.early s (hstart ▸ hs) hlt
        rw [countIn_cons, hordinal]
        split
        · rename_i hcounts
          have hfits := hallowed.mp hcounts.1
          omega
        · omega
      · have hin := ih.within s (hstart ▸ hs) hlt
        rw [countIn_cons, hordinal]
        split <;> omega

/-- **Any span of length `width` meets at most two windows.** -/
theorem Windowed.count_le (h : Windowed limit width log) (a : τ) :
    countIn a width log ≤ 2 * limit :=
  (h.inSpan a).total

end FixedWindow

end AgentRuntime.Lib
