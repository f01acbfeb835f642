import Mathlib.Data.List.Forall2

/-!
# Loops that may fail

`List.mapM` in `Except` runs a fallible step on every item and stops at the first failure. It
succeeds exactly when every step does, and then the results correspond to the items one by one.
-/

namespace AgentRuntime.Lib

theorem mapM_eq_ok_iff_forall₂ {α β ε : Type} {f : α → Except ε β} {xs : List α} {ys : List β} :
    xs.mapM f = .ok ys ↔ List.Forall₂ (fun x y => f x = .ok y) xs ys := by
  induction xs generalizing ys with
  | nil =>
    rw [List.mapM_nil, List.forall₂_nil_left_iff]
    exact ⟨fun h => (Except.ok.inj h).symm, fun h => by rw [h]; rfl⟩
  | cons x xs ih =>
    rw [List.mapM_cons, List.forall₂_cons_left_iff]
    cases hx : f x with
    | error e => simp [bind, Except.bind]
    | ok y =>
      cases hxs : xs.mapM f with
      | error e =>
        simp only [bind, Except.bind, reduceCtorEq, false_iff]
        rintro ⟨y', ys', -, hys, -⟩
        exact absurd (ih.mpr hys) (by simp [hxs])
      | ok zs =>
        simp only [bind, Except.bind, pure, Except.pure, Except.ok.injEq]
        constructor
        · rintro rfl
          exact ⟨y, zs, rfl, ih.mp hxs, rfl⟩
        · rintro ⟨y', ys', rfl, hys, rfl⟩
          rw [hxs] at ih
          rw [Except.ok.inj (ih.mpr hys)]

theorem exists_forall₂_iff {α β : Type} {R : α → β → Prop} {xs : List α} :
    (∃ ys, List.Forall₂ R xs ys) ↔ ∀ x ∈ xs, ∃ y, R x y := by
  induction xs with
  | nil => simp
  | cons x xs ih =>
    simp only [List.forall₂_cons_left_iff, List.forall_mem_cons, ← ih]
    constructor
    · rintro ⟨_, y, ys, hy, hys, -⟩
      exact ⟨⟨y, hy⟩, ys, hys⟩
    · rintro ⟨⟨y, hy⟩, ys, hys⟩
      exact ⟨y :: ys, y, ys, hy, hys, rfl⟩

/-- Every result comes from an item. -/
theorem exists_item_of_mem {α β : Type} {R : α → β → Prop} {xs : List α} {ys : List β}
    (h : List.Forall₂ R xs ys) {y : β} (hy : y ∈ ys) : ∃ x ∈ xs, R x y := by
  induction h with
  | nil => cases hy
  | cons hhead _ ih =>
    rcases List.mem_cons.mp hy with rfl | htail
    · exact ⟨_, List.mem_cons_self, hhead⟩
    · obtain ⟨x, hx, hR⟩ := ih htail
      exact ⟨x, List.mem_cons_of_mem _ hx, hR⟩

/-- What a failed computation failed with. -/
def errorOf {ε α : Type} : Except ε α → Option ε
  | .error e => some e
  | .ok _ => none

theorem eq_error_of_errorOf {ε α : Type} {x : Except ε α} {e : ε} (h : errorOf x = some e) :
    x = .error e := by
  cases x with
  | error e' => rw [Option.some.inj h]
  | ok a => cases h

theorem exists_ok_of_errorOf {ε α : Type} {x : Except ε α} (h : errorOf x = none) :
    ∃ a, x = .ok a := by
  cases x with
  | error e => cases h
  | ok a => exact ⟨a, rfl⟩

end AgentRuntime.Lib
