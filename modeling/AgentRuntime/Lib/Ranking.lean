import Mathlib.Data.List.Sort

/-!
# Rankings

A program that sorts with a comparison of its own ranks a list by a key as soon as the comparison
agrees, on the items of that list, with the order of the keys. A ranking by a key that tells the
items apart depends on which items there are and not on the order they come in.

* `insertionSort_eq_ranking`: a comparison that agrees with the keys sorts by them;
* `ranking_sorted`: the keys of a ranking do not decrease;
* `ranking_congr_perm`: the order of the items does not matter.
-/

namespace AgentRuntime.Lib

variable {α κ : Type*} [LinearOrder κ] (key : α → κ)

/-- The items by their keys. -/
def ranking (l : List α) : List α := l.insertionSort fun a b => key a ≤ key b

theorem ranking_perm (l : List α) : (ranking key l).Perm l := List.perm_insertionSort _ l

theorem ranking_sorted (l : List α) : (ranking key l).Pairwise fun a b => key a ≤ key b := by
  have htotal : Std.Total fun a b => key a ≤ key b := ⟨fun a b => le_total (key a) (key b)⟩
  have htrans : IsTrans α fun a b => key a ≤ key b := ⟨fun _ _ _ hab hbc => hab.trans hbc⟩
  exact List.pairwise_insertionSort _ l

variable {key}

/-- **The order of the items does not matter** where the keys tell them apart. -/
theorem ranking_congr_perm {l l' : List α} (hperm : l.Perm l')
    (hkey : ∀ a ∈ l, ∀ b ∈ l, key a = key b → a = b) : ranking key l = ranking key l' := by
  refine List.Perm.eq_of_pairwise (fun a b ha hb hab hba => ?_) (ranking_sorted key l)
    (ranking_sorted key l') ((ranking_perm key l).trans (hperm.trans (ranking_perm key l').symm))
  exact hkey a ((ranking_perm key l).mem_iff.mp ha) b
    (hperm.mem_iff.mpr ((ranking_perm key l').mem_iff.mp hb)) (le_antisymm hab hba)

section Comparison

variable {r : α → α → Prop} [DecidableRel r]

theorem orderedInsert_congr {a : α} {l : List α} (h : ∀ b ∈ l, r a b ↔ key a ≤ key b) :
    l.orderedInsert r a = l.orderedInsert (fun a b => key a ≤ key b) a := by
  induction l with
  | nil => rfl
  | cons b l ih =>
    obtain ⟨hb, hl⟩ := List.forall_mem_cons.mp h
    rw [List.orderedInsert_cons, List.orderedInsert_cons, ih hl]
    by_cases hab : r a b
    · rw [if_pos hab, if_pos (hb.mp hab)]
    · rw [if_neg hab, if_neg fun hle => hab (hb.mpr hle)]

/-- **A comparison that agrees with the keys sorts by them.** -/
theorem insertionSort_eq_ranking {l : List α} (h : ∀ a ∈ l, ∀ b ∈ l, r a b ↔ key a ≤ key b) :
    l.insertionSort r = ranking key l := by
  induction l with
  | nil => rfl
  | cons a l ih =>
    have htail : l.insertionSort r = ranking key l :=
      ih fun b hb c hc => h b (List.mem_cons_of_mem _ hb) c (List.mem_cons_of_mem _ hc)
    rw [List.insertionSort_cons, htail]
    refine orderedInsert_congr fun b hb => h a List.mem_cons_self b ?_
    exact List.mem_cons_of_mem _ ((ranking_perm key l).mem_iff.mp hb)

end Comparison

end AgentRuntime.Lib
