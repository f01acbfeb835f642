import AgentRuntime.Lib.Ranking

/-!
# Deleting the least rows

A `DELETE` whose rows are selected by `WHERE p ORDER BY key LIMIT n`: the selected rows are named by
their positions, so that equal rows are different rows.

* `least`: the selected rows with their positions; `withoutLeast` — the rows that stay;
* `perm_least`: every row is selected or stays, and not both;
* `key_le_of_mem_least`: no selected row comes after one that could have been selected instead;
* `length_least`, `countP_withoutLeast`: how many are selected, and how many more could have been.
-/

namespace AgentRuntime.Lib

variable {α κ : Type} [LinearOrder κ]

/-- The first `n` rows by `key` of those that satisfy `p`; equal keys in the order of the rows. -/
def least (p : α → Bool) (key : α → κ) (n : ℕ) (rows : List α) : List (α × ℕ) :=
  ((rows.zipIdx.filter fun r => p r.1).insertionSort fun r q => key r.1 ≤ key q.1).take n

variable {p : α → Bool} {key : α → κ} {n : ℕ} {rows : List α}

theorem nodup_zipIdx (rows : List α) : rows.zipIdx.Nodup := by
  refine List.Nodup.of_map Prod.snd ?_
  rw [List.zipIdx_map_snd]
  exact List.nodup_range'

theorem perm_sorted : ((rows.zipIdx.filter fun r => p r.1).insertionSort
      fun r q => key r.1 ≤ key q.1).Perm (rows.zipIdx.filter fun r => p r.1) :=
  List.perm_insertionSort _ _

theorem least_nodup : (least p key n rows).Nodup :=
  ((perm_sorted.nodup_iff.mpr ((nodup_zipIdx rows).filter _))).sublist (List.take_sublist _ _)

theorem mem_of_mem_least {r : α × ℕ} (h : r ∈ least p key n rows) :
    r ∈ rows.zipIdx ∧ p r.1 = true :=
  List.mem_filter.mp (perm_sorted.mem_iff.mp (List.mem_of_mem_take h))

/-- The selected rows come in the order of their keys. -/
theorem least_sorted : ((least p key n rows).map Prod.fst).Pairwise fun a b => key a ≤ key b := by
  rw [List.pairwise_map]
  exact (ranking_sorted (fun r : α × ℕ => key r.1) _).sublist (List.take_sublist _ _)

/-- **How many rows are selected.** -/
theorem length_least : (least p key n rows).length = min n (rows.countP p) := by
  have hcount : (rows.zipIdx.filter fun r => p r.1).length = rows.countP p := by
    have hrows : rows.zipIdx.map Prod.fst = rows := List.zipIdx_map_fst 0 rows
    calc (rows.zipIdx.filter fun r => p r.1).length
        = rows.zipIdx.countP (p ∘ Prod.fst) := List.countP_eq_length_filter.symm
      _ = (rows.zipIdx.map Prod.fst).countP p := List.countP_map.symm
      _ = rows.countP p := by rw [hrows]
  unfold least
  rw [List.length_take, List.length_insertionSort, hcount]

variable [DecidableEq α]

/-- The rows that are not among those. -/
def withoutLeast (p : α → Bool) (key : α → κ) (n : ℕ) (rows : List α) : List α :=
  (rows.zipIdx.filter fun r => decide (r ∉ least p key n rows)).map Prod.fst

/-- **Every row is selected or stays.** -/
theorem perm_least :
    rows.Perm ((least p key n rows).map Prod.fst ++ withoutLeast p key n rows) := by
  have hselected : (rows.zipIdx.filter fun r => decide (r ∈ least p key n rows)).Perm
      (least p key n rows) := by
    refine (List.perm_ext_iff_of_nodup ((nodup_zipIdx rows).filter _) least_nodup).mpr fun r => ?_
    rw [List.mem_filter, decide_eq_true_eq]
    exact ⟨fun h => h.2, fun h => ⟨(mem_of_mem_least h).1, h⟩⟩
  have hsplit : (rows.zipIdx.filter (fun r => decide (r ∈ least p key n rows))
      ++ rows.zipIdx.filter fun r => decide (r ∉ least p key n rows)).Perm rows.zipIdx := by
    have hnot : (fun r => decide (r ∉ least p key n rows))
        = fun r => !decide (r ∈ least p key n rows) := funext fun r => decide_not
    rw [hnot]
    exact List.filter_append_perm _ _
  have hrows : rows.zipIdx.map Prod.fst = rows := List.zipIdx_map_fst 0 rows
  have hperm := (hsplit.symm.trans (hselected.append_right _)).map Prod.fst
  rwa [hrows, List.map_append] at hperm

theorem withoutLeast_sublist : (withoutLeast p key n rows).Sublist rows := by
  have hrows : rows.zipIdx.map Prod.fst = rows := List.zipIdx_map_fst 0 rows
  have hsub : (withoutLeast p key n rows).Sublist (rows.zipIdx.map Prod.fst) :=
    List.filter_sublist.map _
  rwa [hrows] at hsub

/-- **No selected row comes after one that could have been selected instead.** -/
theorem key_le_of_mem_least {a b : α} (ha : a ∈ (least p key n rows).map Prod.fst)
    (hb : b ∈ withoutLeast p key n rows) (hp : p b = true) : key a ≤ key b := by
  obtain ⟨r, hr, rfl⟩ := List.mem_map.mp ha
  obtain ⟨q, hq, rfl⟩ := List.mem_map.mp hb
  obtain ⟨hmem, hout⟩ := List.mem_filter.mp hq
  -- the row that stays is in the sorted list, behind the selected ones
  have hsorted := ranking_sorted (fun r => key r.1) (rows.zipIdx.filter fun r => p r.1)
  rw [ranking, ← List.take_append_drop n (List.insertionSort _ _), List.pairwise_append] at hsorted
  refine hsorted.2.2 r hr q ?_
  have hall : q ∈ (rows.zipIdx.filter fun r => p r.1).insertionSort
      fun r q => key r.1 ≤ key q.1 := perm_sorted.mem_iff.mpr (List.mem_filter.mpr ⟨hmem, hp⟩)
  rw [← List.take_append_drop n (List.insertionSort _ _), List.mem_append] at hall
  exact hall.resolve_left (of_decide_eq_true hout)

/-- How many rows that could have been selected stay. -/
theorem countP_withoutLeast :
    (withoutLeast p key n rows).countP p = rows.countP p - n := by
  have hselected : ((least p key n rows).map Prod.fst).countP p = (least p key n rows).length := by
    rw [List.countP_eq_length.mpr, List.length_map]
    intro a ha
    obtain ⟨r, hr, rfl⟩ := List.mem_map.mp ha
    exact (mem_of_mem_least hr).2
  have hperm : rows.Perm ((least p key n rows).map Prod.fst ++ withoutLeast p key n rows) :=
    perm_least
  have hsum := hperm.countP_eq p
  rw [List.countP_append, hselected, length_least] at hsum
  omega

end AgentRuntime.Lib
