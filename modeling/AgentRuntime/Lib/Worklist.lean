import Mathlib.Data.List.Perm.Basic

/-!
# Stacks of pending positions

A traversal that keeps its own stack of pairs (item, depth) visits, whatever the order in which it
takes them, every position below the items it starts from exactly once. `Nesting` is a type whose
items have sub-items, none of them for ever; `positions` is the list of what lies below an item, and
`pendingPositions` what a stack still has to visit.

* `positions_cons`: an item, then what lies below its sub-items;
* `pendingPositions_push`: replacing the top of the stack by its sub-items takes away exactly the
  position that was on top;
* `child_mem_positions`: the positions are closed under taking sub-items.
-/

namespace AgentRuntime.Lib

/-- Items with sub-items; some rank bounds how far the nesting goes. -/
structure Nesting (α : Type) where
  children : α → List α
  founded : ∃ rank : α → ℕ, ∀ a, ∀ b ∈ children a, rank b < rank a

namespace Nesting

variable {α : Type} (N : Nesting α)

/-- A rank of the items. -/
noncomputable def rank : α → ℕ := N.founded.choose

theorem rank_lt (a : α) : ∀ b ∈ N.children a, N.rank b < N.rank a := N.founded.choose_spec a

/-- The positions of an item at a depth: itself and everything below it. -/
def positions (a : α) (depth : ℕ) : List (α × ℕ) :=
  (a, depth) :: (N.children a).attach.flatMap fun b => positions b.1 (depth + 1)
termination_by N.rank a
decreasing_by exact N.rank_lt a b.1 b.2

theorem positions_cons (a : α) (depth : ℕ) :
    N.positions a depth
      = (a, depth) :: (N.children a).flatMap fun b => N.positions b (depth + 1) := by
  rw [positions]
  simp [List.flatMap]

theorem self_mem_positions (a : α) (depth : ℕ) : (a, depth) ∈ N.positions a depth := by
  rw [positions_cons]
  exact List.mem_cons_self

theorem mem_positions_child {a b : α} {depth : ℕ} {p : α × ℕ} (hb : b ∈ N.children a)
    (hp : p ∈ N.positions b (depth + 1)) : p ∈ N.positions a depth := by
  rw [positions_cons]
  exact List.mem_cons_of_mem _ (List.mem_flatMap.mpr ⟨b, hb, hp⟩)

/-- The sub-items of an item at a position are at positions. -/
theorem child_mem_positions {a b c : α} {depth d : ℕ} (hb : (b, d) ∈ N.positions a depth)
    (hc : c ∈ N.children b) : (c, d + 1) ∈ N.positions a depth := by
  induction hn : N.rank a using Nat.strongRecOn generalizing a depth with
  | _ n ih =>
    rw [positions_cons] at hb
    rcases List.mem_cons.mp hb with heq | hbelow
    · obtain ⟨rfl, rfl⟩ := Prod.mk.inj heq
      exact N.mem_positions_child hc (N.self_mem_positions c _)
    · obtain ⟨a', ha', hb'⟩ := List.mem_flatMap.mp hbelow
      exact N.mem_positions_child ha' (ih _ (hn ▸ N.rank_lt a a' ha') hb' rfl)

/-! ### Stacks -/

/-- What a stack still has to visit. -/
def pendingPositions (pending : List (α × ℕ)) : List (α × ℕ) :=
  pending.flatMap fun p => N.positions p.1 p.2

@[simp] theorem pendingPositions_nil : N.pendingPositions [] = [] := rfl

@[simp] theorem pendingPositions_singleton (a : α) (depth : ℕ) :
    N.pendingPositions [(a, depth)] = N.positions a depth := by
  simp [pendingPositions]

/-- The sub-items of an item, as they are pushed. -/
def push (a : α) (depth : ℕ) (pending : List (α × ℕ)) : List (α × ℕ) :=
  ((N.children a).map fun b => (b, depth + 1)).reverse ++ pending

/-- **One visit**: the position on top is gone and everything below it is pending. -/
theorem pendingPositions_push (a : α) (depth : ℕ) (pending : List (α × ℕ)) :
    (N.pendingPositions ((a, depth) :: pending)).Perm
      ((a, depth) :: N.pendingPositions (N.push a depth pending)) := by
  have hbelow : ((N.children a).flatMap fun b => N.positions b (depth + 1)).Perm
      (((N.children a).map fun b => (b, depth + 1)).reverse.flatMap
        fun p => N.positions p.1 p.2) := by
    rw [show ((N.children a).flatMap fun b => N.positions b (depth + 1))
        = ((N.children a).map fun b => (b, depth + 1)).flatMap fun p => N.positions p.1 p.2 by
      rw [List.flatMap_map]]
    exact (List.reverse_perm _).symm.flatMap_right _
  simp only [pendingPositions, push, List.flatMap_cons, List.flatMap_append, N.positions_cons a]
  exact (hbelow.append_right _).cons _

/-- Every pending item is a position to visit. -/
theorem length_le_pendingPositions (pending : List (α × ℕ)) :
    pending.length ≤ (N.pendingPositions pending).length := by
  induction pending with
  | nil => exact Nat.zero_le _
  | cons p pending ih =>
    have hone : 1 ≤ (N.positions p.1 p.2).length :=
      List.length_pos_of_mem (N.self_mem_positions p.1 p.2)
    simp only [pendingPositions, List.flatMap_cons, List.length_append, List.length_cons] at ih ⊢
    omega

theorem length_children_le_push (a : α) (depth : ℕ) (pending : List (α × ℕ)) :
    (N.children a).length ≤ (N.push a depth pending).length := by
  simp [push]

end Nesting

end AgentRuntime.Lib
