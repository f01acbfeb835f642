import AgentRuntime.Lib.Interleaving
import Mathlib.Order.Basic

/-!
# Cycles of waiting transactions

Transactions that take their locks in an order cannot wait for each other in a circle: whoever waits
stands somewhere in the order, and whom it waits for stands further up. Where the order is kept only
up to one level, at which a transaction that waits there and is waited for there is marked, a circle
consists of marked transactions; so there is none as long as at most one transaction is marked.

* `Rises`: along every two waits in a row the level rises, or stays at a marked transaction;
* `Rises.path`: what follows along a whole chain of waits;
* `Rises.acyclic`: no circle if at most one transaction is marked;
* `Config.waits`, `Config.waits_iff`: the waits of a configuration, computed.
-/

namespace AgentRuntime.Lib

/-! ### Climbing -/

section Climbing

variable {ι S : Type} [Preorder S]

/-- `W s i j` says that `i`, standing at level `s`, waits for `j`. -/
def Rises (W : S → ι → ι → Prop) (Marked : ι → Prop) : Prop :=
  ∀ (s s' : S) (i j k : ι), W s i j → W s' j k → s < s' ∨ (s = s' ∧ Marked j)

variable {W : S → ι → ι → Prop} {Marked : ι → Prop}

/-- **A chain of waits.** From its first wait to its last one the level has risen, unless both ends of
the chain in between are marked. -/
theorem Rises.path (h : Rises W Marked) {s s' : S} {i j m n : ι} (hfirst : W s i j)
    (hchain : Relation.ReflTransGen (fun a b => ∃ r, W r a b) j m) (hlast : W s' m n) :
    s < s' ∨ (s = s' ∧ Marked j ∧ Marked m) := by
  induction hchain generalizing s' n with
  | refl => exact (h _ _ _ _ _ hfirst hlast).imp_right fun ⟨hs, hj⟩ => ⟨hs, hj, hj⟩
  | tail _ hedge ih =>
    obtain ⟨r, hedge⟩ := hedge
    rcases ih hedge with hlt | ⟨rfl, hj, -⟩
    · rcases h _ _ _ _ _ hedge hlast with hlt' | ⟨rfl, -⟩
      · exact .inl (hlt.trans hlt')
      · exact .inl hlt
    · exact (h _ _ _ _ _ hedge hlast).imp_right fun ⟨hs, hm⟩ => ⟨hs, hj, hm⟩

/-- **No circle.** It is enough to give a level to those who wait for somebody who waits. -/
theorem Rises.acyclic (h : Rises W Marked) (hone : ∀ i j, Marked i → Marked j → i = j)
    {E : ι → ι → Prop} (hself : ∀ i, ¬ E i i)
    (hlevel : ∀ {i j k}, E i j → E j k → ∃ s, W s i j) (i : ι) : ¬ Relation.TransGen E i i := by
  have hchain : ∀ {j m n}, Relation.ReflTransGen E j m → E m n →
      Relation.ReflTransGen (fun a b => ∃ s, W s a b) j m := by
    intro j m n hpath
    induction hpath generalizing n with
    | refl => exact fun _ => .refl
    | tail _ hab ih => exact fun hbc => (ih hab).tail (hlevel hab hbc)
  intro hcycle
  obtain ⟨j, hij, hji⟩ := Relation.TransGen.head'_iff.mp hcycle
  have hnext : ∃ k, E j k := by
    rcases Relation.ReflTransGen.cases_head hji with rfl | ⟨k, hjk, -⟩
    · exact ⟨_, hij⟩
    · exact ⟨k, hjk⟩
  obtain ⟨k, hjk⟩ := hnext
  obtain ⟨s, hs⟩ := hlevel hij hjk
  rcases h.path hs (hchain hji hij) hs with hlt | ⟨-, hj, hi⟩
  · exact lt_irrefl s hlt
  · rw [hone j i hj hi] at hij
    exact hself i hij

end Climbing

/-! ### The waits of a configuration -/

namespace Config

variable {ι σ ω ℓ ε α ρ : Type} [DecidableEq ρ]

/-- Does the `i`-th session ask for something that the `j`-th holds? -/
def waits (K : Locking ω ℓ ρ) (c : Config ι σ ω ℓ ε α ρ) (i j : ℕ) : Bool :=
  i != j && c.sessions[i]?.any fun x => c.sessions[j]?.any fun y =>
    (x.stage.asks K).any fun h => y.stage.held.any fun h' => decide (Conflicts h h')

theorem waits_iff {K : Locking ω ℓ ρ} {c : Config ι σ ω ℓ ε α ρ} {i j : ℕ} :
    c.waits K i j = true ↔ c.WaitsFor K i j := by
  simp only [waits, WaitsFor, Bool.and_eq_true, bne_iff_ne, Option.any_eq_true, List.any_eq_true,
    decide_eq_true_eq]
  constructor
  · rintro ⟨hne, x, hx, y, hy, hconflict⟩
    exact ⟨hne, x, y, hx, hy, hconflict⟩
  · rintro ⟨hne, x, y, hx, hy, hconflict⟩
    exact ⟨hne, x, hx, y, hy, hconflict⟩

end Config

end AgentRuntime.Lib
