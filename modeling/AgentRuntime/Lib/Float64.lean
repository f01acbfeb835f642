import AgentRuntime.Lib.Binary64
import Mathlib.Data.Sum.Order
import Mathlib.Data.String.Basic

/-!
# Binary64 numbers with infinities

`Float64` is what a float holds apart from the sign of a zero: a finite number, one of the two
infinities, or no number. The operations round exactly once. The comparisons are those of the
floating-point standard, so nothing is below, above or equal to `nan`; on everything else they are
the order of the extended rationals, and a lexicographic comparison of tuples of integers, floats
and texts is then a linear order as well.

* `Float64.ofRat`, `add`, `neg`, `mul`: rounded operations;
* `Float64.lt_iff_level`, `Float64.eq_iff_level`: comparisons away from `nan`;
* `tupleLt_iff_level`: comparing tuples of comparable parts is a linear order.
-/

namespace AgentRuntime.Lib

/-- A binary64 number, an infinity or `nan`. -/
inductive Float64 where
  | finite (q : ℚ)
  | infinity
  | negInfinity
  | nan
  deriving DecidableEq

namespace Float64

/-- The rounded value of an exact result; past the finite range, the infinity of its sign. -/
def ofRat (q : ℚ) : Float64 :=
  match binary64 q with
  | some r => .finite r
  | none => if q < 0 then .negInfinity else .infinity

theorem ofRat_ne_nan (q : ℚ) : ofRat q ≠ .nan := by
  unfold ofRat
  cases binary64 q with
  | some r => simp
  | none =>
    dsimp only
    split <;> simp

def neg : Float64 → Float64
  | .finite q => .finite (-q)
  | .infinity => .negInfinity
  | .negInfinity => .infinity
  | .nan => .nan

def add : Float64 → Float64 → Float64
  | .finite p, .finite q => ofRat (p + q)
  | .nan, _ | _, .nan => .nan
  | .infinity, .negInfinity | .negInfinity, .infinity => .nan
  | .infinity, _ | _, .infinity => .infinity
  | .negInfinity, _ | _, .negInfinity => .negInfinity

def sub (x y : Float64) : Float64 := x.add y.neg

/-- An infinity times a finite number. -/
def scaleInfinity (x : Float64) (q : ℚ) : Float64 :=
  if q = 0 then .nan else if q < 0 then x.neg else x

def mul : Float64 → Float64 → Float64
  | .finite p, .finite q => ofRat (p * q)
  | .nan, _ | _, .nan => .nan
  | .finite p, x => scaleInfinity x p
  | x, .finite q => scaleInfinity x q
  | .infinity, x => x
  | .negInfinity, x => x.neg

/-- `x < y`. -/
def lt : Float64 → Float64 → Bool
  | .nan, _ | _, .nan => false
  | .finite p, .finite q => decide (p < q)
  | .negInfinity, y => y != .negInfinity
  | x, .infinity => x != .infinity
  | _, _ => false

/-- `x == y`. -/
def eq (x y : Float64) : Bool := x != .nan && x == y

/-- `x <= y`. -/
def le (x y : Float64) : Bool := x.lt y || x.eq y

/-- The place of a number among the extended rationals. -/
def level : Float64 → WithBot (WithTop ℚ)
  | .finite q => ((q : WithTop ℚ) : WithBot (WithTop ℚ))
  | .infinity => ((⊤ : WithTop ℚ) : WithBot (WithTop ℚ))
  | .negInfinity | .nan => ⊥

variable {x y : Float64}

theorem lt_iff_level (hx : x ≠ .nan) (hy : y ≠ .nan) : x.lt y = true ↔ x.level < y.level := by
  have htop (q : ℚ) : (finite q).level < infinity.level :=
    WithBot.coe_lt_coe.mpr (WithTop.coe_lt_top q)
  cases x <;> cases y <;> simp_all [lt, level]

theorem eq_iff_level (hx : x ≠ .nan) (hy : y ≠ .nan) : x.eq y = true ↔ x.level = y.level := by
  cases x <;> cases y <;> simp_all [eq, level]

theorem le_iff_level (hx : x ≠ .nan) (hy : y ≠ .nan) : x.le y = true ↔ x.level ≤ y.level := by
  unfold le
  rw [Bool.or_eq_true, lt_iff_level hx hy, eq_iff_level hx hy, le_iff_lt_or_eq]

theorem neg_ne_nan {x : Float64} (h : x ≠ .nan) : x.neg ≠ .nan := by
  cases x <;> simp_all [neg]

theorem neg_level_le_iff (hx : x ≠ .nan) (hy : y ≠ .nan) :
    x.neg.level ≤ y.neg.level ↔ y.level ≤ x.level := by
  cases x <;> cases y <;> simp_all [neg, level, -WithTop.LinearOrderedAddCommGroup.coe_neg]

end Float64

/-! ### Tuples -/

/-- A component of a sort key. -/
inductive KeyPart where
  | int (n : ℤ)
  | float (x : Float64)
  | str (s : String)

namespace KeyPart

/-- `a < b`. Keys have the same kind of component at the same place, so the order of the kinds is
never asked for. -/
def lt : KeyPart → KeyPart → Bool
  | .int m, .int n => decide (m < n)
  | .float x, .float y => x.lt y
  | .str s, .str t => decide (s < t)
  | .int _, _ => true
  | .float _, .str _ => true
  | _, _ => false

/-- `a == b`. -/
def eq : KeyPart → KeyPart → Bool
  | .int m, .int n => m == n
  | .float x, .float y => x.eq y
  | .str s, .str t => s == t
  | _, _ => false

/-- The place of a component in a linear order. -/
def level : KeyPart → ℤ ⊕ₗ (WithBot (WithTop ℚ) ⊕ₗ String)
  | .int n => Sum.inlₗ n
  | .float x => Sum.inrₗ (Sum.inlₗ x.level)
  | .str s => Sum.inrₗ (Sum.inrₗ s)

/-- A component that is not `nan`. -/
def Comparable : KeyPart → Prop
  | .float x => x ≠ .nan
  | _ => True

theorem lt_iff_level {a b : KeyPart} (ha : a.Comparable) (hb : b.Comparable) :
    a.lt b = true ↔ a.level < b.level := by
  cases a <;> cases b <;> simp_all [lt, level, Comparable, Float64.lt_iff_level]

theorem eq_iff_level {a b : KeyPart} (ha : a.Comparable) (hb : b.Comparable) :
    a.eq b = true ↔ a.level = b.level := by
  cases a <;> cases b <;> simp_all [eq, level, Comparable, Float64.eq_iff_level]

end KeyPart

/-- `key < other` for tuples: the first components that are not equal decide. -/
def tupleLt : List KeyPart → List KeyPart → Bool
  | [], [] => false
  | [], _ :: _ => true
  | _ :: _, [] => false
  | a :: as, b :: bs => if a.eq b then tupleLt as bs else a.lt b

/-- **Comparable tuples are linearly ordered.** -/
theorem tupleLt_iff_level {k k' : List KeyPart} (hk : ∀ a ∈ k, a.Comparable)
    (hk' : ∀ a ∈ k', a.Comparable) :
    tupleLt k k' = true ↔ k.map KeyPart.level < k'.map KeyPart.level := by
  induction k generalizing k' with
  | nil => cases k' <;> simp [tupleLt]
  | cons a as ih =>
    cases k' with
    | nil => simp [tupleLt]
    | cons b bs =>
      obtain ⟨ha, has⟩ := List.forall_mem_cons.mp hk
      obtain ⟨hb, hbs⟩ := List.forall_mem_cons.mp hk'
      rw [List.map_cons, List.map_cons, List.cons_lt_cons_iff, ← ih has hbs,
        ← KeyPart.lt_iff_level ha hb, ← KeyPart.eq_iff_level ha hb]
      show (if a.eq b then tupleLt as bs else a.lt b) = true ↔ _
      by_cases heq : a.eq b = true
      · have hlt : ¬ a.lt b = true := by
          rw [KeyPart.lt_iff_level ha hb, (KeyPart.eq_iff_level ha hb).mp heq]
          exact lt_irrefl _
        rw [if_pos heq]
        simp [hlt, heq]
      · rw [if_neg heq]
        simp [heq]

end AgentRuntime.Lib
