import Mathlib.Data.Rat.Floor
import Mathlib.Tactic.Positivity

/-!
# Binary64 arithmetic over the rationals

A finite binary64 number is the rational it denotes. `binary64` is the conversion every
correctly rounded operation ends with: round to 53 significant bits, ties to even, with the
subnormal exponent floor, and no result once the magnitude rounds past the largest finite number.
-/

namespace AgentRuntime.Lib

/-- Round to the nearest integer, ties to even. -/
def roundHalfEven (q : ℚ) : ℤ :=
  let below := q.num / q.den
  let rest := q - below
  if rest < 1 / 2 then below
  else if 1 / 2 < rest then below + 1
  else if below % 2 = 0 then below
  else below + 1

/-- The integer part, towards zero. -/
def truncate (q : ℚ) : ℤ := q.num.tdiv q.den

/-- `⌊log₂ q⌋` for a positive rational. -/
def floorLog2 (q : ℚ) : ℤ :=
  let guess : ℤ := (q.num.natAbs.log2 : ℤ) - q.den.log2
  if (2 : ℚ) ^ guess ≤ q then guess else guess - 1

/-- Nearest number with 53 significant bits, or a multiple of `2⁻¹⁰⁷⁴` below the normal range. -/
def roundBinary64 (q : ℚ) : ℚ :=
  if q = 0 then 0
  else
    let exponent := max (floorLog2 |q| - 52) (-1074)
    roundHalfEven (q / 2 ^ exponent) * 2 ^ exponent

/-- The magnitude from which rounding leaves the finite range: half a unit in the last place past
the largest finite number, where the tie goes up. -/
def binary64Limit : ℚ := 2 ^ 1024 - 2 ^ 970

/-- The finite binary64 number nearest to `q`; `none` beyond the finite range. -/
def binary64 (q : ℚ) : Option ℚ :=
  if |q| < binary64Limit then some (roundBinary64 q) else none

variable {q : ℚ}

theorem binary64_eq_none : binary64 q = none ↔ binary64Limit ≤ |q| := by
  unfold binary64
  split
  · rename_i h
    simp [not_le.mpr h]
  · rename_i h
    simp [not_lt.mp h]

example : binary64 (1 / 10) = some (3602879701896397 / 36028797018963968) := by decide +kernel

/-! ### Signs and integers -/

theorem truncate_eq_floor (h : 0 ≤ q) : truncate q = ⌊q⌋ := by
  unfold truncate
  rw [Rat.floor_def', Int.tdiv_eq_ediv_of_nonneg (Rat.num_nonneg.mpr h)]

theorem truncate_nonneg (h : 0 ≤ q) : 0 ≤ truncate q := by
  rw [truncate_eq_floor h]
  exact Int.floor_nonneg.mpr h

theorem truncate_le (h : 0 ≤ q) : (truncate q : ℚ) ≤ q := by
  rw [truncate_eq_floor h]
  exact Int.floor_le q

@[simp] theorem truncate_intCast (n : ℤ) : truncate n = n := by
  simp [truncate]

/-- Rounding goes down by at most a half, or up by at most a half. -/
theorem roundHalfEven_cases (q : ℚ) :
    (roundHalfEven q = ⌊q⌋ ∧ q - ⌊q⌋ ≤ 1 / 2) ∨ (roundHalfEven q = ⌊q⌋ + 1 ∧ 1 / 2 ≤ q - ⌊q⌋) := by
  have hfloor : q.num / q.den = ⌊q⌋ := Rat.floor_def'.symm
  unfold roundHalfEven
  dsimp only
  rw [hfloor]
  split_ifs with hlow hhigh heven
  · exact .inl ⟨rfl, hlow.le⟩
  · exact .inr ⟨rfl, hhigh.le⟩
  · exact .inl ⟨rfl, not_lt.mp hhigh⟩
  · exact .inr ⟨rfl, not_lt.mp hlow⟩

theorem roundHalfEven_le_of_le {m : ℤ} (h : q ≤ m) : roundHalfEven q ≤ m := by
  have hfloor : ⌊q⌋ ≤ m := Int.floor_le_iff.mpr (h.trans_lt (lt_add_one _))
  rcases roundHalfEven_cases q with ⟨heq, -⟩ | ⟨heq, hhalf⟩
  · rw [heq]
    exact hfloor
  · rw [heq]
    by_contra hlt
    have hle : (m : ℚ) ≤ ⌊q⌋ := by
      have : m ≤ ⌊q⌋ := by omega
      exact_mod_cast this
    linarith

/-- A number is rounded past `k` from the middle between `k` and its successor on, where the tie goes
up from an odd `k`. -/
theorem lt_roundHalfEven_iff {k : ℤ} :
    k < roundHalfEven q ↔ (k : ℚ) + 1 / 2 < q ∨ q = k + 1 / 2 ∧ Odd k := by
  have hfloor : q.num / q.den = ⌊q⌋ := Rat.floor_def'.symm
  have hle := Int.floor_le q
  have hlt := Int.lt_floor_add_one q
  unfold roundHalfEven
  dsimp only
  rw [hfloor]
  rcases lt_trichotomy ⌊q⌋ k with hbelow | hsame | habove
  · have hcast : (⌊q⌋ : ℚ) + 1 ≤ k := by exact_mod_cast hbelow
    refine iff_of_false (by split_ifs <;> omega) ?_
    rintro (h | ⟨h, -⟩) <;> linarith
  · rw [hsame] at hle hlt ⊢
    rw [Int.odd_iff]
    split_ifs with hlow hhigh heven
    · refine iff_of_false (lt_irrefl k) ?_
      rintro (h | ⟨h, -⟩) <;> linarith
    · exact iff_of_true (lt_add_one k) (.inl (by linarith))
    · refine iff_of_false (lt_irrefl k) ?_
      rintro (h | ⟨-, h⟩)
      · linarith
      · omega
    · exact iff_of_true (lt_add_one k) (.inr ⟨by linarith, by omega⟩)
  · have hcast : (k : ℚ) + 1 ≤ ⌊q⌋ := by exact_mod_cast habove
    exact iff_of_true (by split_ifs <;> omega) (.inl (by linarith))

/-- The other side of a middle whose tie `p` decides. -/
theorem not_above_iff {α : Type} [LinearOrder α] {x middle : α} {p : Prop} :
    ¬ (middle < x ∨ x = middle ∧ p) ↔ x < middle ∨ x = middle ∧ ¬ p := by
  rcases lt_trichotomy x middle with h | h | h
  · simp [h, h.ne, h.le]
  · simp [h]
  · simp [h, h.ne', h.le]

theorem roundHalfEven_lt_iff {k : ℤ} :
    roundHalfEven q < k ↔ q < k - 1 / 2 ∨ q = k - 1 / 2 ∧ Odd k := by
  have hprevious : Odd (k - 1) ↔ ¬ Odd k := by rw [Int.odd_iff, Int.odd_iff]; omega
  have hmiddle : ((k - 1 : ℤ) : ℚ) + 1 / 2 = k - 1 / 2 := by push_cast; ring
  rw [← not_le, ← Int.sub_one_lt_iff, lt_roundHalfEven_iff, hprevious, hmiddle, not_above_iff,
    not_not]

/-- Rounding moves a number by at most a half. -/
theorem abs_roundHalfEven_sub_le (q : ℚ) : |(roundHalfEven q : ℚ) - q| ≤ 1 / 2 := by
  have hle := Int.floor_le q
  have hlt := Int.lt_floor_add_one q
  rcases roundHalfEven_cases q with ⟨heq, hhalf⟩ | ⟨heq, hhalf⟩
  · rw [heq, abs_le]
    constructor <;> linarith
  · rw [heq, abs_le]
    push_cast
    constructor <;> linarith

theorem roundHalfEven_nonneg (h : 0 ≤ q) : 0 ≤ roundHalfEven q := by
  have hbelow : 0 ≤ q.num / q.den := Int.ediv_nonneg (Rat.num_nonneg.mpr h) (by positivity)
  unfold roundHalfEven
  dsimp only
  split_ifs <;> omega

theorem roundBinary64_nonneg (h : 0 ≤ q) : 0 ≤ roundBinary64 q := by
  unfold roundBinary64
  split
  · exact le_refl 0
  · dsimp only
    generalize max (floorLog2 |q| - 52) (-1074) = exponent
    have hpow : (0 : ℚ) < 2 ^ exponent := zpow_pos (by norm_num) exponent
    have hround : 0 ≤ roundHalfEven (q / 2 ^ exponent) :=
      roundHalfEven_nonneg (div_nonneg h hpow.le)
    exact mul_nonneg (by exact_mod_cast hround) hpow.le

@[simp] theorem roundBinary64_zero : roundBinary64 0 = 0 := if_pos rfl

@[simp] theorem roundHalfEven_zero : roundHalfEven 0 = 0 := by
  simp [roundHalfEven]

/-- The integer nearest to `a / n`, ties to even. -/
def nearest (a : ℤ) (n : ℕ) : ℤ :=
  if 2 * (a % n) < n then a / n
  else if n < 2 * (a % n) then a / n + 1
  else if a / n % 2 = 0 then a / n
  else a / n + 1

theorem roundHalfEven_div (a : ℤ) {n : ℕ} (hn : 0 < n) : roundHalfEven (a / n) = nearest a n := by
  have hn' : (0 : ℚ) < n := by exact_mod_cast hn
  have hfloor : ((a : ℚ) / n).num / ((a : ℚ) / n).den = a / n := by
    rw [← Rat.floor_def', Rat.floor_intCast_div_natCast]
  have hrest : (a : ℚ) / n - ((a / n : ℤ) : ℚ) = (a % n : ℤ) / n := by
    have hsplit : (a : ℚ) = (a % n : ℤ) + n * ((a / n : ℤ) : ℚ) := by
      exact_mod_cast (Int.emod_add_mul_ediv a n).symm
    rw [div_sub' hn'.ne']
    congr 1
    linarith
  have hlow : ((a % n : ℤ) : ℚ) / n < 1 / 2 ↔ 2 * (a % n) < n := by
    rw [div_lt_div_iff₀ hn' two_pos, ← Int.cast_lt (R := ℚ)]
    push_cast
    rw [one_mul, mul_comm]
  have hhigh : 1 / 2 < ((a % n : ℤ) : ℚ) / n ↔ n < 2 * (a % n) := by
    rw [div_lt_div_iff₀ two_pos hn', ← Int.cast_lt (R := ℚ)]
    push_cast
    rw [one_mul, mul_comm]
  unfold roundHalfEven nearest
  simp only [hfloor, hrest, hlow, hhigh]

/-! ### Decimal places -/

/-- `round(q, digits)`: to the nearest multiple of a power of ten, ties to even. -/
def roundTo (digits : ℕ) (q : ℚ) : ℚ := roundHalfEven (q * 10 ^ digits) / 10 ^ digits

theorem abs_roundTo_sub_le (digits : ℕ) (q : ℚ) : |roundTo digits q - q| ≤ 1 / 2 / 10 ^ digits := by
  have hpow : (0 : ℚ) < 10 ^ digits := by positivity
  have hround := abs_roundHalfEven_sub_le (q * 10 ^ digits)
  have hscale : roundTo digits q - q
      = (roundHalfEven (q * 10 ^ digits) - q * 10 ^ digits) / 10 ^ digits := by
    unfold roundTo
    field_simp
  rw [hscale, abs_div, abs_of_pos hpow]
  exact div_le_div_of_nonneg_right hround hpow.le

end AgentRuntime.Lib
