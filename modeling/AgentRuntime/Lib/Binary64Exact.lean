import AgentRuntime.Lib.Binary64
import Mathlib.Algebra.Order.Field.Power
import Mathlib.Data.Nat.Log
import Mathlib.Data.Nat.Prime.Basic

/-!
# Numbers that are binary64 numbers

A rational is a binary64 number when its significand fits 53 bits and its exponent is at least the
subnormal one. Rounding gives such a number and leaves such a number alone.

* `floorLog2_spec`: the exponent of a positive rational;
* `Dyadic`: a 53-bit significand times a power of two;
* `dyadic_roundBinary64`, `Dyadic.roundBinary64_eq`: rounding gives one, and keeps one;
* `binary64_idem`: what rounding gives is represented exactly.
-/

namespace AgentRuntime.Lib

/-! ### Exponents -/

theorem two_zpow_pos (k : ℤ) : (0 : ℚ) < 2 ^ k := zpow_pos (by norm_num) k

theorem two_zpow_le {j k : ℤ} : (2 : ℚ) ^ j ≤ 2 ^ k ↔ j ≤ k := zpow_le_zpow_iff_right₀ (by norm_num)

theorem two_zpow_lt {j k : ℤ} : (2 : ℚ) ^ j < 2 ^ k ↔ j < k := zpow_lt_zpow_iff_right₀ (by norm_num)

theorem two_zpow_add (j k : ℤ) : (2 : ℚ) ^ (j + k) = 2 ^ j * 2 ^ k := zpow_add₀ (by norm_num) j k

theorem log2_bounds {n : ℕ} (h : n ≠ 0) :
    (2 : ℚ) ^ (n.log2 : ℤ) ≤ n ∧ (n : ℚ) < 2 ^ ((n.log2 : ℤ) + 1) := by
  have hlow : 2 ^ n.log2 ≤ n := Nat.log2_self_le h
  have hhigh : n < 2 ^ (n.log2 + 1) := Nat.lt_log2_self
  constructor
  · rw [zpow_natCast]
    exact_mod_cast hlow
  · rw [show ((n.log2 : ℤ) + 1) = ((n.log2 + 1 : ℕ) : ℤ) by push_cast; rfl, zpow_natCast]
    exact_mod_cast hhigh

/-- The exponents of the numerator and the denominator determine that of the quotient up to one. -/
theorem quotient_bounds {n d : ℕ} (hn : n ≠ 0) (hd : d ≠ 0) :
    (2 : ℚ) ^ ((n.log2 : ℤ) - d.log2 - 1) < n / d
      ∧ (n / d : ℚ) < 2 ^ ((n.log2 : ℤ) - d.log2 + 1) := by
  obtain ⟨hnlow, hnhigh⟩ := log2_bounds hn
  obtain ⟨hdlow, hdhigh⟩ := log2_bounds hd
  have hpos : (0 : ℚ) < d := by exact_mod_cast Nat.pos_of_ne_zero hd
  constructor
  · rw [lt_div_iff₀ hpos]
    calc (2 : ℚ) ^ ((n.log2 : ℤ) - d.log2 - 1) * d
        < 2 ^ ((n.log2 : ℤ) - d.log2 - 1) * 2 ^ ((d.log2 : ℤ) + 1) :=
          mul_lt_mul_of_pos_left hdhigh (two_zpow_pos _)
      _ = 2 ^ (n.log2 : ℤ) := by
          rw [← two_zpow_add]
          congr 1
          omega
      _ ≤ n := hnlow
  · rw [div_lt_iff₀ hpos]
    calc (n : ℚ) < 2 ^ ((n.log2 : ℤ) + 1) := hnhigh
      _ = 2 ^ ((n.log2 : ℤ) - d.log2 + 1) * 2 ^ (d.log2 : ℤ) := by
          rw [← two_zpow_add]
          congr 1
          omega
      _ ≤ 2 ^ ((n.log2 : ℤ) - d.log2 + 1) * d :=
          mul_le_mul_of_nonneg_left hdlow (two_zpow_pos _).le

variable {q : ℚ}

/-- `floorLog2` is the exponent. -/
theorem floorLog2_spec (h : 0 < q) : (2 : ℚ) ^ floorLog2 q ≤ q ∧ q < 2 ^ (floorLog2 q + 1) := by
  have hnum : 0 < q.num := Rat.num_pos.mpr h
  have hq : (q.num.natAbs / q.den : ℚ) = q := by
    rw [Nat.cast_natAbs, abs_of_pos hnum]
    exact Rat.num_div_den q
  obtain ⟨hlow, hhigh⟩ := quotient_bounds (show q.num.natAbs ≠ 0 by omega) q.den_nz
  rw [hq] at hlow hhigh
  unfold floorLog2
  dsimp only
  split_ifs with hguess
  · exact ⟨hguess, hhigh⟩
  · rw [sub_add_cancel]
    exact ⟨hlow.le, not_le.mp hguess⟩

theorem floorLog2_lt (h : 0 < q) {k : ℤ} (hlt : q < 2 ^ k) : floorLog2 q < k :=
  two_zpow_lt.mp ((floorLog2_spec h).1.trans_lt hlt)

/-! ### Rounding to an integer -/

@[simp] theorem roundHalfEven_intCast (n : ℤ) : roundHalfEven n = n := by
  simp [roundHalfEven]

theorem le_roundHalfEven_of_le {m : ℤ} (h : (m : ℚ) ≤ q) : m ≤ roundHalfEven q := by
  have hfloor : m ≤ ⌊q⌋ := Int.le_floor.mpr h
  rcases roundHalfEven_cases q with ⟨heq, -⟩ | ⟨heq, -⟩ <;> omega

theorem abs_roundHalfEven_le {n : ℤ} (h : |q| ≤ n) : |roundHalfEven q| ≤ n := by
  obtain ⟨hlow, hhigh⟩ := abs_le.mp h
  refine abs_le.mpr ⟨le_roundHalfEven_of_le ?_, roundHalfEven_le_of_le hhigh⟩
  push_cast
  exact hlow

/-! ### Binary64 numbers -/

/-- A significand of 53 bits times a power of two, not below the subnormal exponent. -/
def Dyadic (r : ℚ) : Prop := ∃ m e : ℤ, |m| < 2 ^ 53 ∧ -1074 ≤ e ∧ r = m * 2 ^ e

/-- The exponent of the last place of a number. -/
def lastPlace (q : ℚ) : ℤ := max (floorLog2 |q| - 52) (-1074)

theorem roundBinary64_of_ne (h : q ≠ 0) :
    roundBinary64 q = roundHalfEven (q / 2 ^ lastPlace q) * 2 ^ lastPlace q := if_neg h

theorem abs_div_lastPlace_lt (h : q ≠ 0) : |q / 2 ^ lastPlace q| < 2 ^ (53 : ℤ) := by
  rw [abs_div, abs_of_pos (two_zpow_pos _), div_lt_iff₀ (two_zpow_pos _), ← two_zpow_add]
  refine (floorLog2_spec (abs_pos.mpr h)).2.trans_le (two_zpow_le.mpr ?_)
  unfold lastPlace
  omega

theorem abs_significand_le (h : q ≠ 0) : |roundHalfEven (q / 2 ^ lastPlace q)| ≤ 2 ^ 53 := by
  refine abs_roundHalfEven_le ?_
  exact_mod_cast (abs_div_lastPlace_lt h).le

/-- A significand of `2 ^ 53` is one of `2 ^ 52` at the next exponent. -/
theorem dyadic_of_le {m e : ℤ} (hm : |m| ≤ 2 ^ 53) (he : -1074 ≤ e) : Dyadic (m * 2 ^ e) := by
  rcases hm.lt_or_eq with hlt | heq
  · exact ⟨m, e, hlt, he, rfl⟩
  · obtain ⟨k, hk, hkm⟩ : ∃ k : ℤ, |k| < 2 ^ 53 ∧ m = 2 * k := by
      rcases abs_eq (by norm_num) |>.mp heq with rfl | rfl
      · exact ⟨2 ^ 52, by norm_num, by norm_num⟩
      · exact ⟨-2 ^ 52, by norm_num, by norm_num⟩
    refine ⟨k, e + 1, hk, by omega, ?_⟩
    rw [hkm, two_zpow_add]
    push_cast
    ring

/-- **Rounding gives a binary64 number.** -/
theorem dyadic_roundBinary64 (q : ℚ) : Dyadic (roundBinary64 q) := by
  by_cases hq : q = 0
  · exact ⟨0, 0, by norm_num, by norm_num, by simp [hq]⟩
  · rw [roundBinary64_of_ne hq]
    exact dyadic_of_le (abs_significand_le hq) (le_max_right _ _)

/-- **Rounding keeps a binary64 number.** -/
theorem Dyadic.roundBinary64_eq {r : ℚ} (h : Dyadic r) : roundBinary64 r = r := by
  obtain ⟨m, e, hm, he, rfl⟩ := h
  by_cases hzero : (m * 2 ^ e : ℚ) = 0
  · rw [hzero, roundBinary64_zero]
  · rw [roundBinary64_of_ne hzero]
    have hplace : lastPlace (m * 2 ^ e) ≤ e := by
      have hlt : |(m * 2 ^ e : ℚ)| < 2 ^ (53 + e) := by
        rw [abs_mul, abs_of_pos (two_zpow_pos e), two_zpow_add]
        refine mul_lt_mul_of_pos_right ?_ (two_zpow_pos e)
        exact_mod_cast hm
      have := floorLog2_lt (abs_pos.mpr hzero) hlt
      unfold lastPlace
      omega
    -- the number is a multiple of its last place
    generalize lastPlace (m * 2 ^ e) = p at hplace
    obtain ⟨k, rfl⟩ : ∃ k : ℕ, e = p + k := ⟨(e - p).toNat, by omega⟩
    have hscale : (m * 2 ^ (p + (k : ℤ)) : ℚ) / 2 ^ p = ((m * 2 ^ k : ℤ) : ℚ) := by
      rw [two_zpow_add, zpow_natCast]
      push_cast
      field_simp
    rw [hscale, roundHalfEven_intCast, ← hscale]
    field_simp

/-- **Rounding does not go below an integer** of 53 bits. -/
theorem natCast_le_roundBinary64 {m : ℕ} (hm : m < 2 ^ 53) (h : (m : ℚ) ≤ q) :
    (m : ℚ) ≤ roundBinary64 q := by
  rcases Nat.eq_zero_or_pos m with rfl | hpos
  · exact_mod_cast roundBinary64_nonneg (by exact_mod_cast h)
  have hq : 0 < q := lt_of_lt_of_le (by exact_mod_cast hpos) h
  rw [roundBinary64_of_ne hq.ne', ← div_le_iff₀ (two_zpow_pos _)]
  have hspec := (floorLog2_spec hq).1
  have hplace : lastPlace q = max (floorLog2 q - 52) (-1074) := by rw [lastPlace, abs_of_pos hq]
  rcases le_or_gt (lastPlace q) 0 with hlow | hhigh
  · -- the integer is a multiple of the last place
    obtain ⟨k, hk⟩ : ∃ k : ℕ, lastPlace q = -k := ⟨(-lastPlace q).toNat, by omega⟩
    have hscale : (m : ℚ) / 2 ^ lastPlace q = ((m * 2 ^ k : ℤ) : ℚ) := by
      rw [hk, zpow_neg, zpow_natCast, div_inv_eq_mul]
      push_cast
      rfl
    rw [hscale]
    have hle := le_roundHalfEven_of_le (q := q / 2 ^ lastPlace q) (m := m * 2 ^ k) (by
      rw [← hscale]
      exact div_le_div_of_nonneg_right h (two_zpow_pos _).le)
    exact_mod_cast hle
  · -- the significand has 53 bits, and the integer no more
    have hfull : ((2 ^ 52 : ℤ) : ℚ) ≤ q / 2 ^ lastPlace q := by
      rw [le_div_iff₀ (two_zpow_pos _)]
      refine le_trans (le_of_eq ?_) hspec
      rw [show floorLog2 q = 52 + lastPlace q by omega, two_zpow_add]
      norm_num
    have hle : ((2 ^ 52 : ℤ) : ℚ) ≤ roundHalfEven (q / 2 ^ lastPlace q) := by
      exact_mod_cast le_roundHalfEven_of_le hfull
    refine le_trans ?_ hle
    rw [div_le_iff₀ (two_zpow_pos _)]
    have htwo : (2 : ℚ) ^ (1 : ℤ) ≤ 2 ^ lastPlace q := two_zpow_le.mpr (by omega)
    have hm' : (m : ℚ) < 9007199254740992 := by exact_mod_cast hm
    norm_num at htwo ⊢
    linarith

theorem dyadic_of_binary64 {q r : ℚ} (h : binary64 q = some r) : Dyadic r := by
  unfold binary64 at h
  split at h
  · obtain rfl := Option.some.inj h
    exact dyadic_roundBinary64 q
  · cases h

/-- The denominator of a binary64 number is a power of two. -/
theorem Dyadic.den_eq {r : ℚ} (h : Dyadic r) : r.den = 2 ^ r.den.log2 := by
  obtain ⟨m, e, -, -, rfl⟩ := h
  obtain ⟨k, hk⟩ : ∃ k : ℕ, (m * 2 ^ e : ℚ).den ∣ 2 ^ k := by
    rcases le_total 0 e with he | he
    · obtain ⟨k, rfl⟩ := Int.eq_ofNat_of_zero_le he
      refine ⟨0, ?_⟩
      rw [zpow_natCast, show (m * 2 ^ k : ℚ) = ((m * 2 ^ k : ℤ) : ℚ) by push_cast; rfl,
        Rat.den_intCast]
      exact one_dvd _
    · obtain ⟨k, hk⟩ := Int.eq_ofNat_of_zero_le (show 0 ≤ -e by omega)
      refine ⟨k, ?_⟩
      have hquotient : (m * 2 ^ e : ℚ) = Rat.divInt m (2 ^ k) := by
        rw [Rat.divInt_eq_div, show e = -(k : ℤ) by omega, zpow_neg, zpow_natCast]
        push_cast
        rfl
      rw [hquotient]
      exact_mod_cast Rat.den_dvd m (2 ^ k)
  obtain ⟨j, -, hj⟩ := (Nat.dvd_prime_pow Nat.prime_two).mp hk
  rw [hj, Nat.log2_two_pow]

/-! ### The finite range -/

theorem binary64Limit_eq : binary64Limit = (2 ^ 54 - 1) * 2 ^ (970 : ℤ) := by
  unfold binary64Limit
  rw [show (970 : ℤ) = ((970 : ℕ) : ℤ) from rfl, zpow_natCast,
    show 1024 = 54 + 970 from rfl, pow_add, sub_mul, one_mul]

theorem lastPlace_le (hq : q ≠ 0) (h : |q| < binary64Limit) : lastPlace q ≤ 971 := by
  have hlt : |q| < 2 ^ (1024 : ℤ) := by
    refine h.trans ?_
    rw [binary64Limit_eq, show (1024 : ℤ) = 54 + 970 from rfl, two_zpow_add]
    exact mul_lt_mul_of_pos_right (by norm_num) (two_zpow_pos 970)
  have := floorLog2_lt (abs_pos.mpr hq) hlt
  unfold lastPlace
  omega

/-- At the last exponent the limit is half a unit below the next power of two, so that rounding
stays below it. -/
theorem abs_roundHalfEven_lt {x : ℚ} (h : |x| < 2 ^ 53 - 1 / 2) : |roundHalfEven x| ≤ 2 ^ 53 - 1 := by
  have hround := abs_roundHalfEven_sub_le x
  have htriangle : |(roundHalfEven x : ℚ)| ≤ |(roundHalfEven x : ℚ) - x| + |x| := by
    simpa using abs_add_le ((roundHalfEven x : ℚ) - x) x
  have hlt : |(roundHalfEven x : ℚ)| < 2 ^ 53 := by linarith
  have hcast : |roundHalfEven x| < 2 ^ 53 := by exact_mod_cast hlt
  omega

/-- The largest finite binary64 number. -/
def binary64Largest : ℚ := (2 ^ 54 - 2) * 2 ^ (970 : ℤ)

theorem binary64Largest_add : binary64Largest + 2 ^ (970 : ℤ) = binary64Limit := by
  rw [binary64Limit_eq, binary64Largest]
  ring

/-- A number in the finite range is rounded to one in the finite range. -/
theorem abs_roundBinary64_le (h : |q| < binary64Limit) : |roundBinary64 q| ≤ binary64Largest := by
  have hpos := two_zpow_pos 970
  by_cases hq : q = 0
  · rw [hq, roundBinary64_zero, abs_zero]
    exact mul_nonneg (by norm_num) hpos.le
  · rw [roundBinary64_of_ne hq, abs_mul, abs_of_pos (two_zpow_pos _), ← Int.cast_abs]
    rcases (lastPlace_le hq h).eq_or_lt with hlast | hlast
    · have hx : |q / 2 ^ lastPlace q| < 2 ^ 53 - 1 / 2 := by
        rw [abs_div, abs_of_pos (two_zpow_pos _), div_lt_iff₀ (two_zpow_pos _), hlast,
          show (971 : ℤ) = 1 + 970 from rfl, two_zpow_add]
        refine h.trans_eq ?_
        rw [binary64Limit_eq, zpow_one]
        ring
      have hround : ((|roundHalfEven (q / 2 ^ lastPlace q)| : ℤ) : ℚ) ≤ 2 ^ 53 - 1 := by
        exact_mod_cast abs_roundHalfEven_lt hx
      calc ((|roundHalfEven (q / 2 ^ lastPlace q)| : ℤ) : ℚ) * 2 ^ lastPlace q
          ≤ (2 ^ 53 - 1) * 2 ^ lastPlace q :=
            mul_le_mul_of_nonneg_right hround (two_zpow_pos _).le
        _ = binary64Largest := by
            rw [hlast, show (971 : ℤ) = 1 + 970 from rfl, two_zpow_add, zpow_one, binary64Largest]
            ring
    · have hround : ((|roundHalfEven (q / 2 ^ lastPlace q)| : ℤ) : ℚ) ≤ 2 ^ 53 := by
        exact_mod_cast abs_significand_le hq
      calc ((|roundHalfEven (q / 2 ^ lastPlace q)| : ℤ) : ℚ) * 2 ^ lastPlace q
          ≤ 2 ^ 53 * 2 ^ lastPlace q := mul_le_mul_of_nonneg_right hround (two_zpow_pos _).le
        _ ≤ 2 ^ 53 * 2 ^ (970 : ℤ) :=
            mul_le_mul_of_nonneg_left (two_zpow_le.mpr (by omega)) (by norm_num)
        _ ≤ binary64Largest := mul_le_mul_of_nonneg_right (by norm_num) hpos.le

theorem abs_le_of_binary64 {q r : ℚ} (h : binary64 q = some r) : |r| ≤ binary64Largest := by
  unfold binary64 at h
  split at h
  · rename_i hq
    obtain rfl := Option.some.inj h
    exact abs_roundBinary64_le hq
  · cases h

/-- **What rounding gives is represented exactly.** -/
theorem binary64_idem {q r : ℚ} (h : binary64 q = some r) : binary64 r = some r := by
  have hlt : |r| < binary64Limit := by
    refine (abs_le_of_binary64 h).trans_lt ?_
    rw [← binary64Largest_add]
    exact lt_add_of_pos_right _ (two_zpow_pos 970)
  unfold binary64
  rw [if_pos hlt, (dyadic_of_binary64 h).roundBinary64_eq]

/-- Rounding a binary64 number to decimal places stays in the finite range. -/
theorem binary64_roundTo {q r : ℚ} (h : binary64 q = some r) (digits : ℕ) :
    ∃ r', binary64 (roundTo digits r) = some r' := by
  have hmove := abs_roundTo_sub_le digits r
  have hhalf : (1 : ℚ) / 2 / 10 ^ digits ≤ 1 / 2 := by
    refine div_le_self (by norm_num) ?_
    exact one_le_pow₀ (by norm_num)
  have hone : (1 : ℚ) ≤ 2 ^ (970 : ℤ) := one_le_zpow₀ (by norm_num) (by norm_num)
  have htriangle : |roundTo digits r| ≤ |roundTo digits r - r| + |r| := by
    simpa using abs_add_le (roundTo digits r - r) r
  have hlt : |roundTo digits r| < binary64Limit := by
    have := abs_le_of_binary64 h
    rw [← binary64Largest_add]
    generalize (2 : ℚ) ^ (970 : ℤ) = gap at hone ⊢
    linarith
  exact ⟨_, if_pos hlt⟩

end AgentRuntime.Lib
