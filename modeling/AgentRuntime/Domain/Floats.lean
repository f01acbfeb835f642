import AgentRuntime.Domain.Primitives
import AgentRuntime.Lib.Binary64Exact
import AgentRuntime.Lib.Float64

/-!
# Python floats: numbers and texts

A float is carried as its text, so an operation reads the numbers, computes and writes a text
again. Which of the texts that read back to a number Python chooses is left open: `FloatRepr` has
one for every binary64 number. `exactRepr` writes the exact decimal and shows that there are such
choices.

* `PyFloat.number`: the number of a float;
* `floatOfInt`, `divideInts`, `roundFloat`: `float(n)`, `n / d` and `round(x, digits)`;
* `PyFloat.str`, `PyFloat.fixed3`: `str(x)` and the format `.3f`;
* `positiveFloat_repr`: a written number is read back.
-/

namespace AgentRuntime.Domain

open Lib

/-- The number of a float. -/
def PyFloat.number : PyFloat → Float64
  | .finite t => Float64.ofRat t.decimal
  | .infinity => .infinity
  | .negInfinity => .negInfinity
  | .nan => .nan

/-- `float.__repr__` on the binary64 numbers: a text that reads back to the number. -/
class FloatRepr where
  repr : ℚ → FloatText
  reads_back : ∀ q r, binary64 q = some r → binary64 (repr r).decimal = some r

/-- The text of the negative zero. -/
def negativeZero : FloatText := ⟨"-0.0".toList, by decide +kernel⟩

section Operations

variable [FloatRepr]

/-- `float(n)`. -/
def floatOfInt (n : ℤ) : Except PyError PyFloat :=
  match binary64 n with
  | some r => .ok (.finite (FloatRepr.repr r))
  | none => .error (.overflowError "int too large to convert to float")

/-- `n / d` for integers: the quotient is rounded once. -/
def divideInts (n d : ℤ) : Except PyError Float64 :=
  match binary64 (n / d) with
  | some r => .ok (.finite r)
  | none => .error (.overflowError "integer division result too large for a float")

/-- `round(x, digits)`. A negative number that is rounded to zero keeps its sign. -/
def roundFloat (digits : ℕ) : Float64 → Except PyError PyFloat
  | .finite q =>
    match binary64 (roundTo digits q) with
    | some r =>
      if r = 0 ∧ q < 0 then .ok (.finite negativeZero) else .ok (.finite (FloatRepr.repr r))
    | none => .error (.overflowError "rounded value too large to represent")
  | .infinity => .ok .infinity
  | .negInfinity => .ok .negInfinity
  | .nan => .ok .nan

theorem roundFloat_finite {digits : ℕ} {q r : ℚ} (h : binary64 (roundTo digits q) = some r) :
    ∃ t, roundFloat digits (.finite q) = .ok (.finite t) := by
  unfold roundFloat
  dsimp only
  rw [h]
  dsimp only
  split
  · exact ⟨_, rfl⟩
  · exact ⟨_, rfl⟩

theorem roundFloat_ofRat (digits : ℕ) (q : ℚ) :
    ∃ x, roundFloat digits (Float64.ofRat q) = .ok x := by
  unfold Float64.ofRat
  cases hq : binary64 q with
  | none =>
    dsimp only
    split
    · exact ⟨_, rfl⟩
    · exact ⟨_, rfl⟩
  | some r =>
    obtain ⟨r', hr'⟩ := binary64_roundTo hq digits
    obtain ⟨t, ht⟩ := roundFloat_finite hr'
    exact ⟨_, ht⟩

end Operations

theorem PyFloat.number_ne_nan {x : PyFloat} (h : x ≠ .nan) : x.number ≠ .nan := by
  cases x with
  | finite t => exact Float64.ofRat_ne_nan _
  | infinity => simp [number]
  | negInfinity => simp [number]
  | nan => exact absurd rfl h

/-! ### Texts -/

/-- `str(x)`. -/
def PyFloat.str : PyFloat → String
  | .finite t => String.ofList t.chars
  | .infinity => "inf"
  | .negInfinity => "-inf"
  | .nan => "nan"

/-- A number below 1000 with three digits. -/
def threeDigits (n : ℕ) : String :=
  toString (n / 100 % 10) ++ toString (n / 10 % 10) ++ toString (n % 10)

/-- The format `.3f`. The sign is that of the float, also when all digits are zero. -/
def PyFloat.fixed3 : PyFloat → String
  | .finite t =>
    match Float64.ofRat t.decimal with
    | .finite q =>
      let thousandths := (roundHalfEven (|q| * 1000)).toNat
      (if t.chars.head? = some '-' then "-" else "") ++ toString (thousandths / 1000) ++ "."
        ++ threeDigits (thousandths % 1000)
    | .negInfinity => "-inf"
    | _ => "inf"
  | x => x.str

example : PyFloat.fixed3 (.finite ⟨"0.96".toList, by decide +kernel⟩) = "0.960"
    ∧ PyFloat.fixed3 (.finite ⟨"-0.0004".toList, by decide +kernel⟩) = "-0.000" := by
  decide +kernel

/-! ### Writing and reading back -/

theorem FloatRepr.value?_repr [FloatRepr] {q r : ℚ} (h : binary64 q = some r) :
    PyFloat.value? (.finite (FloatRepr.repr r)) = some r :=
  FloatRepr.reads_back q r h

/-- The exact decimal of a fraction whose denominator is `2 ^ k`: the numerator times `5 ^ k`,
shifted by `k` places. -/
def exactChars (q : ℚ) : List Char :=
  let unsigned := Nat.toDigits 10 (q.num.natAbs * 5 ^ q.den.log2)
    ++ 'e' :: '-' :: Nat.toDigits 10 q.den.log2
  if q < 0 then '-' :: unsigned else unsigned

theorem digitsValue_toDigits (n : ℕ) : digitsValue (Nat.toDigits 10 n) = n :=
  Nat.ofDigitChars_toDigits (by norm_num) (by norm_num)

theorem isDigit_of_mem_toDigits {n : ℕ} : ∀ c ∈ Nat.toDigits 10 n, c.isDigit = true := by
  intro c hc
  exact Nat.isDigit_of_mem_toDigits (by norm_num) (by norm_num) hc

/-- The value of digits with a negative exponent. -/
theorem unsignedValue_digits (n k : ℕ) :
    unsignedValue (Nat.toDigits 10 n ++ 'e' :: '-' :: Nat.toDigits 10 k)
      = some ((n : ℚ) * 10 ^ (-(k : ℤ))) := by
  unfold unsignedValue
  dsimp only
  rw [List.takeWhile_append_of_pos isDigit_of_mem_toDigits,
    List.dropWhile_append_of_pos isDigit_of_mem_toDigits]
  have hdigits : (Nat.toDigits 10 k).all Char.isDigit = true :=
    List.all_eq_true.mpr isDigit_of_mem_toDigits
  simp [exponentValue, Nat.toDigits_ne_nil, hdigits, digitsValue_toDigits]

theorem floatTextValue_digit {d : Char} (hd : d.isDigit = true) (cs : List Char) :
    floatTextValue (d :: cs) = unsignedValue (d :: cs) := by
  unfold floatTextValue
  split
  · rename_i heq
    obtain rfl := (List.cons.inj heq).1
    exact absurd hd (by decide)
  · rfl

/-- The sign of a number as a factor. -/
def signOf (q : ℚ) : ℚ := if q < 0 then -1 else 1

theorem floatTextValue_exactChars (q : ℚ) :
    floatTextValue (exactChars q)
      = some (signOf q
          * (((q.num.natAbs * 5 ^ q.den.log2 : ℕ) : ℚ) * 10 ^ (-(q.den.log2 : ℤ)))) := by
  have hunsigned := unsignedValue_digits (q.num.natAbs * 5 ^ q.den.log2) q.den.log2
  unfold exactChars signOf
  dsimp only
  split_ifs with hneg
  · show (unsignedValue _).map _ = _
    rw [hunsigned]
    simp
  · obtain ⟨d, ds, hdigits⟩ : ∃ d ds, Nat.toDigits 10 (q.num.natAbs * 5 ^ q.den.log2) = d :: ds :=
      List.exists_cons_of_ne_nil Nat.toDigits_ne_nil
    have hd : d.isDigit = true := by
      refine isDigit_of_mem_toDigits (n := q.num.natAbs * 5 ^ q.den.log2) d ?_
      rw [hdigits]
      exact List.mem_cons_self
    rw [hdigits, List.cons_append] at hunsigned ⊢
    rw [floatTextValue_digit hd, hunsigned, one_mul]

/-- The exact decimal of a number. -/
def exactText (q : ℚ) : FloatText :=
  ⟨exactChars q, by rw [floatTextValue_exactChars]; rfl⟩

theorem decimal_exactText {r : ℚ} (h : r.den = 2 ^ r.den.log2) : (exactText r).decimal = r := by
  unfold FloatText.decimal
  simp only [exactText, floatTextValue_exactChars, Option.get_some]
  have hfactor : (5 : ℚ) ^ r.den.log2 * 10 ^ (-(r.den.log2 : ℤ)) = 1 / r.den := by
    rw [zpow_neg, zpow_natCast, show (10 : ℚ) = 5 * 2 by norm_num, mul_pow]
    conv_rhs => rw [h]
    push_cast
    field_simp
  have hnum : signOf r * (r.num.natAbs : ℚ) = r.num := by
    rw [Nat.cast_natAbs]
    unfold signOf
    split_ifs with hneg
    · rw [abs_of_neg (Rat.num_neg.mpr hneg)]
      push_cast
      ring
    · rw [abs_of_nonneg (Rat.num_nonneg.mpr (not_lt.mp hneg)), one_mul]
  calc signOf r * (((r.num.natAbs * 5 ^ r.den.log2 : ℕ) : ℚ) * 10 ^ (-(r.den.log2 : ℤ)))
      = signOf r * (r.num.natAbs : ℚ) * (5 ^ r.den.log2 * 10 ^ (-(r.den.log2 : ℤ))) := by
        push_cast
        ring
    _ = r.num / r.den := by rw [hfactor, hnum, mul_one_div]
    _ = r := Rat.num_div_den r

/-- Writing exact decimals is a choice of texts. -/
@[reducible] def exactRepr : FloatRepr where
  repr := exactText
  reads_back := by
    intro q r h
    rw [decimal_exactText (dyadic_of_binary64 h).den_eq, binary64_idem h]

end AgentRuntime.Domain
