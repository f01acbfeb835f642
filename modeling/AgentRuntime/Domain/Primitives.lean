import AgentRuntime.Domain.Json

/-!
# Identifiers, exceptions and times

The Python values every other module handles: UUIDs and their canonical text, the exceptions a
service method can raise, and `datetime` / `timedelta` with the ranges outside of which Python
raises `OverflowError`.
-/

namespace AgentRuntime.Domain

open Lib

/-! ### Identifiers -/

/-- A UUID. -/
structure Uuid where
  value : BitVec 128
  deriving DecidableEq, Repr

theorem Uuid.value_toNat_injective : Function.Injective fun u : Uuid => u.value.toNat := by
  rintro ⟨a⟩ ⟨b⟩ h
  exact congrArg Uuid.mk (BitVec.eq_of_toNat_eq h)

/-- UUIDs are compared byte by byte, that is, as numbers. -/
instance : LinearOrder Uuid := LinearOrder.lift' _ Uuid.value_toNat_injective

/-- A lower-case hexadecimal digit. -/
def hexDigit (n : ℕ) : Char := if n < 10 then Char.ofNat (48 + n) else Char.ofNat (87 + n)

/-- The value of a hexadecimal digit of either case. -/
def hexValue? (c : Char) : Option ℕ :=
  if '0' ≤ c ∧ c ≤ '9' then some (c.toNat - 48)
  else if 'a' ≤ c ∧ c ≤ 'f' then some (c.toNat - 87)
  else if 'A' ≤ c ∧ c ≤ 'F' then some (c.toNat - 55)
  else none

theorem hexValue?_hexDigit {n : ℕ} (h : n < 16) : hexValue? (hexDigit n) = some n := by
  have hall : ∀ k : Fin 16, hexValue? (hexDigit k) = some k.val := by decide
  exact hall ⟨n, h⟩

/-- The 32 hexadecimal digits of a UUID. -/
def Uuid.hex (u : Uuid) : List Char :=
  (List.range 32).map fun i => hexDigit (u.value.toNat / 16 ^ (31 - i) % 16)

/-- `str(uuid)`: the digits in groups of 8, 4, 4, 4 and 12. -/
def Uuid.str (u : Uuid) : String :=
  String.ofList (u.hex.take 8 ++ '-' :: (u.hex.drop 8).take 4 ++ '-' :: (u.hex.drop 12).take 4
    ++ '-' :: (u.hex.drop 16).take 4 ++ '-' :: u.hex.drop 20)

example : (Uuid.mk 0x123e4567e89b12d3a456426614174000#128).str
    = "123e4567-e89b-12d3-a456-426614174000" := by decide +kernel

/-- The number of some hexadecimal digits. -/
def hexNumber (digits : List Char) : ℕ :=
  digits.foldl (fun n c => 16 * n + (hexValue? c).getD 0) 0

/-- The UUID with the given hexadecimal digits. -/
def uuidOfDigits (digits : List Char) : Uuid := ⟨BitVec.ofNat 128 (hexNumber digits)⟩

theorem hexNumber_concat (digits : List Char) {d : ℕ} (h : d < 16) :
    hexNumber (digits ++ [hexDigit d]) = 16 * hexNumber digits + d := by
  unfold hexNumber
  rw [List.foldl_append]
  show 16 * _ + (hexValue? (hexDigit d)).getD 0 = _
  rw [hexValue?_hexDigit h]
  rfl

/-- The last `k` hexadecimal digits of a number. -/
theorem hexNumber_digits (k v : ℕ) :
    hexNumber ((List.range k).map fun i => hexDigit (v / 16 ^ (k - 1 - i) % 16)) = v % 16 ^ k := by
  induction k generalizing v with
  | zero => simp [hexNumber, Nat.mod_one]
  | succ k ih =>
    have hhead : (List.range k).map (fun i => hexDigit (v / 16 ^ (k + 1 - 1 - i) % 16))
        = (List.range k).map fun i => hexDigit (v / 16 / 16 ^ (k - 1 - i) % 16) := by
      refine List.map_congr_left fun i hi => ?_
      have hi' : i < k := List.mem_range.mp hi
      rw [Nat.div_div_eq_div_mul, ← Nat.pow_succ', show (k - 1 - i).succ = k + 1 - 1 - i by omega]
    rw [List.range_succ, List.map_append, hhead]
    show hexNumber (_ ++ [hexDigit (v / 16 ^ (k + 1 - 1 - k) % 16)]) = _
    rw [hexNumber_concat _ (Nat.mod_lt _ (by decide)), ih, show k + 1 - 1 - k = 0 by omega,
      Nat.pow_zero, Nat.div_one, Nat.pow_succ', Nat.mod_mul]
    omega

theorem hexNumber_hex (u : Uuid) : hexNumber u.hex = u.value.toNat := by
  have hlt : u.value.toNat < 16 ^ 32 := u.value.isLt
  have h := hexNumber_digits 32 u.value.toNat
  rw [Nat.mod_eq_of_lt hlt] at h
  exact h

/-- The digits of a UUID are read back. -/
theorem uuidOfDigits_hex (u : Uuid) : uuidOfDigits u.hex = u := by
  rw [uuidOfDigits, hexNumber_hex, BitVec.ofNat_toNat, BitVec.setWidth_eq]

theorem Uuid.length_hex (u : Uuid) : u.hex.length = 32 := by simp [Uuid.hex]

theorem hexDigit_ne_hyphen {n : ℕ} (h : n < 16) : hexDigit n ≠ '-' := by
  have hall : ∀ k : Fin 16, hexDigit k ≠ '-' := by decide
  exact hall ⟨n, h⟩

/-- Without its hyphens the text of a UUID is its digits. -/
theorem Uuid.filter_str (u : Uuid) : u.str.toList.filter (fun c => c ≠ '-') = u.hex := by
  have hkeep : ∀ {ds : List Char}, (∀ d ∈ ds, d ∈ u.hex) → ds.filter (fun c => c ≠ '-') = ds := by
    intro ds hds
    refine List.filter_eq_self.mpr fun d hd => ?_
    obtain ⟨i, -, rfl⟩ := List.mem_map.mp (hds d hd)
    simpa using hexDigit_ne_hyphen (Nat.mod_lt _ (by decide))
  have hdrop : ∀ (n : ℕ), ∀ d ∈ u.hex.drop n, d ∈ u.hex := fun n d hd => List.mem_of_mem_drop hd
  have htake : ∀ (n m : ℕ), ∀ d ∈ (u.hex.drop n).take m, d ∈ u.hex := fun n m d hd =>
    hdrop n d (List.mem_of_mem_take hd)
  have hjoin : u.hex = u.hex.take 8 ++ ((u.hex.drop 8).take 4 ++ ((u.hex.drop 12).take 4
      ++ ((u.hex.drop 16).take 4 ++ u.hex.drop 20))) := by
    rw [← List.drop_drop (i := 4) (j := 16), List.take_append_drop,
      ← List.drop_drop (i := 4) (j := 12), List.take_append_drop,
      ← List.drop_drop (i := 4) (j := 8), List.take_append_drop, List.take_append_drop]
  conv_rhs => rw [hjoin]
  unfold Uuid.str
  rw [String.toList_ofList]
  simp only [List.filter_append, List.filter_cons, hkeep (fun d hd => List.mem_of_mem_take hd),
    hkeep (htake 8 4), hkeep (htake 12 4), hkeep (htake 16 4), hkeep (hdrop 20), List.append_assoc]
  rfl

theorem Uuid.str_injective : Function.Injective Uuid.str := by
  intro u v h
  rw [← uuidOfDigits_hex u, ← uuidOfDigits_hex v, ← Uuid.filter_str u, ← Uuid.filter_str v, h]

/-! ### Exceptions -/

/-- The exceptions a service method can raise. -/
inductive PyError where
  | valueError (message : String)
  | overflowError (message : String)
  | runtimeError (message : String)
  | indexError
  | keyError
  | typeError
  | attributeError
  | zeroDivisionError
  /-- A unique or foreign-key constraint rejected a row. -/
  | integrityError
  /-- A value does not fit its column. -/
  | dataError
  | runNotFoundError (message : String)
  | runNotSucceededError (message : String)
  | idempotencyConflictError (message : String)
  | quotaExceededError (message : String)
  | invalidCursorError (message : String)
  | keyDestroyedError (message : String)
  | retentionDisabledError (message : String)
  /-- `cryptography.exceptions.InvalidTag`. -/
  | invalidTag
  /-- `binascii.Error`. -/
  | binasciiError
  | jsonDecodeError
  | unicodeDecodeError
  deriving DecidableEq, Repr

/-! ### Times -/

/-- `datetime.max` in microseconds after `datetime.min`: the last microsecond of year 9999. -/
def datetimeMax : ℕ := 315537897599999999

/-- A `datetime` in UTC, in microseconds after `datetime.min`. -/
structure Timestamp where
  micros : ℕ
  inRange : micros ≤ datetimeMax
  deriving DecidableEq

theorem Timestamp.micros_injective : Function.Injective Timestamp.micros := by
  rintro ⟨a, ha⟩ ⟨b, hb⟩ h
  cases h
  rfl

instance : LinearOrder Timestamp := LinearOrder.lift' Timestamp.micros Timestamp.micros_injective

/-- The first microsecond a `timedelta` cannot represent: 10⁹ days. -/
def timedeltaLimit : ℤ := 1000000000 * 86400 * 1000000

/-- The microseconds of `timedelta(seconds=s)`: whole seconds exactly, the binary64 product of
the fraction with a million rounded half to even. -/
def timedeltaMicros (seconds : ℚ) : ℤ :=
  let whole := truncate seconds
  whole * 1000000 + roundHalfEven (roundBinary64 (1000000 * (seconds - whole)))

variable {seconds : ℚ}

theorem timedeltaMicros_nonneg (h : 0 ≤ seconds) : 0 ≤ timedeltaMicros seconds := by
  have hwhole := truncate_nonneg h
  have hrest : 0 ≤ 1000000 * (seconds - truncate seconds) :=
    mul_nonneg (by norm_num) (sub_nonneg.mpr (truncate_le h))
  have hround := roundHalfEven_nonneg (roundBinary64_nonneg hrest)
  unfold timedeltaMicros
  dsimp only
  omega

theorem timedeltaMicros_intCast (n : ℤ) : timedeltaMicros n = n * 1000000 := by
  simp [timedeltaMicros]

/-- `t + timedelta(seconds=s)`, raising outside the range of `timedelta` or `datetime`. -/
def Timestamp.addSeconds (t : Timestamp) (seconds : ℚ) : Except PyError Timestamp :=
  let delta := timedeltaMicros seconds
  if delta < -timedeltaLimit + 86400000000 ∨ timedeltaLimit ≤ delta then
    .error (.overflowError "days out of range")
  else if h : 0 ≤ t.micros + delta ∧ t.micros + delta ≤ datetimeMax then
    .ok ⟨(t.micros + delta).toNat, by omega⟩
  else .error (.overflowError "date value out of range")

variable {t : Timestamp}

/-- An addition succeeds when the `timedelta` and the sum are in range. -/
theorem Timestamp.addSeconds_ok :
    (∃ t', t.addSeconds seconds = .ok t') ↔
      (-timedeltaLimit + 86400000000 ≤ timedeltaMicros seconds
        ∧ timedeltaMicros seconds < timedeltaLimit)
        ∧ 0 ≤ t.micros + timedeltaMicros seconds
        ∧ t.micros + timedeltaMicros seconds ≤ datetimeMax := by
  unfold Timestamp.addSeconds
  simp only
  split
  · rename_i hdelta
    simp only [reduceCtorEq, exists_false, false_iff, not_and]
    intro hrange
    omega
  · rename_i hdelta
    split
    · rename_i hsum
      simp only [Except.ok.injEq, exists_eq', true_iff]
      exact ⟨by omega, hsum⟩
    · rename_i hsum
      simp only [reduceCtorEq, exists_false, false_iff, not_and]
      intro _ hle hmax
      exact hsum ⟨hle, hmax⟩

/-- Adding a duration only goes wrong past one of the two upper bounds. -/
theorem Timestamp.addSeconds_ok_of_nonneg (h : 0 ≤ seconds) :
    (∃ t', t.addSeconds seconds = .ok t') ↔
      timedeltaMicros seconds < timedeltaLimit
        ∧ t.micros + timedeltaMicros seconds ≤ datetimeMax := by
  have hnonneg := timedeltaMicros_nonneg h
  rw [Timestamp.addSeconds_ok]
  unfold timedeltaLimit
  omega

theorem Timestamp.addSeconds_error {e : PyError} (h : t.addSeconds seconds = .error e) :
    ∃ message, e = .overflowError message := by
  unfold Timestamp.addSeconds at h
  dsimp only at h
  split_ifs at h
  · exact ⟨_, (Except.error.inj h).symm⟩
  · exact ⟨_, (Except.error.inj h).symm⟩

theorem timedeltaMicros_one : timedeltaMicros 1 = 1000000 := by
  simpa using timedeltaMicros_intCast 1

theorem Timestamp.addSeconds_one_ok :
    (∃ t', t.addSeconds 1 = .ok t') ↔ t.micros + 1000000 ≤ datetimeMax := by
  rw [Timestamp.addSeconds_ok, timedeltaMicros_one]
  unfold timedeltaLimit
  omega

theorem Timestamp.lt_of_addSeconds_one {t t' : Timestamp} (h : t.addSeconds 1 = .ok t') : t < t' := by
  have hone := timedeltaMicros_one
  unfold Timestamp.addSeconds at h
  dsimp only at h
  split_ifs at h
  cases h
  show t.micros < (t.micros + timedeltaMicros 1).toNat
  omega

/-- `int((a - b).total_seconds() * 1000)`, with the two roundings of the float arithmetic. -/
def millisecondsBetween (a b : Timestamp) : ℤ :=
  truncate (roundBinary64 (roundBinary64 (((a.micros : ℤ) - b.micros : ℤ) / 1000000) * 1000))

end AgentRuntime.Domain
