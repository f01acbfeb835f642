import Mathlib.Tactic.Common

/-!
# Base64

Three bytes are four digits of the base 64, written in the usual alphabet; a last group of one or
two bytes is padded with `=`. Reading is strict: other characters, a group that is not complete
and anything after the padding are refused.

* `Base64.encode`, `Base64.decode?`: the two directions;
* `Base64.decode?_encode`, `Base64.encode_ascii`: reading inverts writing, which is ASCII;
* `Base64.exists_digits_encode`: where the padding is.
-/

namespace AgentRuntime.Lib.Base64

/-- The character of a digit. -/
def digitChar (n : ℕ) : Char :=
  if n < 26 then Char.ofNat (65 + n)
  else if n < 52 then Char.ofNat (71 + n)
  else if n < 62 then Char.ofNat (n - 4)
  else if n = 62 then '+'
  else '/'

/-- The digit of a character. -/
def digit? (c : Char) : Option ℕ :=
  if 'A' ≤ c ∧ c ≤ 'Z' then some (c.toNat - 65)
  else if 'a' ≤ c ∧ c ≤ 'z' then some (c.toNat - 71)
  else if '0' ≤ c ∧ c ≤ '9' then some (c.toNat + 4)
  else if c = '+' then some 62
  else if c = '/' then some 63
  else none

theorem digit?_digitChar {n : ℕ} (h : n < 64) : digit? (digitChar n) = some n := by
  have hall : ∀ k : Fin 64, digit? (digitChar k) = some k.val := by decide +kernel
  exact hall ⟨n, h⟩

theorem digitChar_ne_pad {n : ℕ} (h : n < 64) : digitChar n ≠ '=' := by
  have hall : ∀ k : Fin 64, digitChar k ≠ '=' := by decide +kernel
  exact hall ⟨n, h⟩

theorem digitChar_ascii (n : ℕ) : (digitChar n).toNat ≤ 127 := by
  by_cases h : n < 64
  · have hall : ∀ k : Fin 64, (digitChar k).toNat ≤ 127 := by decide +kernel
    exact hall ⟨n, h⟩
  · unfold digitChar
    rw [if_neg (by omega), if_neg (by omega), if_neg (by omega), if_neg (by omega)]
    decide

/-- The text of a sequence of bytes. -/
def encode : List UInt8 → List Char
  | [] => []
  | [a] => [digitChar (a.toNat / 4), digitChar (a.toNat % 4 * 16), '=', '=']
  | [a, b] =>
    [digitChar (a.toNat / 4), digitChar (a.toNat % 4 * 16 + b.toNat / 16),
      digitChar (b.toNat % 16 * 4), '=']
  | a :: b :: c :: rest =>
    digitChar (a.toNat / 4) :: digitChar (a.toNat % 4 * 16 + b.toNat / 16)
      :: digitChar (b.toNat % 16 * 4 + c.toNat / 64) :: digitChar (c.toNat % 64) :: encode rest

/-- The bytes of the last group of a text, which may be padded. -/
def lastGroup (x y z w : Char) : Option (List UInt8) :=
  if w = '=' then
    if z = '=' then do
      let x ← digit? x
      let y ← digit? y
      return [UInt8.ofNat (x * 4 + y / 16)]
    else do
      let x ← digit? x
      let y ← digit? y
      let z ← digit? z
      return [UInt8.ofNat (x * 4 + y / 16), UInt8.ofNat (y % 16 * 16 + z / 4)]
  else do
    let x ← digit? x
    let y ← digit? y
    let z ← digit? z
    let w ← digit? w
    return [UInt8.ofNat (x * 4 + y / 16), UInt8.ofNat (y % 16 * 16 + z / 4),
      UInt8.ofNat (z % 4 * 64 + w)]

/-- The bytes of a text; padding is allowed in its last group only. -/
def decode? : List Char → Option (List UInt8)
  | [] => some []
  | x :: y :: z :: w :: rest => do
      let group ← lastGroup x y z w
      if w = '=' ∧ rest ≠ [] then none
      else
        let bytes ← decode? rest
        return group ++ bytes
  | _ => none

theorem lastGroup_three (a b c : UInt8) :
    lastGroup (digitChar (a.toNat / 4)) (digitChar (a.toNat % 4 * 16 + b.toNat / 16))
      (digitChar (b.toNat % 16 * 4 + c.toNat / 64)) (digitChar (c.toNat % 64))
      = some [a, b, c] := by
  have ha := a.toNat_lt
  have hb := b.toNat_lt
  have hc := c.toNat_lt
  have hfirst : a.toNat / 4 * 4 + (a.toNat % 4 * 16 + b.toNat / 16) / 16 = a.toNat := by omega
  have hsecond : (a.toNat % 4 * 16 + b.toNat / 16) % 16 * 16
      + (b.toNat % 16 * 4 + c.toNat / 64) / 4 = b.toNat := by omega
  have hthird : (b.toNat % 16 * 4 + c.toNat / 64) % 4 * 64 + c.toNat % 64 = c.toNat := by omega
  unfold lastGroup
  rw [if_neg (digitChar_ne_pad (by omega)), digit?_digitChar (by omega),
    digit?_digitChar (by omega), digit?_digitChar (by omega), digit?_digitChar (by omega)]
  simp only [Option.bind_eq_bind, Option.bind_some, hfirst, hsecond, hthird, UInt8.ofNat_toNat]
  rfl

theorem lastGroup_two (a b : UInt8) :
    lastGroup (digitChar (a.toNat / 4)) (digitChar (a.toNat % 4 * 16 + b.toNat / 16))
      (digitChar (b.toNat % 16 * 4)) '=' = some [a, b] := by
  have ha := a.toNat_lt
  have hb := b.toNat_lt
  have hfirst : a.toNat / 4 * 4 + (a.toNat % 4 * 16 + b.toNat / 16) / 16 = a.toNat := by omega
  have hsecond : (a.toNat % 4 * 16 + b.toNat / 16) % 16 * 16 + b.toNat % 16 * 4 / 4 = b.toNat := by
    omega
  unfold lastGroup
  rw [if_pos rfl, if_neg (digitChar_ne_pad (by omega)), digit?_digitChar (by omega),
    digit?_digitChar (by omega), digit?_digitChar (by omega)]
  simp only [Option.bind_eq_bind, Option.bind_some, hfirst, hsecond, UInt8.ofNat_toNat]
  rfl

theorem lastGroup_one (a : UInt8) :
    lastGroup (digitChar (a.toNat / 4)) (digitChar (a.toNat % 4 * 16)) '=' '=' = some [a] := by
  have ha := a.toNat_lt
  have hfirst : a.toNat / 4 * 4 + a.toNat % 4 * 16 / 16 = a.toNat := by omega
  unfold lastGroup
  rw [if_pos rfl, if_pos rfl, digit?_digitChar (by omega), digit?_digitChar (by omega)]
  simp only [Option.bind_eq_bind, Option.bind_some, hfirst, UInt8.ofNat_toNat]
  rfl

/-- **Reading inverts writing.** -/
theorem decode?_encode (bytes : List UInt8) : decode? (encode bytes) = some bytes := by
  induction bytes using encode.induct with
  | case1 => rfl
  | case2 a =>
    rw [encode, decode?, lastGroup_one]
    rfl
  | case3 a b =>
    rw [encode, decode?, lastGroup_two]
    rfl
  | case4 a b c rest ih =>
    have hc : digitChar (c.toNat % 64) ≠ '=' := digitChar_ne_pad (Nat.mod_lt _ (by decide))
    rw [encode, decode?, lastGroup_three, ih]
    simp [hc]

/-- With two bytes in the last group, a text is digits and one padding character. -/
theorem exists_digits_encode {bytes : List UInt8} (h : bytes.length % 3 = 2) :
    ∃ ds : List ℕ, encode bytes = ds.map digitChar ++ ['='] ∧ (∀ d ∈ ds, d < 64)
      ∧ ds.length = bytes.length / 3 * 4 + 3 := by
  induction bytes using encode.induct with
  | case1 => exact absurd h (by decide)
  | case2 a =>
    rw [List.length_singleton] at h
    omega
  | case3 a b =>
    have ha := a.toNat_lt
    have hb := b.toNat_lt
    refine ⟨[a.toNat / 4, a.toNat % 4 * 16 + b.toNat / 16, b.toNat % 16 * 4], rfl, ?_, by simp⟩
    intro d hd
    simp only [List.mem_cons, List.not_mem_nil, or_false] at hd
    omega
  | case4 a b c rest ih =>
    have ha := a.toNat_lt
    have hb := b.toNat_lt
    have hc := c.toNat_lt
    rw [List.length_cons, List.length_cons, List.length_cons] at h
    obtain ⟨ds, hds, hlt, hlength⟩ := ih (by omega)
    refine ⟨a.toNat / 4 :: (a.toNat % 4 * 16 + b.toNat / 16)
      :: (b.toNat % 16 * 4 + c.toNat / 64) :: c.toNat % 64 :: ds, ?_, ?_, ?_⟩
    · rw [encode, hds]
      rfl
    · intro d hd
      rw [List.mem_cons, List.mem_cons, List.mem_cons, List.mem_cons] at hd
      rcases hd with hd | hd | hd | hd | hd
      · omega
      · omega
      · omega
      · omega
      · exact hlt d hd
    · rw [List.length_cons, List.length_cons, List.length_cons, List.length_cons,
        List.length_cons, List.length_cons, List.length_cons, hlength]
      omega

/-- A text is made of ASCII characters. -/
theorem encode_ascii (bytes : List UInt8) : ∀ c ∈ encode bytes, c.toNat ≤ 127 := by
  induction bytes using encode.induct with
  | case1 => simp [encode]
  | case2 a => simp [encode, digitChar_ascii]
  | case3 a b => simp [encode, digitChar_ascii]
  | case4 a b c rest ih => simpa [encode, digitChar_ascii] using ih

end AgentRuntime.Lib.Base64
