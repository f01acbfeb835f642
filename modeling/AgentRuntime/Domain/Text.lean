import Mathlib.Algebra.Ring.Nat

/-!
# Characters as Python classifies them

`str.isdigit` and `int()` read two different properties of a character: the first asks for the
Unicode property `Numeric_Type` to be `Digit` or `Decimal`, the second wants `Decimal`. The tables
are those of Unicode 15.0, which Python 3.12 ships. Texts are lists of characters.

A Python text may hold a lone surrogate, which no Lean character is: `PyText` has every code point.

* `isDigitChar`, `isDigitText`: `str.isdigit`;
* `decimalValue?`, `intOfText?`: the value `int()` gives to a text of decimal digits;
* `isSpaceChar`: `str.isspace`, which `str.strip` removes;
* `PyText.utf8Length?`: the length of `text.encode("utf-8")`, where that does not raise.
-/

namespace AgentRuntime.Domain

/-- The zeros of the decimal digits: each is followed by the digits one to nine. -/
def decimalZeros : List ℕ :=
  [0x30, 0x660, 0x6f0, 0x7c0, 0x966, 0x9e6, 0xa66, 0xae6, 0xb66, 0xbe6, 0xc66, 0xce6, 0xd66, 0xde6,
    0xe50, 0xed0, 0xf20, 0x1040, 0x1090, 0x17e0, 0x1810, 0x1946, 0x19d0, 0x1a80, 0x1a90, 0x1b50,
    0x1bb0, 0x1c40, 0x1c50, 0xa620, 0xa8d0, 0xa900, 0xa9d0, 0xa9f0, 0xaa50, 0xabf0, 0xff10, 0x104a0,
    0x10d30, 0x11066, 0x110f0, 0x11136, 0x111d0, 0x112f0, 0x11450, 0x114d0, 0x11650, 0x116c0,
    0x11730, 0x118e0, 0x11950, 0x11c50, 0x11d50, 0x11da0, 0x11f50, 0x16a60, 0x16ac0, 0x16b50,
    0x1d7ce, 0x1d7d8, 0x1d7e2, 0x1d7ec, 0x1d7f6, 0x1e140, 0x1e2f0, 0x1e4f0, 0x1e950, 0x1fbf0]

/-- The digits that are not decimal, as ranges: superscripts, subscripts, circled digits and so
on. -/
def otherDigits : List (ℕ × ℕ) :=
  [(0xb2, 0xb3), (0xb9, 0xb9), (0x1369, 0x1371), (0x19da, 0x19da), (0x2070, 0x2070),
    (0x2074, 0x2079), (0x2080, 0x2089), (0x2460, 0x2468), (0x2474, 0x247c), (0x2488, 0x2490),
    (0x24ea, 0x24ea), (0x24f5, 0x24fd), (0x24ff, 0x24ff), (0x2776, 0x277e), (0x2780, 0x2788),
    (0x278a, 0x2792), (0x10a40, 0x10a43), (0x10e60, 0x10e68), (0x11052, 0x1105a),
    (0x1f100, 0x1f10a)]

/-- The value of a decimal digit. -/
def decimalValue? (c : Char) : Option ℕ :=
  (decimalZeros.find? fun z => z ≤ c.toNat && c.toNat < z + 10).map fun z =>
    c.toNat - z

/-- `c.isdigit()`. -/
def isDigitChar (c : Char) : Bool :=
  (decimalValue? c).isSome || otherDigits.any fun r => r.1 ≤ c.toNat && c.toNat ≤ r.2

/-- `text.isdigit()`: the empty text has no digits. -/
def isDigitText (text : List Char) : Bool := !text.isEmpty && text.all isDigitChar

/-- `int(text)` on a text of digits: the decimal value, `none` where `int` raises `ValueError`
because one of the digits is not decimal. -/
def intOfText? (text : List Char) : Option ℕ :=
  (text.mapM decimalValue?).map fun ds => ds.foldl (fun n d => 10 * n + d) 0

example : intOfText? "007".toList = some 7 ∧ intOfText? "٤٢".toList = some 42 := by decide

/-- The characters `str.strip()` removes. -/
def isSpaceChar (c : Char) : Bool :=
  let n := c.toNat
  (9 ≤ n && n ≤ 13) || (28 ≤ n && n ≤ 32) || n == 0x85 || n == 0xa0 || n == 0x1680
    || (0x2000 ≤ n && n ≤ 0x200a) || n == 0x2028 || n == 0x2029 || n == 0x202f || n == 0x205f
    || n == 0x3000

/-- `text.split(".")`. -/
def splitDots (text : List Char) : List (List Char) := text.splitOn '.'

example : splitDots "a..b".toList = ["a".toList, [], "b".toList] := by decide

/-! ### Texts with surrogates -/

/-- A character of a Python text. -/
abbrev CodePoint := Fin 0x110000

def CodePoint.isSurrogate (c : CodePoint) : Bool := 0xd800 ≤ c.val && c.val < 0xe000

/-- The bytes of a code point in UTF-8. -/
def CodePoint.utf8Size (c : CodePoint) : ℕ :=
  if c.val < 0x80 then 1 else if c.val < 0x800 then 2 else if c.val < 0x10000 then 3 else 4

/-- A Python `str`. -/
abbrev PyText := List CodePoint

/-- The text of a string. -/
def PyText.ofString (s : String) : PyText := s.toList.map fun c => Fin.ofNat 0x110000 c.toNat

/-- No character is a surrogate. -/
def PyText.encodable (t : PyText) : Bool := t.all fun c => !c.isSurrogate

/-- The bytes of the characters of a text. -/
def PyText.utf8Size (t : PyText) : ℕ := (t.map CodePoint.utf8Size).sum

/-- `len(text.encode("utf-8"))`; `none` where `encode` raises `UnicodeEncodeError`. -/
def PyText.utf8Length? (t : PyText) : Option ℕ := if t.encodable then some t.utf8Size else none

example : (PyText.ofString "aé€😀").utf8Length? = some 10
    ∧ PyText.utf8Length? [(0xd800 : CodePoint)] = none := by decide

end AgentRuntime.Domain
