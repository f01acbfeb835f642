import AgentRuntime.Application.RequestHash
import AgentRuntime.Domain.Floats

/-!
# Writing JSON texts and reading them back

`json.dumps` is called with three different settings: the request text sorts and escapes little,
the associated data of an envelope uses the default separators, its plaintext the compact ones.
`TextStyle` holds what differs. `json.loads` is one reader for all of them: `Reader.value` is the
recursive scanner, `readNumber` the number syntax and `loads` the whole document.

* `Reader.value`, `Reader.document`: the scanner, for any syntax of numbers;
* `readNumber`, `loads`: the numbers of `json.loads` and the function itself;
* `TextStyle.text`: the text of a value in a style;
* `defaultStyle`, `compactStyle`, `unescapedStyle`: the three settings.
-/

namespace AgentRuntime.Application

open Domain Lib

/-! ### Reading strings -/

/-- White space between tokens. -/
def isBlank (c : Char) : Bool := c == ' ' || c == '\t' || c == '\n' || c == '\r'

def skipBlanks (cs : List Char) : List Char := cs.dropWhile isBlank

/-- Four hexadecimal digits. -/
def scanHex4 : List Char → Option (ℕ × List Char)
  | a :: b :: c :: d :: rest => do
      let a ← hexValue? a
      let b ← hexValue? b
      let c ← hexValue? c
      let d ← hexValue? d
      return (4096 * a + 256 * b + 16 * c + d, rest)
  | _ => none

/-- The character with a code point. A lone surrogate is no character here. -/
def charOfCode? (n : ℕ) : Option Char := if n.isValidChar then some (Char.ofNat n) else none

/-- A code unit after `\u`; a high surrogate takes the low one that follows. -/
def scanCodeUnit (cs : List Char) : Option (Char × List Char) := do
  let (high, rest) ← scanHex4 cs
  if 0xD800 ≤ high ∧ high < 0xDC00 then
    match rest with
    | '\\' :: 'u' :: rest => do
        let (low, rest) ← scanHex4 rest
        if 0xDC00 ≤ low ∧ low < 0xE000 then
          let c ← charOfCode? (0x10000 + 1024 * (high - 0xD800) + (low - 0xDC00))
          return (c, rest)
        else none
    | _ => none
  else
    let c ← charOfCode? high
    return (c, rest)

/-- The character a one-letter escape stands for. -/
def letterEscape? (c : Char) : Option Char :=
  if c = '"' then some '"'
  else if c = '\\' then some '\\'
  else if c = '/' then some '/'
  else if c = 'b' then some (Char.ofNat 8)
  else if c = 'f' then some (Char.ofNat 12)
  else if c = 'n' then some '\n'
  else if c = 'r' then some '\r'
  else if c = 't' then some '\t'
  else none

/-- One character of a string: an escape, or a character that is no control character. -/
def scanChar : List Char → Option (Char × List Char)
  | [] => none
  | c :: rest =>
    if c = '\\' then
      match rest with
      | [] => none
      | e :: rest =>
        if e = 'u' then scanCodeUnit rest else (letterEscape? e).map fun d => (d, rest)
    else if c.toNat < 32 then none
    else some (c, rest)

/-- The characters of a string up to its closing quote; the first argument bounds their number. -/
def scanString : ℕ → List Char → Option (List Char × List Char)
  | 0, _ => none
  | _ + 1, [] => none
  | fuel + 1, c :: rest =>
    if c = '"' then some ([], rest)
    else do
      let (d, rest) ← scanChar (c :: rest)
      let (ds, rest) ← scanString fuel rest
      return (d :: ds, rest)

/-! ### Reading values -/

/-- How numbers are read, and how the members of an object become a dictionary. -/
structure Reader where
  number : List Char → Option (Json × List Char)
  object : List (String × Json) → JsonObject

/-- The words that stand for a value. -/
def keywords : List (List Char × Json) :=
  [("null".toList, .null), ("true".toList, .bool true), ("false".toList, .bool false),
    ("NaN".toList, .float .nan), ("Infinity".toList, .float .infinity),
    ("-Infinity".toList, .float .negInfinity)]

/-- A word at the start of the text. -/
def scanKeyword (cs : List Char) : Option (Json × List Char) :=
  keywords.findSome? fun w => if w.1.isPrefixOf cs then some (w.2, cs.drop w.1.length) else none

/-- Items separated by commas, up to the closing bracket. -/
def scanList {α : Type} (close : Char) (item : List Char → Option (α × List Char)) :
    ℕ → List Char → Option (List α × List Char)
  | 0, _ => none
  | fuel + 1, cs => do
      let (x, rest) ← item cs
      match skipBlanks rest with
      | [] => none
      | c :: rest =>
        if c = close then return ([x], rest)
        else if c = ',' then
          let (xs, rest) ← scanList close item fuel (skipBlanks rest)
          return (x :: xs, rest)
        else none

/-- A member of an object; `size` bounds its key. -/
def scanMember (size : ℕ) (value : List Char → Option (Json × List Char)) :
    List Char → Option ((String × Json) × List Char)
  | [] => none
  | quote :: cs =>
    if quote = '"' then do
      let (k, rest) ← scanString size cs
      match skipBlanks rest with
      | ':' :: rest => (value (skipBlanks rest)).map fun p => ((String.ofList k, p.1), p.2)
      | _ => none
    else none

/-- One value at the start of the text. `size` bounds strings, arrays and objects, the second
number the depth; both are the length of the document. -/
def Reader.value (R : Reader) (size : ℕ) : ℕ → List Char → Option (Json × List Char)
  | 0, _ => none
  | _ + 1, [] => none
  | depth + 1, c :: rest =>
    if c = '"' then (scanString size rest).map fun p => (.str (String.ofList p.1), p.2)
    else if c = '[' then
      if (skipBlanks rest).head? = some ']' then some (.arr [], (skipBlanks rest).tail)
      else
        (scanList ']' (R.value size depth) size (skipBlanks rest)).map fun p => (.arr p.1, p.2)
    else if c = '{' then
      if (skipBlanks rest).head? = some '}' then
        some (.obj (R.object []), (skipBlanks rest).tail)
      else
        (scanList '}' (scanMember size (R.value size depth)) size (skipBlanks rest)).map fun p =>
          (.obj (R.object p.1), p.2)
    else (scanKeyword (c :: rest)).or (R.number (c :: rest))

/-- A whole document: a value between blanks and nothing else. -/
def Reader.document (R : Reader) (cs : List Char) : Option Json :=
  match R.value (cs.length + 1) (cs.length + 1) (skipBlanks cs) with
  | some (v, rest) => if skipBlanks rest = [] then some v else none
  | none => none

/-! ### Numbers -/

/-- The digits before the point: `0`, or digits that start with another one. -/
def wholePart : List Char → Option (List Char × List Char)
  | [] => none
  | c :: rest =>
    if c = '0' then some (['0'], rest)
    else if c.isDigit then
      some (c :: rest.takeWhile Char.isDigit, rest.dropWhile Char.isDigit)
    else none

/-- A point with digits after it, or nothing. -/
def fractionPart (cs : List Char) : List Char × List Char :=
  match cs with
  | '.' :: rest =>
    if rest.takeWhile Char.isDigit = [] then ([], cs)
    else ('.' :: rest.takeWhile Char.isDigit, rest.dropWhile Char.isDigit)
  | _ => ([], cs)

/-- The sign of an exponent, `+` where none is written. -/
def exponentSign : List Char → Char × List Char
  | '+' :: rest => ('+', rest)
  | '-' :: rest => ('-', rest)
  | rest => ('+', rest)

/-- An exponent with its digits, written the way float texts are, or nothing. -/
def exponentPart (cs : List Char) : List Char × List Char :=
  match cs with
  | [] => ([], [])
  | c :: rest =>
    if c = 'e' ∨ c = 'E' then
      let signed := exponentSign rest
      if signed.2.takeWhile Char.isDigit = [] then ([], cs)
      else ('e' :: signed.1 :: signed.2.takeWhile Char.isDigit, signed.2.dropWhile Char.isDigit)
    else ([], cs)

section Numbers

variable [FloatRepr]

/-- `float(text)` on a number text: rounded, infinite beyond the range, with the sign of zero. -/
def floatOfText (cs : List Char) : Option PyFloat :=
  (floatTextValue cs).map fun q =>
    match binary64 q with
    | some r =>
      if r = 0 ∧ cs.head? = some '-' then .finite negativeZero else .finite (FloatRepr.repr r)
    | none => if q < 0 then .negInfinity else .infinity

/-- A number without its sign: an integer unless there is a fraction or an exponent. -/
def readUnsigned (sign : List Char) (cs : List Char) : Option (Json × List Char) := do
  let (whole, rest) ← wholePart cs
  let fraction := fractionPart rest
  let exponent := exponentPart fraction.2
  if fraction.1 = [] ∧ exponent.1 = [] then
    return (.int (if sign = [] then digitsValue whole else -digitsValue whole), exponent.2)
  else
    let x ← floatOfText (sign ++ whole ++ fraction.1 ++ exponent.1)
    return (.float x, exponent.2)

/-- A number. -/
def readNumber (cs : List Char) : Option (Json × List Char) :=
  match cs with
  | '-' :: rest => readUnsigned ['-'] rest
  | _ => readUnsigned [] cs

/-- `dict(pairs)`: a later value of a key replaces the earlier one in its place. -/
def dictOf (ms : List (String × Json)) : JsonObject := JsonObject.merge [] ms

/-- The reader of `json.loads`. -/
def jsonReader : Reader := ⟨readNumber, dictOf⟩

/-- `json.loads(text)`. -/
def loads (text : String) : Except PyError Json :=
  match jsonReader.document text.toList with
  | some v => .ok v
  | none => .error .jsonDecodeError

end Numbers

/-! ### Writing values -/

/-- What the settings of `json.dumps` change: how a character is escaped, and the separators. -/
structure TextStyle where
  escape : Char → List Char
  comma : List Char
  colon : List Char

namespace TextStyle

variable (S : TextStyle)

/-- A quoted string. -/
def string (s : String) : List Char := '"' :: s.toList.flatMap S.escape ++ ['"']

mutual

/-- The text of a value. -/
def text : Json → List Char
  | .null => "null".toList
  | .bool true => "true".toList
  | .bool false => "false".toList
  | .int n => intText n
  | .float x => pyFloatText x
  | .str s => S.string s
  | .arr [] => ['[', ']']
  | .arr (x :: xs) => '[' :: (text x ++ itemsText xs)
  | .obj [] => ['{', '}']
  | .obj (m :: ms) => '{' :: (S.string m.1 ++ (S.colon ++ (text m.2 ++ membersText ms)))

/-- The items after the first one, and the closing bracket. -/
def itemsText : List Json → List Char
  | [] => [']']
  | x :: xs => S.comma ++ (text x ++ itemsText xs)

/-- The members after the first one, and the closing brace. -/
def membersText : List (String × Json) → List Char
  | [] => ['}']
  | m :: ms => S.comma ++ (S.string m.1 ++ (S.colon ++ (text m.2 ++ membersText ms)))

end

end TextStyle

/-- Four hexadecimal digits of a code unit. -/
def hex4 (n : ℕ) : List Char :=
  [hexDigit (n / 4096 % 16), hexDigit (n / 256 % 16), hexDigit (n / 16 % 16), hexDigit (n % 16)]

/-- How one character is written with `ensure_ascii`: printable ASCII and the control characters
below it as without, any other one by its code units. -/
def asciiEscape (c : Char) : List Char :=
  if c.toNat < 127 then escapeChar c
  else if c.toNat < 0x10000 then '\\' :: 'u' :: hex4 c.toNat
  else
    '\\' :: 'u' :: (hex4 (0xD800 + (c.toNat - 0x10000) / 1024)
      ++ '\\' :: 'u' :: hex4 (0xDC00 + (c.toNat - 0x10000) % 1024))

/-- `json.dumps(value)`. -/
def defaultStyle : TextStyle := ⟨asciiEscape, [',', ' '], [':', ' ']⟩

/-- `json.dumps(value, separators=(",", ":"))`. -/
def compactStyle : TextStyle := ⟨asciiEscape, [','], [':']⟩

/-- `json.dumps(value, separators=(",", ":"), ensure_ascii=False)`. -/
def unescapedStyle : TextStyle := ⟨escapeChar, [','], [':']⟩

end AgentRuntime.Application
