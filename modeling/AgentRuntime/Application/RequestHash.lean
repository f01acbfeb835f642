import AgentRuntime.Domain.Primitives
import Mathlib.Data.List.Sort
import Mathlib.Data.Nat.Digits.Defs
import Mathlib.Data.String.Basic

/-!
# The canonical request text and its hash

`canonical_request_hash` serializes `{"input": …, "policy": …}` with sorted keys, the separators
`,` and `:` and no ASCII escaping, and hashes the UTF-8 bytes. `Json.canon` sorts the members of
every object and `Json.render` writes the result down, so two objects are the same request up to
the order of their keys exactly when their canonical forms are equal.

The hash function and the rule validator of evaluation requests are the functions the services
call without this development looking inside them; `Externals` holds them.
-/

namespace AgentRuntime.Application

open Domain

/-- Functions the services call as black boxes. -/
class Externals where
  /-- `hashlib.sha256(data).hexdigest()`. -/
  sha256 : ByteArray → String
  /-- `validate_rules(rules)`. -/
  validateRules : List JsonObject → Except PyError Unit

/-! ### Texts of the leaves -/

/-- A decimal digit. -/
def decimalDigit (n : ℕ) : Char := Char.ofNat (48 + n)

/-- The decimal text of a natural number. -/
def natText (n : ℕ) : List Char :=
  if n = 0 then ['0'] else (Nat.digits 10 n).reverse.map decimalDigit

/-- `int.__repr__`. -/
def intText (n : ℤ) : List Char := if n < 0 then '-' :: natText n.natAbs else natText n.natAbs

/-- `float.__repr__`, and the names `json.dumps` gives to the other floats. -/
def pyFloatText : PyFloat → List Char
  | .finite t => t.chars
  | .infinity => "Infinity".toList
  | .negInfinity => "-Infinity".toList
  | .nan => "NaN".toList

/-- How one character of a string is written without ASCII escaping. -/
def escapeChar (c : Char) : List Char :=
  if c = '"' then ['\\', '"']
  else if c = '\\' then ['\\', '\\']
  else if c = '\n' then ['\\', 'n']
  else if c = '\r' then ['\\', 'r']
  else if c = '\t' then ['\\', 't']
  else if c.toNat = 12 then ['\\', 'f']
  else if c.toNat = 8 then ['\\', 'b']
  else if c.toNat < 32 then
    ['\\', 'u', '0', '0', hexDigit (c.toNat / 16), hexDigit (c.toNat % 16)]
  else [c]

/-- A quoted string. -/
def stringText (s : String) : List Char := '"' :: s.toList.flatMap escapeChar ++ ['"']

/-! ### Canonical form and text -/

/-- Members in the order of their keys (`sort_keys=True`). -/
def sortMembers (ms : JsonObject) : JsonObject := ms.insertionSort fun a b => a.1 ≤ b.1

mutual

/-- The value with the members of every object sorted. -/
def canon : Json → Json
  | .arr xs => .arr (canonList xs)
  | .obj ms => .obj (sortMembers (canonMembers ms))
  | .null => .null
  | .bool b => .bool b
  | .int n => .int n
  | .float x => .float x
  | .str s => .str s

def canonList : List Json → List Json
  | [] => []
  | x :: xs => canon x :: canonList xs

def canonMembers : List (String × Json) → List (String × Json)
  | [] => []
  | (k, v) :: ms => (k, canon v) :: canonMembers ms

end

mutual

/-- The text of a value, members in the order they come. -/
def render : Json → List Char
  | .null => "null".toList
  | .bool true => "true".toList
  | .bool false => "false".toList
  | .int n => intText n
  | .float x => pyFloatText x
  | .str s => stringText s
  | .arr xs => '[' :: renderList xs ++ [']']
  | .obj ms => '{' :: renderMembers ms ++ ['}']

def renderList : List Json → List Char
  | [] => []
  | [x] => render x
  | x :: y :: xs => render x ++ ',' :: renderList (y :: xs)

def renderMembers : List (String × Json) → List Char
  | [] => []
  | [(k, v)] => stringText k ++ ':' :: render v
  | (k, v) :: m :: ms => stringText k ++ ':' :: render v ++ ',' :: renderMembers (m :: ms)

end

/-- `json.dumps(value, ensure_ascii=False, separators=(",", ":"), sort_keys=True)`. -/
def dumps (j : Json) : String := String.ofList (render (canon j))

/-- The object that is serialized for a request. -/
def requestObject (inputPayload policySnapshot : JsonObject) : Json :=
  .obj [("input", .obj inputPayload), ("policy", .obj policySnapshot)]

/-- Hash the semantic create-run payload, independent of JSON key ordering. -/
def canonicalRequestHash [Externals] (inputPayload policySnapshot : JsonObject) : String :=
  Externals.sha256 (dumps (requestObject inputPayload policySnapshot)).toUTF8

example : dumps (.obj [("b", .arr [.int (-12), .null]), ("a", .str "x\"\n")])
    = "\x7b\"a\":\"x\\\"\\n\",\"b\":[-12,null]\x7d" := by decide +kernel

end AgentRuntime.Application
