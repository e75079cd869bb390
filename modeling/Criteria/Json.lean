import Criteria.Keyed
import Criteria.Number.Shortest

/-!
# JSON values and their text

* `Json` — a value whose objects keep the order of their fields and name each field once.
* `Json.text` — the compact text of a value, on one line: no spaces, and an escape for a quote, a backslash and every
  control character below the space.
-/

namespace Criteria

open Number (Binary64)

/-- A JSON number: an integer of at most 64 bits, or a finite floating-point number. -/
inductive JsonNumber where
  | integer (n : Int)
  | real (x : Binary64)
  deriving DecidableEq

/-- A JSON value. -/
inductive Json where
  | null
  | bool (b : Bool)
  | number (n : JsonNumber)
  | string (s : String)
  | array (items : List Json)
  | object (fields : List (String × Json))

/-- The text of a number: an integer in base ten, any other with a fraction or a power of ten. -/
def JsonNumber.text : JsonNumber → String
  | .integer n => toString n
  | .real x => x.exponentText

namespace Json

/-- A digit in base sixteen. -/
def hexDigit (n : Nat) : Char := if n < 10 then Char.ofNat (48 + n) else Char.ofNat (87 + n)

/-- One character of a quoted text. -/
def escape (c : Char) : List Char :=
  if c = '"' then ['\\', '"']
  else if c = '\\' then ['\\', '\\']
  else if c = '\n' then ['\\', 'n']
  else if c = '\r' then ['\\', 'r']
  else if c = '\t' then ['\\', 't']
  else if c = '\x08' then ['\\', 'b']
  else if c = '\x0c' then ['\\', 'f']
  else if c.toNat < 0x20 then ['\\', 'u', '0', '0', hexDigit (c.toNat / 16), hexDigit (c.toNat % 16)]
  else [c]

/-- A text in quotes. -/
def quote (s : String) : List Char := '"' :: (s.toList.flatMap escape ++ ['"'])

mutual

/-- The characters of a value. -/
def chars : Json → List Char
  | .null => "null".toList
  | .bool b => if b then "true".toList else "false".toList
  | .number n => n.text.toList
  | .string s => quote s
  | .array items => '[' :: (itemChars items ++ [']'])
  | .object fields => '\x7b' :: (fieldChars fields ++ ['\x7d'])

/-- Items with commas between them. -/
def itemChars : List Json → List Char
  | [] => []
  | [item] => item.chars
  | item :: next :: rest => item.chars ++ ',' :: itemChars (next :: rest)

/-- Fields with commas between them. -/
def fieldChars : List (String × Json) → List Char
  | [] => []
  | [(name, value)] => quote name ++ ':' :: value.chars
  | (name, value) :: next :: rest => quote name ++ ':' :: (value.chars ++ ',' :: fieldChars (next :: rest))

end

/-- The compact text of a value. -/
def text (value : Json) : String := String.ofList value.chars

/-- The fields of an object. -/
def fields? : Json → Option (Keyed Json)
  | .object fields => some fields
  | _ => none

/-- The text of a string. -/
def string? : Json → Option String
  | .string s => some s
  | _ => none

/-- The number for a finite value; there is none for the others, and null stands for them. -/
def ofBinary64 (x : Binary64) : Json := if x.isFinite then .number (.real x) else .null

end Json

end Criteria
