import Criteria.Json
import Criteria.Json.Token

/-!
# JSON documents

* `Document` — what is written, before it is asked for its values: objects may repeat a name, and numbers and strings may
  have no value.
* `Document.parse?` reads a whole text. The open arrays and objects are a stack, and each token changes it once, so
  nesting has no limit here.
* `Document.value?` is the value of a document: every number in range, every string a text, arrays and objects nested
  less than 128 deep, and of the fields of one name the last.
-/

namespace Criteria

open Number (Binary64 Numeral powTwo)

/-- A document as written. -/
inductive Document where
  | null
  | bool (b : Bool)
  | number (n : Numeral)
  | string (text : Option String)
  | array (items : List Document)
  | object (members : List (Option String × Document))

namespace Document

/-- An open array or object with what stands in it so far, last first. -/
inductive Frame where
  | array (items : List Document)
  | object (members : List (Option String × Document)) (name : Option String)

/-- What may come next. -/
inductive State where
  /-- A value, or the end of an array that has just been opened. -/
  | item (fresh : Bool) (frames : List Frame)
  /-- The name of a member, or the end of an object that has just been opened. -/
  | member (fresh : Bool) (members : List (Option String × Document)) (frames : List Frame)
  /-- The colon after a name. -/
  | colon (members : List (Option String × Document)) (name : Option String) (frames : List Frame)
  /-- A comma or an end after a value. -/
  | done (value : Document) (frames : List Frame)

/-- Opens or completes a value. -/
def State.begin? (frames : List Frame) : Token → Option State
  | .null => some (.done .null frames)
  | .bool b => some (.done (.bool b) frames)
  | .number n => some (.done (.number n) frames)
  | .string text => some (.done (.string text) frames)
  | .openArray => some (.item true (.array [] :: frames))
  | .openObject => some (.member true [] frames)
  | _ => none

/-- The state after one more token. -/
def State.next? : State → Token → Option State
  | .item true (.array [] :: frames), .closeArray => some (.done (.array []) frames)
  | .item _ frames, token => State.begin? frames token
  | .member true [] frames, .closeObject => some (.done (.object []) frames)
  | .member _ members frames, .string name => some (.colon members name frames)
  | .member _ _ _, _ => none
  | .colon members name frames, .colon => some (.item false (.object members name :: frames))
  | .colon _ _ _, _ => none
  | .done value (.array items :: frames), .comma => some (.item false (.array (value :: items) :: frames))
  | .done value (.array items :: frames), .closeArray => some (.done (.array (value :: items).reverse) frames)
  | .done value (.object members name :: frames), .comma => some (.member false ((name, value) :: members) frames)
  | .done value (.object members name :: frames), .closeObject =>
    some (.done (.object ((name, value) :: members).reverse) frames)
  | .done _ _, _ => none

/-- The document that the tokens write, from the first to the last. -/
def ofTokens? (tokens : List Token) : Option Document :=
  match tokens.foldlM State.next? (.item false []) with
  | some (.done value []) => some value
  | _ => none

/-- Reads a whole text. -/
def parse? (text : String) : Option Document := (Token.ofChars? text.toList).bind ofTokens?

/-- As many of the first digits as a number of 64 bits holds: their value, and how many digits are left. A digit that
does not fit ends the number, even if a later one would fit. -/
def fitting (value : Nat) : List Char → Nat × Nat
  | [] => (value, 0)
  | c :: cs =>
    let more := 10 * value + (c.toNat - '0'.toNat)
    if more < powTwo 64 then fitting more cs else (value, cs.length + 1)

/-- The value of a strict numeral. An integer of 64 bits is one; minus zero and all others are floating-point numbers,
taken from the digits that fit and scaled by the power of ten that is left. Digits before the point that do not fit count
as places, digits after the point do not. -/
def number? (n : Numeral) : Option JsonNumber :=
  let (whole, extra) := fitting 0 n.whole
  let sized : Int := if n.isNegative then -(whole : Int) else whole
  if n.fraction = none ∧ n.exponent = none ∧ extra = 0 ∧ -(powTwo 63 : Int) ≤ sized ∧ ¬(n.isNegative ∧ whole = 0) then
    some (.integer sized)
  else
    let fraction := n.fraction.getD []
    let (digits, unread) := fitting whole fraction
    let places := n.exponentValue + extra - (fraction.length - unread : Nat)
    (Binary64.scaled digits places).map fun x => .real (Binary64.withSign n.isNegative x)

mutual

/-- The value of a document with `room` levels of arrays and objects. -/
def valueIn? (room : Nat) : Document → Option Json
  | .null => some .null
  | .bool b => some (.bool b)
  | .number n => (number? n).map .number
  | .string text => text.map .string
  | .array items =>
    match room with
    | 0 => none
    | room + 1 => (itemsIn? room items).map .array
  | .object members =>
    match room with
    | 0 => none
    | room + 1 => (membersIn? room members).map fun fields => .object (Keyed.ofList fields)

/-- The values of items. -/
def itemsIn? (room : Nat) : List Document → Option (List Json)
  | [] => some []
  | item :: rest =>
    match valueIn? room item, itemsIn? room rest with
    | some value, some values => some (value :: values)
    | _, _ => none

/-- The names and values of members. -/
def membersIn? (room : Nat) : List (Option String × Document) → Option (List (String × Json))
  | [] => some []
  | (name, item) :: rest =>
    match name, valueIn? room item, membersIn? room rest with
    | some name, some value, some fields => some ((name, value) :: fields)
    | _, _, _ => none

end

/-- How deep arrays and objects may nest in a value. -/
def maxDepth : Nat := 127

/-- The value of a document. -/
def value? (d : Document) : Option Json := d.valueIn? maxDepth

end Document

/-- The value that a text writes. -/
def Json.parse? (text : String) : Option Json := (Document.parse? text).bind Document.value?

end Criteria
