import Criteria.Combinator
import Criteria.Json
import Criteria.Schema.Column

/-!
# Bind values

* `BindValue` — a typed value that goes beside a query, never into its text.
* `Flag.parse?` — the words for true and false.
* `ColumnType.coerce?` — a text read as a value of a column type.
-/

namespace Criteria

open Number (Binary64)

/-- A value bound to a placeholder. -/
inductive BindValue where
  | text (s : String)
  | int (n : Int)
  | float (x : Binary64)
  | bool (b : Bool)
  deriving DecidableEq

namespace BindValue

/-- The value as plain text: numbers without a power of ten. -/
def plainText : BindValue → String
  | text s => s
  | int n => toString n
  | float x => x.plainText
  | bool b => if b then "true" else "false"

/-- The value as JSON: null for a number that is not finite. -/
def json : BindValue → Json
  | text s => .string s
  | int n => .number (.integer n)
  | float x => .ofBinary64 x
  | bool b => .bool b

/-- Equality of values as numbers and texts: both zeros are equal, and a float that is no number equals nothing. -/
def equal : BindValue → BindValue → Bool
  | float x, float y => !x.isNaN && !y.isNaN && (x == y || (x.magnitudeBits == 0 && y.magnitudeBits == 0))
  | v, w => v == w

/-- Equality of lists of values. -/
def equalAll (vs ws : List BindValue) : Bool := vs.length == ws.length && (vs.zip ws).all fun (v, w) => v.equal w

/-- The storage class of the value in a database that stores truth values as integers and has no value for a float that
is no number. -/
def storageClass : BindValue → String
  | text _ => "text"
  | int _ | bool _ => "integer"
  | float x => if x.isNaN then "null" else "real"

end BindValue

/-- The truth value of a word in any case, between any spaces. -/
def Flag.parse? (raw : String) : Option Bool :=
  let word := Text.lower (Text.trim raw)
  if ["1", "t", "true", "y", "yes", "on"].contains word then some true
  else if ["0", "f", "false", "n", "no", "off"].contains word then some false
  else none

/-- The value that a text writes in a column of a type. Spaces around numbers and truth values do not matter; in every
other column the text itself is the value. -/
def ColumnType.coerce? (type : ColumnType) (raw : String) : Option BindValue :=
  match type with
  | .integer => (Number.int64? (Text.trim raw)).map .int
  | .float | .decimal => (Binary64.ofString? (Text.trim raw)).map .float
  | .boolean => (Flag.parse? raw).map .bool
  | .string | .text | .date | .datetime | .time => some (.text raw)

end Criteria
