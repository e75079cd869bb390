import Criteria.Keyed

/-!
# Column types

* `ColumnType` — what a column stores, with one name for each type.
* `ColumnType.isTextual` — the types that hold free text.
-/

namespace Criteria

/-- What a column stores. -/
inductive ColumnType where
  | string
  | text
  | integer
  | float
  | decimal
  | boolean
  | date
  | datetime
  | time
  deriving DecidableEq

namespace ColumnType

/-- Every column type. -/
def all : List ColumnType := [string, text, integer, float, decimal, boolean, date, datetime, time]

/-- The name of a type. -/
def name : ColumnType → String
  | string => "string"
  | text => "text"
  | integer => "integer"
  | float => "float"
  | decimal => "decimal"
  | boolean => "boolean"
  | date => "date"
  | datetime => "datetime"
  | time => "time"

/-- The types by name. -/
def byName : Keyed ColumnType := all.map fun type => (type.name, type)

/-- The types that hold free text. -/
def isTextual : ColumnType → Bool
  | string | text => true
  | _ => false

end ColumnType

end Criteria
