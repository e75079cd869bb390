import Criteria.Combinator
import Criteria.Keyed

/-!
# Backends

The databases for which queries are written, and where their dialects differ: in placeholders and truth values.

* `Backend.placeholder`, `Backend.truth` — the two differences.
* `quoteName`, `likeTerm`, `orderTerm` — what all dialects write alike.
-/

namespace Criteria

/-- A database. -/
inductive Backend where
  | sqlite
  | postgres
  | duckdb
  deriving DecidableEq

namespace Backend

/-- Every backend. -/
def all : List Backend := [sqlite, postgres, duckdb]

/-- The name of a backend. -/
def name : Backend → String
  | sqlite => "sqlite"
  | postgres => "postgres"
  | duckdb => "duckdb"

/-- The backends by name. -/
def byName : Keyed Backend := all.map fun backend => (backend.name, backend)

/-- The backend of those who name none. -/
def usual : Backend := sqlite

/-- Reads a name or the alias "postgresql", in any case. -/
def ofText? (s : String) : Option Backend :=
  if Text.lower s = "postgresql" then some postgres else byName.get? (Text.lower s)

/-- What is said of a text that is no backend. -/
def unknownMessage (s : String) : String := "unknown backend: " ++ Text.lower s

/-- The placeholder of the bind value at a position, counted from one. -/
def placeholder : Backend → Nat → String
  | postgres, position => "$" ++ toString position
  | _, _ => "?"

/-- A truth value. -/
def truth : Backend → Bool → String
  | sqlite, value => if value then "1" else "0"
  | _, value => if value then "TRUE" else "FALSE"

end Backend

/-- A character inside a quoted name: a quote is written twice. -/
def quoteNameChar (c : Char) : List Char := if c = '"' then ['"', '"'] else [c]

/-- A table, alias or column name in double quotes. -/
def quoteName (name : String) : String :=
  "\"" ++ String.ofList (name.toList.flatMap quoteNameChar) ++ "\""

/-- A match of a column with the pattern at a placeholder. -/
def likeTerm (column placeholder : String) (negated escaped : Bool) : String :=
  column ++ (if negated then " NOT LIKE " else " LIKE ") ++ placeholder ++ (if escaped then " ESCAPE '\\'" else "")

/-- A column to order by. -/
def orderTerm (column : String) (descending : Bool) : String :=
  column ++ (if descending then " DESC" else " ASC")

end Criteria
