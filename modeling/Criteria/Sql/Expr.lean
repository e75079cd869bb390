import Criteria.BindValue

/-!
# Filter expressions

* `Column` — a column qualified by a table or an alias.
* `Expr` — a condition on rows; `Expr.bindings` are its bind values from left to right.
* `escapePattern` — a text as a pattern that only itself matches.
-/

namespace Criteria

/-- A column of a table or an alias. -/
structure Column where
  qualifier : String
  name : String
  type : ColumnType
  deriving DecidableEq

/-- A comparison of two values. -/
inductive Comparison where
  | eq
  | notEq
  | lt
  | lteq
  | gt
  | gteq
  deriving DecidableEq

/-- The operator of a comparison. -/
def Comparison.symbol : Comparison → String
  | eq => "="
  | notEq => "<>"
  | lt => "<"
  | lteq => "<="
  | gt => ">"
  | gteq => ">="

/-- A condition on rows. -/
inductive Expr where
  /-- True of every row. -/
  | always
  | compare (column : Column) (op : Comparison) (value : BindValue)
  /-- A pattern match; an escaped pattern takes backslashes to make the next character literal. -/
  | like (column : Column) (pattern : String) (negated escaped : Bool)
  | inList (column : Column) (values : List BindValue) (negated : Bool)
  | isNull (column : Column) (negated : Bool)
  | isBool (column : Column) (value : Bool)
  /-- Several conditions joined into one. -/
  | group (combinator : Combinator) (terms : List Expr)

namespace Expr

mutual

/-- The bind values in the order of their placeholders. -/
def bindings : Expr → List BindValue
  | compare _ _ value => [value]
  | like _ pattern _ _ => [.text pattern]
  | inList _ values _ => values
  | group _ terms => allBindings terms
  | always | isNull _ _ | isBool _ _ => []

/-- The bind values of expressions in order. -/
def allBindings : List Expr → List BindValue
  | [] => []
  | term :: rest => bindings term ++ allBindings rest

end

theorem allBindings_eq_flatMap (terms : List Expr) : allBindings terms = terms.flatMap bindings := by
  induction terms with
  | nil => rfl
  | cons term rest ih => simp [allBindings, ih]

end Expr

/-- A character that stands for itself in a pattern. -/
def escapePatternChar (c : Char) : List Char :=
  if c = '\\' ∨ c = '%' ∨ c = '_' then ['\\', c] else [c]

/-- A text as a pattern without wildcards, for a match where a backslash makes the next character literal. -/
def escapePattern (s : String) : String := String.ofList (s.toList.flatMap escapePatternChar)

end Criteria
