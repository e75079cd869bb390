import Criteria.Sql.Backend
import Criteria.Sql.Expr

/-!
# The text of an expression

* `Expr.render` — the text of an expression after some values have been bound; its own values follow them in order.
* A group of two or more terms stands in parentheses; a group of one is that term, and a group of none is true.
-/

namespace Criteria

/-- A qualified column. -/
def Column.render (c : Column) : String := quoteName c.qualifier ++ "." ++ quoteName c.name

/-- The placeholders of values after `bound` others. -/
def placeholders (b : Backend) (bound : Nat) : (count : Nat) → List String
  | 0 => []
  | count + 1 => b.placeholder (bound + 1) :: placeholders b (bound + 1) count

/-- Terms that have been written, as one. -/
def groupText (combinator : Combinator) : List String → String
  | [] => "1=1"
  | [term] => term
  | terms => "(" ++ Text.join (match combinator with | .and => " AND " | .or => " OR ") terms ++ ")"

namespace Expr

mutual

/-- The text of an expression for a backend when `bound` values stand before its own. -/
def render (b : Backend) (bound : Nat) : Expr → String
  | always => "1=1"
  | compare column op _ => column.render ++ " " ++ op.symbol ++ " " ++ b.placeholder (bound + 1)
  | like column _ negated escaped => likeTerm column.render (b.placeholder (bound + 1)) negated escaped
  | inList _ [] negated => if negated then "1=1" else "1=0"
  | inList column (value :: values) negated =>
    column.render ++ (if negated then " NOT IN (" else " IN (") ++
      Text.join ", " (placeholders b bound (value :: values).length) ++ ")"
  | isNull column negated => column.render ++ (if negated then " IS NOT NULL" else " IS NULL")
  | isBool column value => column.render ++ " = " ++ b.truth value
  | group combinator terms => groupText combinator (renderAll b bound terms)

/-- The texts of expressions in order, each after the values of those before it. -/
def renderAll (b : Backend) (bound : Nat) : List Expr → List String
  | [] => []
  | term :: rest => render b bound term :: renderAll b (bound + (bindings term).length) rest

end

end Expr

end Criteria
