import Criteria.Sql.Render

/-!
# Select queries

* `Join` — a joined table: how it was reached, its alias, and the columns that match.
* `Clause` — a part of a query, and `Select.add` puts it in its place.
* `Select.sql`, `Select.bindings` — the text of a query for a backend, and its bind values, which are the same for all.
-/

namespace Criteria

/-- The direction of an order. -/
inductive Direction where
  | asc
  | desc
  deriving DecidableEq

namespace Direction

/-- The name of a direction. -/
def name : Direction → String
  | asc => "asc"
  | desc => "desc"

/-- Reads "desc" in any case between any spaces; everything else is ascending. -/
def ofText (s : String) : Direction :=
  if Text.sameLetters (Text.trim s) "desc" then desc else asc

end Direction

/-- Whether rows without a partner are kept. -/
inductive JoinKind where
  | inner
  | left
  deriving DecidableEq

/-- A table joined by following a relationship. -/
structure Join where
  /-- Its place among the joins. -/
  index : Nat
  /-- The place of the join that it starts from; none for the root table. -/
  parent : Option Nat
  relationship : String
  kind : JoinKind
  /-- The entity that it reaches. -/
  entity : String
  table : String
  aliasName : String
  /-- The column of the joined table that matches the column of the parent. -/
  column : String
  parentQualifier : String
  parentColumn : String
  deriving DecidableEq

/-- A column to order by. -/
structure Order where
  column : Column
  direction : Direction
  deriving DecidableEq

/-- A part of a query. -/
inductive Clause where
  | join (join : Join)
  | filter (term : Expr)
  | order (order : Order)
  /-- One row for each value of the column. -/
  | groupBy (column : Column)

/-- The rows of one table, joined, filtered, grouped and ordered. -/
structure Select where
  table : String
  joins : List Join
  filters : List Expr
  orders : List Order
  groupBy : Option Column

namespace Select

/-- All rows of a table. -/
def all (table : String) : Select := ⟨table, [], [], [], none⟩

/-- Adds a part; a later grouping replaces an earlier one. -/
def add (q : Select) : Clause → Select
  | .join j => { q with joins := q.joins ++ [j] }
  | .filter e => { q with filters := q.filters ++ [e] }
  | .order o => { q with orders := q.orders ++ [o] }
  | .groupBy c => { q with groupBy := some c }

/-- Adds parts in order. -/
def addAll (q : Select) (clauses : List Clause) : Select := clauses.foldl add q

/-- The bind values of a query: those of its filters, in order. -/
def bindings (q : Select) : List BindValue := Expr.allBindings q.filters

/-- A join; the alias is left out where it is the table's own name. -/
def joinText (j : Join) : String :=
  (match j.kind with | .inner => " INNER JOIN " | .left => " LEFT OUTER JOIN ") ++
    quoteName j.table ++ (if j.aliasName = j.table then "" else " " ++ quoteName j.aliasName) ++
    " ON " ++ quoteName j.aliasName ++ "." ++ quoteName j.column ++
    " = " ++ quoteName j.parentQualifier ++ "." ++ quoteName j.parentColumn

/-- The filters, all of which have to hold. -/
def whereText (b : Backend) : List Expr → String
  | [] => ""
  | filters => " WHERE " ++ Text.join " AND " (Expr.renderAll b 0 filters)

/-- The column of a grouping. -/
def groupByText : Option Column → String
  | none => ""
  | some column => " GROUP BY " ++ column.render

/-- The columns of an order. -/
def orderByText : List Order → String
  | [] => ""
  | orders => " ORDER BY " ++ Text.join ", " (orders.map fun o => orderTerm o.column.render (o.direction == .desc))

/-- The text of a query. -/
def sql (b : Backend) (q : Select) : String :=
  "SELECT " ++ quoteName q.table ++ ".* FROM " ++ quoteName q.table ++ Text.join "" (q.joins.map joinText) ++
    whereText b q.filters ++ groupByText q.groupBy ++ orderByText q.orders

end Select

end Criteria
