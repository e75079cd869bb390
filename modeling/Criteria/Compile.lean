import Criteria.JoinTable
import Criteria.SortKey
import Criteria.Tree

/-!
# From search trees to clauses

* `compileNode` — the expression of a node; the joins it needs go into the join table.
* `compileSorts` — the columns to order by.
* `evaluate` — the clauses of a query: its joins, one filter, its order, and perhaps a grouping. There are none if any
  part fails.
-/

namespace Criteria

/-- A step that may add joins, and may fail after it has added some. -/
abbrev Joining (α : Type) := JoinTable × Except SearchError α

/-! ## Conditions -/

/-- The terms of a condition for one of its attributes. -/
def Condition.columnTerms (cond : Condition) (column : Column) : Except SearchError (List Expr) :=
  match cond.predicate.arity with
  | .single => collect (fun raw => cond.predicate.term column (.value raw)) cond.value.texts
  | .list => collect (fun raws => cond.predicate.term column (.list raws)) [cond.value.texts]
  | .flag =>
    match cond.value.texts.head?.bind Flag.parse? with
    | none => .error (.unsupportedValue cond.predicate .flagMissing)
    | some holds => collect (fun holds => cond.predicate.term column (.flag holds)) [holds]

/-- The terms of a condition for several of its attributes, in order. -/
def Condition.attributeTerms (c : Catalog) (cond : Condition) (t : JoinTable) :
    List AttributePath → Joining (List Expr)
  | [] => (t, .ok [])
  | path :: rest =>
    match t.resolve c path with
    | (t, .error e) => (t, .error e)
    | (t, .ok column) =>
      match cond.columnTerms column with
      | .error e => (t, .error e)
      | .ok terms =>
        match cond.attributeTerms c t rest with
        | (t, .error e) => (t, .error e)
        | (t, .ok more) => (t, .ok (terms ++ more))

/-- Terms as one expression: a single term is itself. -/
def joinTerms (combinator : Combinator) : List Expr → Expr
  | [term] => term
  | terms => .group combinator terms

/-- The expression of a condition. -/
def compileCondition (c : Catalog) (cond : Condition) (t : JoinTable) : Joining Expr :=
  match cond.attributeTerms c t cond.attributes with
  | (t, .error e) => (t, .error e)
  | (t, .ok terms) => (t, .ok (joinTerms cond.combinator terms))

/-! ## Trees -/

mutual

/-- The expression of a node. -/
def compileNode (c : Catalog) (t : JoinTable) : Node → Joining Expr
  | .condition cond => compileCondition c cond t
  | .group combinator members =>
    match compileNodes c t members with
    | (t, .error e) => (t, .error e)
    | (t, .ok terms) => (t, .ok (.group combinator terms))

/-- The expressions of nodes in order. -/
def compileNodes (c : Catalog) (t : JoinTable) : List Node → Joining (List Expr)
  | [] => (t, .ok [])
  | node :: rest =>
    match compileNode c t node with
    | (t, .error e) => (t, .error e)
    | (t, .ok term) =>
      match compileNodes c t rest with
      | (t, .error e) => (t, .error e)
      | (t, .ok terms) => (t, .ok (term :: terms))

end

/-! ## Whole searches -/

/-- How a search is evaluated. -/
structure Options where
  /-- Whether the rows are grouped by the primary key of the root. -/
  distinct : Bool
  /-- Whether sorts with unknown attributes are left out. -/
  ignoreUnknownSorts : Bool
  deriving DecidableEq

/-- The columns to order by. -/
def compileSorts (c : Catalog) (options : Options) (t : JoinTable) : List SortKey → Joining (List Order)
  | [] => (t, .ok [])
  | sort :: rest =>
    match AttributePath.resolve c t.root.name sort.name with
    | .error e =>
      if options.ignoreUnknownSorts && e.isDroppable then compileSorts c options t rest else (t, .error e)
    | .ok path =>
      match t.resolve c path with
      | (t, .error e) => (t, .error e)
      | (t, .ok column) =>
        match compileSorts c options t rest with
        | (t, .error e) => (t, .error e)
        | (t, .ok orders) => (t, .ok (⟨column, sort.direction⟩ :: orders))

/-- The filter of a search: all terms have to hold. -/
def filterOf : List Expr → Expr
  | [] => .always
  | terms => .group .and terms

/-- The column that tells the rows of an entity apart. -/
def keyColumn (root : Entity) : Column :=
  ⟨root.table, root.primaryKey, (root.columnType? root.primaryKey).getD .integer⟩

/-- The clauses for what has been compiled. -/
def clauses (options : Options) (t : JoinTable) (filter : Expr) (orders : List Order) : List Clause :=
  t.joins.map .join ++ [.filter filter] ++ orders.map .order ++
    if options.distinct then [.groupBy (keyColumn t.root)] else []

/-- The clauses of a search, whose base and or-groups all have to hold; every evaluation starts without joins. -/
def evaluate (c : Catalog) (root : Entity) (base : Junction) (ors : List Junction) (sorts : List SortKey)
    (options : Options) : Joining (List Clause) :=
  match compileNodes c (JoinTable.start root) (base ++ ors.map (Node.group .or)) with
  | (t, .error e) => (t, .error e)
  | (t, .ok terms) =>
    match compileSorts c options t sorts with
    | (t, .error e) => (t, .error e)
    | (t, .ok orders) => (t, .ok (clauses options t (filterOf terms) orders))

end Criteria
