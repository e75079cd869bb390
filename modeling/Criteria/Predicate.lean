import Criteria.Schema.Column

/-!
# Predicates

The fixed catalogue of tests that a condition may make.

* `Predicate.name` — the name with which a condition key ends, and `Predicate.ofName?` its inverse.
* `Predicate.arity` — whether the test takes one value, a list of values or a flag.
* `Predicate.allows` — the column types it may be applied to.
-/

namespace Criteria

/-- How many values a predicate takes. -/
inductive Arity where
  /-- A truth value: true applies the predicate, false its opposite. -/
  | flag
  | single
  | list
  deriving DecidableEq

/-- The column types that a predicate is valid for. -/
inductive Guard where
  | any
  /-- Every type whose values have an order, which booleans have not. -/
  | ordered
  | textual
  | boolean
  deriving DecidableEq

/-- A predicate. -/
inductive Predicate where
  | eq
  | notEq
  | lt
  | lteq
  | gt
  | gteq
  | matching
  | notMatching
  | cont
  | notCont
  | start
  | notStart
  | ending
  | notEnding
  | isIn
  | notIn
  | null
  | notNull
  | present
  | blank
  | isTrue
  | isFalse
  deriving DecidableEq

/-- Whether a guard lets a column type pass. -/
def Guard.allows : Guard → ColumnType → Bool
  | any, _ => true
  | ordered, type => type != .boolean
  | textual, type => type.isTextual
  | boolean, type => type == .boolean

namespace Predicate

/-- Every predicate. -/
def all : List Predicate :=
  [eq, notEq, lt, lteq, gt, gteq, matching, notMatching, cont, notCont, start, notStart, ending, notEnding, isIn, notIn,
    null, notNull, present, blank, isTrue, isFalse]

/-- The name of a predicate. -/
def name : Predicate → String
  | eq => "eq"
  | notEq => "not_eq"
  | lt => "lt"
  | lteq => "lteq"
  | gt => "gt"
  | gteq => "gteq"
  | matching => "matches"
  | notMatching => "does_not_match"
  | cont => "cont"
  | notCont => "not_cont"
  | start => "start"
  | notStart => "not_start"
  | ending => "end"
  | notEnding => "not_end"
  | isIn => "in"
  | notIn => "not_in"
  | null => "null"
  | notNull => "not_null"
  | present => "present"
  | blank => "blank"
  | isTrue => "true"
  | isFalse => "false"

/-- How many values a predicate takes. -/
def arity : Predicate → Arity
  | isIn | notIn => .list
  | null | notNull | present | blank | isTrue | isFalse => .flag
  | _ => .single

/-- The column types that a predicate is valid for. -/
def guard : Predicate → Guard
  | lt | lteq | gt | gteq => .ordered
  | matching | notMatching | cont | notCont | start | notStart | ending | notEnding | present | blank => .textual
  | isTrue | isFalse => .boolean
  | _ => .any

/-- Whether a predicate may be applied to a column of this type. -/
def allows (p : Predicate) (type : ColumnType) : Bool := p.guard.allows type

/-- The predicate of a name. -/
def ofName? (name : String) : Option Predicate := all.find? fun p => p.name == name

/-- Whether a key may ask for any or for all of several values of this predicate. -/
def takesSeveral (p : Predicate) : Bool := p.arity == .single

theorem mem_all (p : Predicate) : p ∈ all := by
  cases p <;> simp [all]

theorem ofName?_name (p : Predicate) : ofName? p.name = some p := by
  cases p <;> decide

theorem name_injective {p q : Predicate} (h : p.name = q.name) : p = q := by
  have hq := ofName?_name q
  rw [← h, ofName?_name p] at hq
  exact Option.some.inj hq

end Predicate

end Criteria
