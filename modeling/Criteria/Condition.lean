import Criteria.Attribute
import Criteria.Predicate.Term

/-!
# Conditions

A condition applies one predicate to one or more attributes.

* `Value` — one text or a list of texts; blank texts count for nothing.
* `Value.fit` — a value in the shape that a predicate takes.
* `Condition.make` — a condition whose value suits every attribute, or none if the value is blank.
-/

namespace Criteria

/-- The value of a condition. -/
inductive Value where
  | scalar (s : String)
  | list (ss : List String)
  deriving DecidableEq

namespace Value

/-- The texts of a value. -/
def texts : Value → List String
  | scalar s => [s]
  | list ss => ss

/-- A value that makes no condition: all its texts are blank. -/
def isBlank (v : Value) : Bool := v.texts.all Text.isBlank

/-- A list without its blank texts. -/
def withoutBlanks : Value → Value
  | list ss => list (ss.filter fun s => !Text.isBlank s)
  | scalar s => scalar s

/-- A value in the shape that a predicate takes: a list for several values, one text otherwise. -/
def fit (p : Predicate) (several : Bool) (v : Value) : Except SearchError Value :=
  match v with
  | scalar s => if p.arity = .list ∨ (p.arity = .single ∧ several) then .ok (list [s]) else .ok (scalar s)
  | list ss =>
    if p.arity = .list ∨ several then .ok (list ss)
    else
      match ss with
      | [s] => .ok (scalar s)
      | ss => .error (.unsupportedValue p (.tooMany ss.length))

end Value

/-- One test on one or more attributes. -/
structure Condition where
  /-- The key that the condition is read and written by. -/
  key : String
  attributes : List AttributePath
  predicate : Predicate
  value : Value
  combinator : Combinator
  deriving DecidableEq

namespace Condition

/-- Rejects a first value that is no flag, for a predicate that takes one. -/
def checkFlag (p : Predicate) (v : Value) : Except SearchError Unit :=
  if p.arity = .flag then
    match v.texts with
    | raw :: _ => if (Flag.parse? raw).isSome then .ok () else .error (.unsupportedValue p (.notFlag raw))
    | [] => .ok ()
  else .ok ()

/-- Rejects the column type of an attribute, and then the first value that is none of its type. -/
def checkAttribute (p : Predicate) (v : Value) (a : AttributePath) : Except SearchError Unit :=
  match p.checkColumn a.type with
  | .error e => .error e
  | .ok () =>
    if p.arity = .flag then .ok ()
    else
      match p.coerceAll a.type v.texts with
      | .error e => .error e
      | .ok _ => .ok ()

/-- A condition, or none if the value is blank. The value has to fit the predicate, and to suit every attribute. -/
def make (key : String) (attributes : List AttributePath) (p : Predicate) (value : Value) (combinator : Combinator)
    (several : Bool) : Except SearchError (Option Condition) :=
  let value := value.withoutBlanks
  if value.isBlank then .ok none
  else
    match value.fit p several with
    | .error e => .error e
    | .ok value =>
      match checkFlag p value with
      | .error e => .error e
      | .ok () =>
        match checkEach (checkAttribute p value) attributes with
        | .error e => .error e
        | .ok () => .ok (some ⟨key, attributes, p, value, combinator⟩)

end Condition

end Criteria
