import Criteria.Collect
import Criteria.Error
import Criteria.Sql.Expr

/-!
# Terms of predicates

What a predicate says about one column.

* `Predicate.checkColumn` and `Predicate.coerce` — whether it is for a column type, and a text as a value of one.
* `Predicate.opposite` — the flag predicate that holds where this one does not.
* `Predicate.term` — the expression for a column and an operand.
-/

namespace Criteria

/-- What a predicate is applied to beside a column. -/
inductive Operand where
  | value (raw : String)
  | list (raws : List String)
  | flag (holds : Bool)

namespace Predicate

/-- Rejects the column types that a predicate is not for. -/
def checkColumn (p : Predicate) (type : ColumnType) : Except SearchError Unit :=
  if p.allows type then .ok () else .error (.unsupportedValue p (.columnType type))

/-- The value that a text writes in a column of a type. -/
def coerce (p : Predicate) (raw : String) (type : ColumnType) : Except SearchError BindValue :=
  match type.coerce? raw with
  | some value => .ok value
  | none => .error (.unsupportedValue p (.notOfType raw type))

/-- The values that several texts write, up to the first that writes none. -/
def coerceAll (p : Predicate) (type : ColumnType) (raws : List String) : Except SearchError (List BindValue) :=
  collect (fun raw => p.coerce raw type) raws

/-- The comparison that a predicate makes. -/
def comparison? : Predicate → Option Comparison
  | eq => some .eq
  | notEq => some .notEq
  | lt => some .lt
  | lteq => some .lteq
  | gt => some .gt
  | gteq => some .gteq
  | _ => none

/-- A pattern match: the pattern for a text, whether it is negated, and whether the text is escaped in it. -/
structure Matching where
  pattern : String → String
  negated : Bool
  escaped : Bool

/-- The match that a predicate makes: the text as a pattern, or anywhere, at the start or at the end of the column. -/
def matching? : Predicate → Option Matching
  | matching => some ⟨id, false, false⟩
  | notMatching => some ⟨id, true, false⟩
  | cont => some ⟨fun raw => "%" ++ escapePattern raw ++ "%", false, true⟩
  | notCont => some ⟨fun raw => "%" ++ escapePattern raw ++ "%", true, true⟩
  | start => some ⟨fun raw => escapePattern raw ++ "%", false, true⟩
  | notStart => some ⟨fun raw => escapePattern raw ++ "%", true, true⟩
  | ending => some ⟨fun raw => "%" ++ escapePattern raw, false, true⟩
  | notEnding => some ⟨fun raw => "%" ++ escapePattern raw, true, true⟩
  | _ => none

/-- The expression for one value. -/
def valueTerm (p : Predicate) (column : Column) (raw : String) : Except SearchError Expr :=
  match p.comparison? with
  | some op =>
    match p.coerce raw column.type with
    | .ok value => .ok (.compare column op value)
    | .error e => .error e
  | none =>
    match p.matching? with
    | some m => .ok (.like column (m.pattern raw) m.negated m.escaped)
    | none => .error (.unsupportedValue p .valueGiven)

/-- The flag predicate that holds where this one does not; every other predicate is kept. -/
def opposite : Predicate → Predicate
  | null => notNull
  | notNull => null
  | present => blank
  | blank => present
  | isTrue => isFalse
  | isFalse => isTrue
  | p => p

/-- The expression of a flag that holds. Present is neither null nor empty, and blank is one of the two. A predicate that
is no flag asks whether the column is true. -/
def holdsTerm (p : Predicate) (column : Column) : Expr :=
  match p with
  | null => .isNull column false
  | notNull => .isNull column true
  | present => .group .and [.isNull column true, .compare column .notEq (.text "")]
  | blank => .group .or [.isNull column false, .compare column .eq (.text "")]
  | isFalse => .isBool column false
  | _ => .isBool column true

/-- The expression of a flag: one that does not hold applies the opposite. -/
def flagTerm (p : Predicate) (column : Column) (holds : Bool) : Expr :=
  if holds then p.holdsTerm column else p.opposite.holdsTerm column

/-- The expression for a column and an operand. -/
def term (p : Predicate) (column : Column) : Operand → Except SearchError Expr
  | .value raw => p.valueTerm column raw
  | .list raws =>
    match p.coerceAll column.type raws with
    | .ok values => .ok (.inList column values (p == notIn))
    | .error e => .error e
  | .flag holds => .ok (p.flagTerm column holds)

end Predicate

end Criteria
