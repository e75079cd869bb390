import Criteria.Json
import Criteria.Predicate

/-!
# Errors

Why a search cannot be built or compiled.

* `Misfit` — why a value does not suit a predicate, `Malformed` — what is wrong with the shape of parameters, and
  `SearchError` — every cause, each with its message.
* `SearchError.isDroppable` — the causes that a lenient search passes over: a name that means nothing.
-/

namespace Criteria

/-- Why a value or a column does not suit a predicate. -/
inductive Misfit where
  /-- The predicate is not for columns of this type. -/
  | columnType (type : ColumnType)
  /-- The text is no value of the type. -/
  | notOfType (raw : String) (type : ColumnType)
  /-- Several values for a predicate that takes one. -/
  | tooMany (count : Nat)
  /-- A text that is neither true nor false. -/
  | notFlag (raw : String)
  /-- A flag predicate without a flag. -/
  | flagMissing
  /-- One value for a predicate that takes a list or a flag. -/
  | valueGiven
  /-- A cause in words. -/
  | because (reason : String)

/-- What is wrong with the shape of parameters. -/
inductive Malformed where
  | sortSpecification (value : Json)
  | sortEntry (value : Json)
  | sortName (value : Json)
  | group (value : Json)
  | groupEntry (value : Json)
  | nestedValue (value : Json)
  | mappingValue (value : Json)
  | attributeName (value : Json)
  | noAttributes
  | noPredicate
  /-- A key that means something at the root of a search only. -/
  | rootOnly (key : String)
  /-- The position of a group that is neither there nor the next one. -/
  | groupPosition (index count : Nat)
  /-- A cause in words. -/
  | because (reason : String)

/-- Why a search cannot be built or compiled. -/
inductive SearchError where
  | unknownEntity (name : String)
  | unresolvedAttribute (entity name : String)
  | unknownPredicate (key : String)
  | unsupportedValue (predicate : Predicate) (misfit : Misfit)
  | unknownColumn (table column : String)
  /-- A key that reads or writes no condition of the root entity. -/
  | undefinedAccessor (key : String)
  | invalidParams (malformed : Malformed)
  | schemaLoad (detail : String)

/-- The reason in words. -/
def Misfit.message : Misfit → String
  | columnType type => "not valid for " ++ type.name ++ " columns"
  | notOfType raw type => "'" ++ raw ++ "' is not a valid " ++ type.name ++ " value"
  | tooMany count => "expected a single value, got " ++ toString count
  | notFlag raw => "'" ++ raw ++ "' is not a boolean flag"
  | flagMissing => "expected a boolean flag"
  | valueGiven => "expected a list or flag, got a single value"
  | because reason => reason

/-- The reason in words. A value is quoted as JSON. -/
def Malformed.message : Malformed → String
  | sortSpecification value => "unsupported sort specification: " ++ value.text
  | sortEntry value => "unsupported sort entry: " ++ value.text
  | sortName value => "sort name must be a string, got " ++ value.text
  | group value => "group must be a mapping or list of mappings, got " ++ value.text
  | groupEntry value => "group entry must be a mapping, got " ++ value.text
  | nestedValue value => "nested value in condition list: " ++ value.text
  | mappingValue value => "mapping given as a condition value: " ++ value.text
  | attributeName value => "attribute name must be a string, got " ++ value.text
  | noAttributes => "condition record requires an 'a' attribute list"
  | noPredicate => "condition record requires a 'p' predicate"
  | rootOnly key => "'" ++ key ++ "' is only accepted at the search root"
  | groupPosition index count =>
    "or-group index " ++ toString index ++ " out of range (" ++ toString count ++ " groups)"
  | because reason => reason

namespace SearchError

/-- The message of an error. -/
def message : SearchError → String
  | unknownEntity name => "Unknown entity: " ++ name
  | unresolvedAttribute entity name => "Unable to resolve attribute '" ++ name ++ "' on " ++ entity
  | unknownPredicate key => "No predicate found in condition key '" ++ key ++ "'"
  | unsupportedValue predicate misfit =>
    "Unsupported value for predicate '" ++ predicate.name ++ "': " ++ misfit.message
  | unknownColumn table column => "No table or column '" ++ table ++ "." ++ column ++ "' exists"
  | undefinedAccessor key => "Undefined search attribute: " ++ key
  | invalidParams malformed => "Invalid search parameters: " ++ malformed.message
  | schemaLoad detail => "Schema load error: " ++ detail

/-- Whether a lenient search passes over the condition or sort that fails this way. -/
def isDroppable : SearchError → Bool
  | unresolvedAttribute _ _ | unknownPredicate _ => true
  | _ => false

end SearchError

end Criteria
