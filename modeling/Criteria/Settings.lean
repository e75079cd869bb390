import Criteria.Json.Field

/-!
# Settings of a search

* `Settings` — the keys of parameters that are no conditions, and what to do about names that mean nothing and about rows
  that joins repeat.
* `Settings.role` — what a key means.
* `Settings.parse?` — a settings document: a record in which every field has its default.
-/

namespace Criteria

/-- How parameters are read and compiled. -/
structure Settings where
  /-- The key of groups of which one member has to hold. -/
  orGroupKey : String
  /-- The key of groups all of whose members have to hold. -/
  andGroupKey : String
  /-- The key of condition records. -/
  conditionKey : String
  /-- The key of sorts, at the root of a search. -/
  sortKey : String
  /-- Whether conditions and sorts with unknown predicates or attributes are left out. -/
  ignoreUnknown : Bool
  /-- Whether each row of the root table comes once. -/
  distinct : Bool
  deriving DecidableEq

namespace Settings

/-- The settings of those who choose none. -/
def default : Settings := ⟨"o", "g", "c", "s", false, false⟩

/-- What the value of a key holds. -/
inductive Role where
  | orGroups
  | andGroups
  | records
  | sorts
  | condition
  deriving DecidableEq

/-- What the value of a key holds; a key with two meanings has the first one listed. -/
def role (s : Settings) (key : String) : Role :=
  if key = s.orGroupKey then .orGroups
  else if key = s.andGroupKey then .andGroups
  else if key = s.conditionKey then .records
  else if key = s.sortKey then .sorts
  else .condition

/-- Whether a key means something other than a condition. -/
def isReserved (s : Settings) (key : String) : Bool :=
  key == s.orGroupKey || key == s.andGroupKey || key == s.conditionKey || key == s.sortKey

open Document

/-- The names of the settings in a document, in order. -/
def fieldNames : List String :=
  ["or_group_key", "and_group_key", "condition_key", "sort_key", "ignore_unknown_conditions", "distinct"]

/-- Reads settings; what is missing has its default. -/
def ofDocument? (d : Document) : Option Settings :=
  match record? fieldNames 0 d with
  | some fields =>
    match optional? text? "or_group_key" default.orGroupKey fields,
      optional? text? "and_group_key" default.andGroupKey fields,
      optional? text? "condition_key" default.conditionKey fields,
      optional? text? "sort_key" default.sortKey fields,
      optional? truth? "ignore_unknown_conditions" default.ignoreUnknown fields,
      optional? truth? "distinct" default.distinct fields with
    | some orGroup, some andGroup, some condition, some sort, some ignore, some distinct =>
      some ⟨orGroup, andGroup, condition, sort, ignore, distinct⟩
    | _, _, _, _, _, _ => none
  | none => none

/-- Reads the text of a settings document. -/
def parse? (text : String) : Option Settings := (Document.parse? text).bind ofDocument?

end Settings

end Criteria
