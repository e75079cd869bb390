import Criteria.Settings
import Criteria.Sql.Backend

/-!
# Configuration files

* `ConfigFile` — the schema document, the backend and the settings that a file chooses, and the names in it that mean
  nothing.
* `ConfigFile.parse?` reads the text of a file: an object, in which every known field may be missing or null.
-/

namespace Criteria.Command

open Document

/-- The settings of a search that a file chooses. -/
structure SettingsSection where
  orGroupKey : Option String
  andGroupKey : Option String
  conditionKey : Option String
  sortKey : Option String
  ignoreUnknown : Option Bool
  distinct : Option Bool

/-- What a configuration file chooses. -/
structure ConfigFile where
  schema : Option String
  backend : Option Backend
  search : SettingsSection
  /-- The names of other fields, each once, in the order of their characters. -/
  unknown : List String

/-- No choice. -/
def SettingsSection.empty : SettingsSection := ⟨none, none, none, none, none, none⟩

/-- No choice. -/
def ConfigFile.empty : ConfigFile := ⟨none, none, .empty, []⟩

/-- Reads the settings in a file. As a list they are given completely. -/
def SettingsSection.ofDocument? (d : Document) : Option SettingsSection :=
  match record? Settings.fieldNames Settings.fieldNames.length d with
  | some fields =>
    match optional? (nullable? text?) "or_group_key" none fields,
      optional? (nullable? text?) "and_group_key" none fields,
      optional? (nullable? text?) "condition_key" none fields,
      optional? (nullable? text?) "sort_key" none fields,
      optional? (nullable? Document.truth?) "ignore_unknown_conditions" none fields,
      optional? (nullable? Document.truth?) "distinct" none fields with
    | some orGroup, some andGroup, some condition, some sort, some ignore, some distinct =>
      some ⟨orGroup, andGroup, condition, sort, ignore, distinct⟩
    | _, _, _, _, _, _ => none
  | none => none

namespace ConfigFile

/-- The known fields of a file. -/
def fieldNames : List String := ["schema", "backend", "search"]

/-- Puts a name in its place among others, unless it stands there. -/
def insertName (name : String) : List String → List String
  | [] => [name]
  | next :: rest =>
    if name = next then next :: rest else if name < next then name :: next :: rest else next :: insertName name rest

/-- The names of the fields that are not known, if all of them have values. -/
def unknownNames? (fields : List (String × Document)) : Option (List String) :=
  let others := fields.filter fun field => !fieldNames.contains field.1
  if others.all fun field => (field.2.valueIn? (maxDepth - 1)).isSome then
    some ((others.map Prod.fst).foldr insertName [])
  else none

/-- Reads the fields of a file. -/
def ofFields? (known : Keyed Document) (unknown : List String) : Option ConfigFile :=
  match optional? (nullable? text?) "schema" none known,
    optional? (nullable? (choice? Backend.byName)) "backend" none known,
    optional? (nullable? SettingsSection.ofDocument?) "search" none known with
  | some schema, some backend, some search => some ⟨schema, backend, search.getD .empty, unknown⟩
  | _, _, _ => none

/-- Reads a file; it has to be an object. -/
def ofDocument? (d : Document) : Option ConfigFile :=
  match d with
  | .object members =>
    match record? fieldNames 0 d, (named? members).bind unknownNames? with
    | some known, some unknown => ofFields? known unknown
    | _, _ => none
  | _ => none

/-- Reads the text of a file. -/
def parse? (text : String) : Option ConfigFile := (Document.parse? text).bind ofDocument?

end ConfigFile

end Criteria.Command
