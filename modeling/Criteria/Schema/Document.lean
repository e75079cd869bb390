import Criteria.Json.Field
import Criteria.Schema.Catalog

/-!
# Schema documents

A schema is written as a record with one field, `entities`, which maps names to entities.

* An entity is a record of `table`, `primary_key`, `columns` and `relationships`; all but the table have defaults.
* A column is written as the name of its type, and a relationship as a record of `target`, `kind` and `foreign_key`.
-/

namespace Criteria.Schema

open Document

/-- Reads a relationship. -/
def relationship? (d : Document) : Option Relationship :=
  match record? ["target", "kind", "foreign_key"] 0 d with
  | some fields =>
    match required? text? "target" fields, required? (choice? RelationshipKind.byName) "kind" fields,
      required? text? "foreign_key" fields with
    | some target, some kind, some foreignKey => some ⟨target, kind, foreignKey⟩
    | _, _, _ => none
  | none => none

/-- Reads an entity; it is given its name by the mapping that holds it. -/
def readEntity? (d : Document) : Option Entity :=
  match record? ["table", "primary_key", "columns", "relationships"] 0 d with
  | some fields =>
    match required? text? "table" fields, optional? text? "primary_key" Entity.defaultPrimaryKey fields,
      optional? (mapping? (choice? ColumnType.byName)) "columns" [] fields,
      optional? (mapping? relationship?) "relationships" [] fields with
    | some table, some primaryKey, some columns, some relationships =>
      some ⟨"", table, primaryKey, columns, relationships⟩
    | _, _, _, _ => none
  | none => none

/-- Reads a schema; each entity takes the name under which it stands. -/
def ofDocument? (d : Document) : Option Schema :=
  match record? ["entities"] 0 d with
  | some fields =>
    (optional? (mapping? readEntity?) "entities" [] fields).map fun entities =>
      { entities := entities.map fun (name, e) => (name, { e with name := name })
        named := fun entry hentry => by
          obtain ⟨read, -, rfl⟩ := List.mem_map.1 hentry
          rfl }
  | none => none

/-- Reads the text of a schema document. -/
def parse? (text : String) : Option Schema := (Document.parse? text).bind ofDocument?

end Criteria.Schema
