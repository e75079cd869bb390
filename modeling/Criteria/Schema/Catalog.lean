import Criteria.Schema.Entity

/-!
# Schemas and catalogs

* `Schema` — the registered entities; an entity that is registered again replaces the one of its name.
* `Catalog` — what a search may ask about a schema: entities by name, and tables and columns by table name.
* `Schema.catalog` answers from the entities, and `Catalog.hiding` leaves out some tables and columns.
-/

namespace Criteria

/-- Entities by name. -/
structure Schema where
  entities : Keyed Entity
  /-- Each entity stands under its own name. -/
  named : ∀ entry ∈ entities, entry.2.name = entry.1

/-- What a search asks about a schema. -/
structure Catalog where
  /-- The entity of a name. -/
  entity? : String → Option Entity
  /-- Whether an entity is backed by a table. -/
  hasTable : String → Bool
  /-- The type of a column of a table. -/
  columnType? : (table column : String) → Option ColumnType

namespace Schema

/-- A schema without entities. -/
def empty : Schema := ⟨[], by simp⟩

/-- Registers an entity under its name. -/
def register (s : Schema) (e : Entity) : Schema where
  entities := s.entities.put e.name e
  named entry hentry := by
    rcases Keyed.mem_put hentry with rfl | hentry
    · rfl
    · exact s.named entry hentry

/-- The entity of a name. -/
def entity? (s : Schema) (name : String) : Option Entity := s.entities.get? name

/-- The first entity that is backed by a table. -/
def entityOfTable? (s : Schema) (table : String) : Option Entity :=
  s.entities.values.find? fun e => e.table == table

/-- The answers of a schema. -/
def catalog (s : Schema) : Catalog where
  entity? := s.entity?
  hasTable table := (s.entityOfTable? table).isSome
  columnType? table column := (s.entityOfTable? table).bind fun e => e.columnType? column

end Schema

theorem Schema.name_eq_of_entity? {s : Schema} {name : String} {e : Entity} (h : s.catalog.entity? name = some e) :
    e.name = name :=
  s.named _ (Keyed.mem_of_get? h)

/-- The same entities, without the tables and columns of these names. -/
def Catalog.hiding (c : Catalog) (tables columns : List String) : Catalog where
  entity? := c.entity?
  hasTable table := !tables.contains table && c.hasTable table
  columnType? table column := if columns.contains column then none else c.columnType? table column

end Criteria
