import Criteria.Schema.Column

/-!
# Entities

An entity is a named table with typed columns and named relationships to other entities.

* `Entity.new` starts one; `column`, `belongsTo`, `hasMany`, `hasOne` and `withPrimaryKey` add to it, and the last
  declaration of a name counts.
* `Entity.columnType?`, `Entity.relationship?` read what is declared.
-/

namespace Criteria

/-- Where the foreign key of a relationship lives, and how many rows the other side has. -/
inductive RelationshipKind where
  /-- The key lives on the table of the source. -/
  | belongsTo
  /-- The key lives on the table of the target. -/
  | hasMany
  /-- The key lives on the table of the target, which has at most one row for it. -/
  | hasOne
  deriving DecidableEq

namespace RelationshipKind

/-- The name of a kind. -/
def name : RelationshipKind → String
  | belongsTo => "belongs_to"
  | hasMany => "has_many"
  | hasOne => "has_one"

/-- The kinds by name. -/
def byName : Keyed RelationshipKind := [belongsTo, hasMany, hasOne].map fun kind => (kind.name, kind)

end RelationshipKind

/-- A declared relationship to another entity. -/
structure Relationship where
  target : String
  kind : RelationshipKind
  foreignKey : String
  deriving DecidableEq

/-- An entity backed by one table. -/
structure Entity where
  name : String
  table : String
  primaryKey : String
  columns : Keyed ColumnType
  relationships : Keyed Relationship
  deriving DecidableEq

namespace Entity

/-- The primary key of an entity that declares none. -/
def defaultPrimaryKey : String := "id"

/-- An entity without columns and relationships. -/
def new (name table : String) : Entity := ⟨name, table, defaultPrimaryKey, [], []⟩

/-- Names the primary key. -/
def withPrimaryKey (e : Entity) (column : String) : Entity := { e with primaryKey := column }

/-- Declares a column. -/
def column (e : Entity) (name : String) (type : ColumnType) : Entity :=
  { e with columns := e.columns.put name type }

/-- Declares a relationship. -/
def relate (e : Entity) (name : String) (relationship : Relationship) : Entity :=
  { e with relationships := e.relationships.put name relationship }

/-- Declares a relationship whose key lives here. -/
def belongsTo (e : Entity) (name target foreignKey : String) : Entity :=
  e.relate name ⟨target, .belongsTo, foreignKey⟩

/-- Declares a relationship to many rows whose key lives there. -/
def hasMany (e : Entity) (name target foreignKey : String) : Entity :=
  e.relate name ⟨target, .hasMany, foreignKey⟩

/-- Declares a relationship to one row whose key lives there. -/
def hasOne (e : Entity) (name target foreignKey : String) : Entity :=
  e.relate name ⟨target, .hasOne, foreignKey⟩

/-- The type of a declared column. -/
def columnType? (e : Entity) (name : String) : Option ColumnType := e.columns.get? name

/-- A declared relationship. -/
def relationship? (e : Entity) (name : String) : Option Relationship := e.relationships.get? name

end Entity

end Criteria
