import Criteria.Attribute
import Criteria.Sql.Select

/-!
# Join tables

The joins that a query needs so far, one for each chain of relationships from the root entity.

* `JoinTable.memo` — the index of the join of each relationship from a parent; the root is the parent of the first joins
  of a chain.
* `JoinTable.join` — the join that is remembered, or a new one behind the others, with an alias of its own.
* `JoinTable.resolve` — the column of an attribute, joined as needed. What has been joined when it fails stays.
-/

namespace Criteria

/-- The joins so far, where they are, and how often each alias has been asked for. -/
structure JoinTable where
  root : Entity
  joins : List Join
  /-- The index of the join of a relationship and a parent. -/
  memo : Keyed Nat (String × Option Nat)
  uses : Keyed Nat

namespace JoinTable

/-- No joins; the table of the root is in use. -/
def start (root : Entity) : JoinTable := ⟨root, [], [], [(root.table, 1)]⟩

/-- The name by which the columns of the root or of a join are qualified. The root would stand in for a join that is not
there, here and in `entityAt`; the places that operations look up always have one (`Intact.inRange`). -/
def qualifier (t : JoinTable) : Option Nat → String
  | none => t.root.table
  | some index => ((t.joins[index]?).map Join.aliasName).getD t.root.table

/-- An alias for a table: its own name while that is free; else the relationship with the table it comes from, and a
number from the second use on. The uses are counted. -/
def aliasFor (uses : Keyed Nat) (relationship table parentTable : String) : String × Keyed Nat :=
  match uses.get? table with
  | none => (table, uses.put table 1)
  | some _ =>
    let candidate := relationship ++ "_" ++ parentTable
    let count := (uses.get? candidate).getD 0 + 1
    (if count = 1 then candidate else candidate ++ "_" ++ toString count, uses.put candidate count)

/-- The entity of the root or of a join. -/
def entityAt (c : Catalog) (t : JoinTable) : Option Nat → Except SearchError Entity
  | none => .ok t.root
  | some index =>
    let name := ((t.joins[index]?).map Join.entity).getD t.root.name
    match c.entity? name with
    | some e => .ok e
    | none => .error (.unknownEntity name)

/-- The columns that match in a join: of the joined table and of its parent. -/
def joinColumns (source target : Entity) (r : Relationship) : String × String :=
  match r.kind with
  | .belongsTo => (target.primaryKey, r.foreignKey)
  | .hasMany | .hasOne => (r.foreignKey, source.primaryKey)

/-- The table with one more join, from an entity by a relationship to another, which is remembered. -/
def extend (t : JoinTable) (relationship : String) (parent : Option Nat) (source target : Entity) (r : Relationship) :
    JoinTable :=
  let (aliasName, uses) := aliasFor t.uses relationship target.table source.table
  let (column, parentColumn) := joinColumns source target r
  { t with
    joins := t.joins ++
      [⟨t.joins.length, parent, relationship, .left, target.name, target.table, aliasName, column, t.qualifier parent,
        parentColumn⟩]
    memo := t.memo.put (relationship, parent) t.joins.length
    uses := uses }

/-- The index of the join of a relationship from a parent, which is remembered or made. -/
def join (c : Catalog) (t : JoinTable) (relationship : String) (parent : Option Nat) :
    Except SearchError (JoinTable × Nat) :=
  match t.memo.get? (relationship, parent) with
  | some index => .ok (t, index)
  | none =>
    match t.entityAt c parent with
    | .error e => .error e
    | .ok source =>
      match source.relationship? relationship with
      | none => .error (.unresolvedAttribute source.name relationship)
      | some r =>
        match c.entity? r.target with
        | none => .error (.unknownEntity r.target)
        | some target => .ok (t.extend relationship parent source target r, t.joins.length)

/-- Follows hops from a parent to the last join. -/
def follow (c : Catalog) (t : JoinTable) (parent : Option Nat) :
    List Hop → JoinTable × Except SearchError (Option Nat)
  | [] => (t, .ok parent)
  | hop :: hops =>
    match t.join c hop.relationship parent with
    | .error e => (t, .error e)
    | .ok (t, index) => follow c t (some index) hops

/-- The column of an attribute. -/
def resolve (c : Catalog) (t : JoinTable) (path : AttributePath) : JoinTable × Except SearchError Column :=
  match t.follow c none path.hops with
  | (t, .error e) => (t, .error e)
  | (t, .ok last) => (t, .ok ⟨t.qualifier last, path.column, path.type⟩)

/-- The column of an attribute name at the root. -/
def resolveName (c : Catalog) (t : JoinTable) (name : String) : JoinTable × Except SearchError Column :=
  match AttributePath.resolve c t.root.name name with
  | .error e => (t, .error e)
  | .ok path => t.resolve c path

end JoinTable

/-- The type of the column of an attribute, by the table of its entity. -/
def Catalog.pathType (c : Catalog) (path : AttributePath) : Except SearchError ColumnType :=
  match c.entity? path.entity with
  | none => .error (.unknownEntity path.entity)
  | some e =>
    if c.hasTable e.table then
      match c.columnType? e.table path.column with
      | some type => .ok type
      | none => .error (.unknownColumn e.table path.column)
    else .error (.unknownColumn e.table path.column)

end Criteria
