import Criteria.Collect
import Criteria.Error
import Criteria.Schema.Catalog

/-!
# Attributes

A name such as `children_parent_name` stands for a column that is reached from a root entity by relationships.

* `cuts` — the ways to take a name apart at an underscore.
* `descend` — at each entity a column of the whole name ends the way; else the longest relationship that starts the name
  is followed, and the choice is final.
* `AttributePath.resolve` — the way with its name and root, or the reason why there is none.
-/

namespace Criteria

/-- One relationship followed from an entity to another. -/
structure Hop where
  relationship : String
  source : String
  target : String
  deriving DecidableEq

/-- A column reached from a root entity. -/
structure AttributePath where
  /-- The name as written. -/
  name : String
  root : String
  hops : List Hop
  /-- The entity that declares the column. -/
  entity : String
  column : String
  type : ColumnType
  deriving DecidableEq

namespace AttributePath

/-- What stands before and after each underscore, the last underscore first. -/
def cuts : List Char → List (List Char × List Char)
  | [] => []
  | c :: cs => (cuts cs).map (fun cut => (c :: cut.1, cut.2)) ++ if c = '_' then [([], cs)] else []

theorem length_of_mem_cuts {cs : List Char} {cut : List Char × List Char} (h : cut ∈ cuts cs) :
    cut.2.length < cs.length := by
  induction cs generalizing cut with
  | nil => simp [cuts] at h
  | cons c cs ih =>
    simp only [cuts, List.mem_append, List.mem_map] at h
    rcases h with ⟨cut', hcut', rfl⟩ | h
    · have hlt := ih hcut'
      exact Nat.lt_succ_of_lt hlt
    · split at h
      · simp only [List.mem_singleton] at h
        subst h
        simp
      · simp at h

/-- A relationship at the start of a name, and what follows the underscore after it. -/
structure Step where
  relationship : String
  target : String
  rest : List Char

/-- The relationship that a cut names. -/
def stepAt? (e : Entity) (cut : List Char × List Char) : Option Step :=
  (e.relationship? (String.ofList cut.1)).map fun r => ⟨String.ofList cut.1, r.target, cut.2⟩

/-- The longest relationship that starts a name. -/
def step? (e : Entity) (name : List Char) : Option Step := (cuts name).findSome? (stepAt? e)

theorem length_step? {e : Entity} {name : List Char} {s : Step} (h : step? e name = some s) :
    s.rest.length < name.length := by
  obtain ⟨cut, hmem, hcut⟩ := List.exists_of_findSome?_eq_some h
  obtain ⟨r, -, rfl⟩ := Option.map_eq_some_iff.1 hcut
  exact length_of_mem_cuts hmem

/-- Where a name leads. -/
inductive Descent where
  /-- A column of an entity, after hops. -/
  | column (hops : List Hop) (entity column : String) (type : ColumnType)
  /-- An entity that has neither the column nor a relationship for the rest of the name. -/
  | stuck
  /-- A relationship to an entity that is not registered. -/
  | missing (entity : String)

/-- The descent with a hop in front. -/
def Descent.after (hop : Hop) : Descent → Descent
  | column hops entity name type => column (hop :: hops) entity name type
  | stuck => stuck
  | missing entity => missing entity

/-- Follows a name from an entity. -/
def descend (c : Catalog) (entity : String) (name : List Char) : Descent :=
  match c.entity? entity with
  | none => .missing entity
  | some e =>
    match e.columnType? (String.ofList name) with
    | some type => .column [] e.name (String.ofList name) type
    | none =>
      match h : step? e name with
      | some s =>
        have : s.rest.length < name.length := length_step? h
        (descend c s.target s.rest).after ⟨s.relationship, e.name, s.target⟩
      | none => .stuck
termination_by name.length

/-- The column that a name stands for. -/
def resolve (c : Catalog) (root name : String) : Except SearchError AttributePath :=
  match descend c root name.toList with
  | .column hops entity column type => .ok ⟨name, root, hops, entity, column, type⟩
  | .stuck => .error (.unresolvedAttribute root name)
  | .missing entity => .error (.unknownEntity entity)

/-- Whether a name stands for a column. -/
def isResolvable (c : Catalog) (root name : String) : Bool := (resolve c root name).isOk

/-- The columns of several names, up to the first that has none. -/
def resolveAll (c : Catalog) (root : String) (names : List String) : Except SearchError (List AttributePath) :=
  collect (resolve c root) names

end AttributePath

end Criteria
