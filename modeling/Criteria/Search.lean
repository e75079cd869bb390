import Criteria.Compile
import Criteria.Params.Contribution

/-!
# Searches

* `Search.build` — the search that parameters write.
* `Search.get`, `set`, `orGet`, `orSet` — single conditions by key, in the base or in an or-group.
* `Search.pushOrs`, `setOrs`, `setSorts` — whole lists.
* `Search.clausesWith`, `Search.select` — what the search compiles to.
-/

namespace Criteria

/-- A search: a base and or-groups, all of which have to hold, and sorts. -/
structure Search where
  root : String
  settings : Settings
  base : Junction
  ors : List Junction
  sorts : List SortKey

namespace Search

/-- What the conditions of a search are read against. -/
def reader (s : Search) (c : Catalog) : Reader := ⟨c, s.root, s.settings⟩

/-! ## Building -/

/-- A search with what an entry adds. -/
def add (s : Search) : Contribution → Search
  | .orGroups groups => { s with ors := s.ors ++ groups }
  | contribution => { s with base := s.base.add contribution }

/-- Adds the entries of parameters in order. -/
def addEntries (c : Catalog) (s : Search) : Keyed Json → Except SearchError Search
  | [] => .ok s
  | (key, value) :: rest =>
    if key = s.settings.sortKey then
      match readSorts value with
      | .error e => .error e
      | .ok sorts => addEntries c { s with sorts := sorts } rest
    else
      match (s.reader c).contribution key value with
      | .error e => .error e
      | .ok contribution => addEntries c (s.add contribution) rest

/-- The search that parameters write for a root entity. -/
def build (c : Catalog) (root : String) (settings : Settings) (params : Keyed Json) : Except SearchError Search :=
  match c.entity? root with
  | none => .error (.unknownEntity root)
  | some _ => addEntries c ⟨root, settings, [], [], []⟩ params

/-! ## Single conditions -/

/-- Whether a key names a condition of the root entity. -/
def isAccessor (c : Catalog) (s : Search) (key : String) : Bool :=
  match ConditionKey.parse? key with
  | none => false
  | some k => k.attributes.all fun name => AttributePath.isResolvable c s.root name

/-- The value of a condition of the base. -/
def get (c : Catalog) (s : Search) (key : String) : Except SearchError (Option Value) :=
  if s.isAccessor c key then .ok (s.base.get? key) else .error (.undefinedAccessor key)

/-- The value of a condition of an or-group; a group that is not there holds none. -/
def orGet (c : Catalog) (s : Search) (index : Nat) (key : String) : Except SearchError (Option Value) :=
  if s.isAccessor c key then .ok ((s.ors[index]?).bind (Junction.get? key)) else .error (.undefinedAccessor key)

/-- A junction with another value for a key; a blank value takes the condition out. -/
def putCondition (r : Reader) (j : Junction) (key : String) (value : Value) : Except SearchError Junction :=
  match r.named key value with
  | .error e => .error e
  | .ok (some condition) => .ok (j.upsert condition)
  | .ok none => .ok (j.remove key)

/-- A search after a change, and whether the change succeeded. -/
abbrev Change := Search × Except SearchError Unit

/-- Writes a condition of the base. -/
def set (c : Catalog) (s : Search) (key : String) (value : Value) : Change :=
  if s.isAccessor c key then
    match putCondition (s.reader c) s.base key value with
    | .error e => (s, .error e)
    | .ok base => ({ s with base := base }, .ok ())
  else (s, .error (.undefinedAccessor key))

/-- Writes a condition of an or-group. The position after the last group makes a new one, unless it would be empty. -/
def orSet (c : Catalog) (s : Search) (index : Nat) (key : String) (value : Value) : Change :=
  if s.isAccessor c key then
    match s.ors[index]? with
    | some group =>
      match putCondition (s.reader c) group key value with
      | .error e => (s, .error e)
      | .ok group => ({ s with ors := s.ors.set index group }, .ok ())
    | none =>
      if index = s.ors.length then
        match putCondition (s.reader c) [] key value with
        | .error e => (s, .error e)
        | .ok group => ({ s with ors := if group.isEmpty then s.ors else s.ors ++ [group] }, .ok ())
      else (s, .error (.invalidParams (.groupPosition index s.ors.length)))
  else (s, .error (.undefinedAccessor key))

/-! ## Lists -/

/-- Adds or-groups at the end. -/
def pushOrs (c : Catalog) (s : Search) (value : Json) : Change :=
  match (s.reader c).groups value with
  | .error e => (s, .error e)
  | .ok groups => ({ s with ors := s.ors ++ groups }, .ok ())

/-- The search without or-groups. -/
def clearOrs (s : Search) : Search := { s with ors := [] }

/-- The search with its or-groups in opposite order. -/
def reverseOrs (s : Search) : Search := { s with ors := s.ors.reverse }

/-- Drops the or-groups and adds others. -/
def setOrs (c : Catalog) (s : Search) (value : Json) : Change := s.clearOrs.pushOrs c value

/-- Replaces the sorts. -/
def setSorts (s : Search) (value : Json) : Change :=
  match readSorts value with
  | .error e => (s, .error e)
  | .ok sorts => ({ s with sorts := sorts }, .ok ())

/-! ## Compiling -/

/-- The options that the settings of a search ask for. -/
def options (s : Search) : Options := ⟨s.settings.distinct, s.settings.ignoreUnknown⟩

/-- The clauses of a search. -/
def clausesWith (c : Catalog) (s : Search) (options : Options) : Except SearchError (List Clause) :=
  match c.entity? s.root with
  | none => .error (.unknownEntity s.root)
  | some root => (evaluate c root s.base s.ors s.sorts options).2

/-- The query of a search. -/
def selectWith (c : Catalog) (s : Search) (options : Options) : Except SearchError Select :=
  match c.entity? s.root with
  | none => .error (.unknownEntity s.root)
  | some root =>
    match (evaluate c root s.base s.ors s.sorts options).2 with
    | .error e => .error e
    | .ok clauses => .ok ((Select.all root.table).addAll clauses)

/-- The query of a search with its own options. -/
def select (c : Catalog) (s : Search) : Except SearchError Select := s.selectWith c s.options

end Search

end Criteria
