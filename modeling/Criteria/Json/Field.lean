import Criteria.Json.Document

/-!
# Typed fields of a document

How a document is read as data of a known shape.

* `Document.record?` — a record is an object that names its fields, or the list of its first fields.
* `Document.required?`, `Document.optional?` — a field that has to be there, and one with a default.
* `Document.mapping?` — an object with entries of one kind; a repeated name keeps the last entry, but every entry is read.
* `Document.choice?` — one of a few names, alone or as the only name of an object that holds null.
-/

namespace Criteria.Document

variable {α β : Type}

/-- The members of an object, if each name is a text. -/
def named? (members : List (Option String × Document)) : Option (List (String × Document)) :=
  members.mapM fun member => member.1.map fun name => (name, member.2)

/-- The known fields that are given, by name. As an object a record may hold other members, but no known one twice; as a
list it holds between `least` and all of its fields in their order. -/
def record? (names : List String) (least : Nat) : Document → Option (Keyed Document)
  | .array items => if least ≤ items.length ∧ items.length ≤ names.length then some (names.zip items) else none
  | .object members =>
    match named? members with
    | some fields =>
      let known := fields.filter fun field => names.contains field.1
      if known.map Prod.fst |>.Pairwise (· ≠ ·) then some known else none
    | none => none
  | _ => none

/-- A field that has to be there. -/
def required? (read? : Document → Option α) (name : String) (fields : Keyed Document) : Option α :=
  (fields.get? name).bind read?

/-- A field that may be missing. -/
def optional? (read? : Document → Option α) (name : String) (default : α) (fields : Keyed Document) : Option α :=
  match fields.get? name with
  | some value => read? value
  | none => some default

/-- The entries of an object. -/
def mapping? (read? : Document → Option α) : Document → Option (Keyed α)
  | .object members =>
    match named? members with
    | some fields => (fields.mapM fun field => (read? field.2).map fun value => (field.1, value)).map Keyed.ofList
    | none => none
  | _ => none

/-- A text. -/
def text? : Document → Option String
  | .string text => text
  | _ => none

/-- A truth value. -/
def truth? : Document → Option Bool
  | .bool b => some b
  | _ => none

/-- Null for nothing. -/
def nullable? (read? : Document → Option α) : Document → Option (Option α)
  | .null => some none
  | value => (read? value).map some

/-- One of several names. -/
def choice? (choices : Keyed α) : Document → Option α
  | .string (some name) => choices.get? name
  | .object [(some name, .null)] => choices.get? name
  | _ => none

end Criteria.Document
