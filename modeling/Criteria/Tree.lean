import Criteria.Condition

/-!
# Search trees

* `Node` — a condition, or a group of nodes joined by a combinator; `Junction` — the members of a group in order.
* `Junction.condition?` reads the first direct condition of a key, `upsert` replaces it or adds one at the end, and
  `remove` takes it out.
-/

namespace Criteria

/-- A part of a search. -/
inductive Node where
  | condition (c : Condition)
  | group (combinator : Combinator) (members : List Node)

/-- The members of a group in order. -/
abbrev Junction := List Node

namespace Junction

/-- The direct conditions, in order. -/
def conditions : Junction → List Condition
  | [] => []
  | .condition c :: rest => c :: conditions rest
  | .group _ _ :: rest => conditions rest

/-- The first direct condition of a key. -/
def condition? (key : String) (j : Junction) : Option Condition := (conditions j).find? fun c => c.key == key

/-- The value of the first direct condition of a key. -/
def get? (key : String) (j : Junction) : Option Value := (condition? key j).map Condition.value

/-- Replaces the first direct condition of the same key, or adds the condition at the end. -/
def upsert (c : Condition) : Junction → Junction
  | [] => [.condition c]
  | .condition old :: rest => if old.key = c.key then .condition c :: rest else .condition old :: upsert c rest
  | .group m members :: rest => .group m members :: upsert c rest

/-- Takes out the first direct condition of a key. -/
def remove (key : String) : Junction → Junction
  | [] => []
  | .condition old :: rest => if old.key = key then rest else .condition old :: remove key rest
  | .group m members :: rest => .group m members :: remove key rest

@[simp] theorem condition?_nil (key : String) : condition? key [] = none := rfl

@[simp] theorem condition?_group (key : String) (m : Combinator) (members : List Node) (j : Junction) :
    condition? key (.group m members :: j) = condition? key j := rfl

theorem condition?_cons (key : String) (c : Condition) (j : Junction) :
    condition? key (.condition c :: j) = if c.key = key then some c else condition? key j := by
  by_cases h : c.key = key <;> simp [condition?, conditions, h]

theorem condition?_upsert (key : String) (c : Condition) (j : Junction) :
    condition? key (upsert c j) = if c.key = key then some c else condition? key j := by
  induction j with
  | nil => simp [upsert, condition?_cons]
  | cons node rest ih =>
    cases node with
    | group m members => simpa [upsert] using ih
    | condition old =>
      by_cases h : old.key = c.key
      · simp only [upsert, h, if_true, condition?_cons]
        split <;> rfl
      · simp only [upsert, h, if_false, condition?_cons, ih]
        by_cases hk : old.key = key
        · simp [hk, show c.key ≠ key from fun hc => h (hk.trans hc.symm)]
        · simp [hk]

end Junction

end Criteria
