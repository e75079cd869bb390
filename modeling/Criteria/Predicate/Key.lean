import Criteria.Combinator
import Criteria.Predicate

/-!
# Condition keys

A key such as `children_name_or_name_not_eq_any` names attributes, a predicate, and how several of them are joined.

* `splitPredicate?` — the predicate whose name is the longest to end the key, what stands before it, and the ending `_any`
  or `_all` that joins several values.
* `ConditionKey.parse?` — the attributes between the occurrences of `_or_`, or of `_and_` where there is no `_or_`.
-/

namespace Criteria

/-- What a condition key says. -/
structure ConditionKey where
  /-- The names of the attributes; none is empty. -/
  attributes : List String
  predicate : Predicate
  combinator : Combinator
  /-- Whether the key asks for any or all of several values. -/
  several : Bool
  deriving DecidableEq

namespace ConditionKey

/-- The non-empty text before an underscore and the name of a predicate. -/
def stem? (key : String) (p : Predicate) : Option String :=
  match Text.beforeEnd? ("_" ++ p.name) key with
  | some stem => if stem = "" then none else some stem
  | none => none

/-- The predicates that end a key, with what stands before each. -/
def endings (key : String) : List (String × Predicate) :=
  Predicate.all.filterMap fun p => (stem? key p).map fun stem => (stem, p)

/-- The one of two endings with the longer name, the second if they are alike. -/
def longer (best : Option (String × Predicate)) (next : String × Predicate) : Option (String × Predicate) :=
  match best with
  | none => some next
  | some old => if next.2.name.length < old.2.name.length then some old else some next

/-- The ending with the longest name. -/
def longestEnding? (key : String) : Option (String × Predicate) := (endings key).foldl longer none

/-- The ending of a key after a suffix for several values, if its predicate takes several. -/
def suffixed? (suffix key : String) : Option (String × Predicate) :=
  match Text.beforeEnd? suffix key with
  | some rest =>
    match longestEnding? rest with
    | some (stem, p) => if p.takesSeveral then some (stem, p) else none
    | none => none
  | none => none

/-- The stem of a key, its predicate, and the combinator of a suffix for several values. -/
def splitPredicate? (key : String) : Option (String × Predicate × Option Combinator) :=
  match suffixed? "_any" key with
  | some (stem, p) => some (stem, p, some .or)
  | none =>
    match suffixed? "_all" key with
    | some (stem, p) => some (stem, p, some .and)
    | none => (longestEnding? key).map fun (stem, p) => (stem, p, none)

/-- The attributes of a stem, and the combinator between them. -/
def splitAttributes (stem : String) : List String × Combinator :=
  if Text.contains "_or_" stem then (Text.splitOn "_or_" stem, .or)
  else if Text.contains "_and_" stem then (Text.splitOn "_and_" stem, .and)
  else ([stem], .and)

/-- Reads a key; there is none without a predicate at the end or with an empty attribute. A suffix for several values has
the last word on the combinator. -/
def parse? (key : String) : Option ConditionKey :=
  match splitPredicate? key with
  | some (stem, p, suffix) =>
    let (attributes, combinator) := splitAttributes stem
    if attributes.contains "" then none
    else some ⟨attributes, p, suffix.getD combinator, suffix.isSome⟩
  | none => none

theorem takesSeveral_of_suffixed? {suffix key : String} {ending : String × Predicate}
    (h : suffixed? suffix key = some ending) : ending.2.takesSeveral = true := by
  unfold suffixed? at h
  repeat' split at h
  all_goals cases h
  assumption

/-- A suffix for several values stands behind predicates only that take them one by one. -/
theorem takesSeveral_of_splitPredicate? {key stem : String} {p : Predicate} {m : Combinator}
    (h : splitPredicate? key = some (stem, p, some m)) : p.takesSeveral = true := by
  unfold splitPredicate? at h
  split at h
  · rename_i hany
    cases h
    exact takesSeveral_of_suffixed? hany
  · split at h
    · rename_i hall
      cases h
      exact takesSeveral_of_suffixed? hall
    · obtain ⟨ending, -, hending⟩ := Option.map_eq_some_iff.1 h
      cases hending

theorem splitAttributes_ne_nil (stem : String) : (splitAttributes stem).1 ≠ [] := by
  unfold splitAttributes
  split
  · exact Text.splitOn_ne_nil _ _
  · split
    · exact Text.splitOn_ne_nil _ _
    · simp

/-- What a key says comes from its stem and its ending. -/
theorem parse?_eq_some {key : String} {k : ConditionKey} (h : parse? key = some k) :
    ∃ stem suffix, splitPredicate? key = some (stem, k.predicate, suffix) ∧
      k.attributes = (splitAttributes stem).1 ∧ "" ∉ k.attributes ∧
      k.combinator = suffix.getD (splitAttributes stem).2 ∧ k.several = suffix.isSome := by
  unfold parse? at h
  split at h
  · rename_i stem p suffix hsplit
    dsimp only at h
    split at h
    · cases h
    · rename_i hempty
      cases h
      exact ⟨stem, suffix, hsplit, rfl, by simpa using hempty, rfl, rfl⟩
  · cases h

theorem attributes_ne_nil {key : String} {k : ConditionKey} (h : parse? key = some k) : k.attributes ≠ [] := by
  obtain ⟨stem, suffix, -, hattributes, -⟩ := parse?_eq_some h
  rw [hattributes]
  exact splitAttributes_ne_nil stem

theorem takesSeveral_of_several {key : String} {k : ConditionKey} (h : parse? key = some k) (hs : k.several = true) :
    k.predicate.takesSeveral = true := by
  obtain ⟨stem, suffix, hsplit, -, -, -, hseveral⟩ := parse?_eq_some h
  rw [hs] at hseveral
  obtain ⟨m, rfl⟩ := Option.isSome_iff_exists.1 hseveral.symm
  exact takesSeveral_of_splitPredicate? hsplit

end ConditionKey

end Criteria
