import Criteria.Text.Blank
import Criteria.Text.Cut

/-!
# Combinators

Several attributes or values of one condition, and the members of a group, are joined by "and" or by "or".

* `Combinator.name`, `Combinator.ofText` — how a combinator is written and read.
* `Combinator.combine` — what it makes of truth values.
-/

namespace Criteria

/-- How several tests are joined into one. -/
inductive Combinator where
  | and
  | or
  deriving DecidableEq

namespace Combinator

/-- The name of a combinator. -/
def name : Combinator → String
  | and => "and"
  | or => "or"

/-- Reads "or" in any case between any spaces; everything else means "and". -/
def ofText (s : String) : Combinator :=
  if Text.sameLetters (Text.trim s) "or" then or else and

/-- Truth values joined into one; none at all count as true. -/
def combine (m : Combinator) (values : List Bool) : Bool :=
  match values, m with
  | [], _ => true
  | values, .and => values.all id
  | values, .or => values.any id

theorem combine_singleton (m : Combinator) (value : Bool) : m.combine [value] = value := by
  cases m <;> simp [combine]

theorem combine_and (values : List Bool) : combine .and values = values.all id := by
  cases values <;> rfl

theorem combine_or_cons (value : Bool) (values : List Bool) :
    combine .or (value :: values) = (value || values.any id) := rfl

theorem combine_eq_false (m : Combinator) {values : List Bool} (hne : values ≠ [])
    (h : ∀ value ∈ values, value = false) : m.combine values = false := by
  cases values with
  | nil => exact absurd rfl hne
  | cons value rest =>
    obtain rfl := h value List.mem_cons_self
    cases m with
    | and => rfl
    | or => simpa [combine] using fun value hvalue => h value (List.mem_cons_of_mem _ hvalue)

end Combinator

end Criteria
