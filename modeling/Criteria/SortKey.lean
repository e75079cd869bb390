import Criteria.Error
import Criteria.Sql.Select

/-!
# Sort keys

* `SortKey` — an attribute name to order by, and a direction.
* `SortKey.ofText?` — a name and perhaps a direction, between spaces.
-/

namespace Criteria

/-- An attribute to order by. -/
structure SortKey where
  name : String
  direction : Direction
  deriving DecidableEq

namespace SortKey

/-- Reads the first word as a name and the second as a direction; a text without words is no sort key. -/
def ofText? (spec : String) : Option SortKey :=
  match Text.words spec with
  | [] => none
  | [name] => some ⟨name, .asc⟩
  | name :: direction :: _ => some ⟨name, .ofText direction⟩

end SortKey

end Criteria
