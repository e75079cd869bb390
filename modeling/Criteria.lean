import Criteria.Main
import Criteria.Proofs.Attributes.Types
import Criteria.Proofs.Command.Printed
import Criteria.Proofs.Conditions.Integers
import Criteria.Proofs.Conditions.Spelled
import Criteria.Proofs.Joins.Aliases
import Criteria.Proofs.Joins.Intact
import Criteria.Proofs.Joins.Names
import Criteria.Proofs.Joins.Stages
import Criteria.Proofs.Keys.Writing
import Criteria.Proofs.Number.Literals
import Criteria.Proofs.Params.Blanked
import Criteria.Proofs.Params.Conditions
import Criteria.Proofs.Params.Failures
import Criteria.Proofs.Params.Groups
import Criteria.Proofs.Params.Positions
import Criteria.Proofs.Params.Wrapped
import Criteria.Proofs.Searches.Accessors
import Criteria.Proofs.Searches.Bindings
import Criteria.Proofs.Searches.Emitted
import Criteria.Proofs.Searches.Lists
import Criteria.Proofs.Searches.Meaning
import Criteria.Proofs.Searches.Populated
import Criteria.Proofs.Searches.Removals
import Criteria.Proofs.Searches.Resaved
import Criteria.Proofs.Searches.Setting
import Criteria.Proofs.Searches.Steps
import Criteria.Proofs.Searches.Targets
import Criteria.Proofs.Searches.Vacuity
import Criteria.Proofs.Searches.Values
import Criteria.Proofs.Sql.Contraries
import Criteria.Proofs.Sql.Patterns
import Criteria.Proofs.Sql.Placeholders
import Criteria.Proofs.Sql.ReadBack
import Criteria.Proofs.Sql.Templates
