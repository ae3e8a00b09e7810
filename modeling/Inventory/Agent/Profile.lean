import Inventory.Duration
import Inventory.Scope

/-!
# Inventory.Agent.Profile

What an agent declares about itself: who it is, which ids it answers for, and which types it writes.
-/

namespace Inventory

/-- A type that an agent writes. -/
structure DataType where
  name : String
  /-- Whether the agent is the only source of the type in its scope, so that what it does not
  report is gone. An agent without authority contributes relationships only. -/
  isAuthoritative : Bool
deriving DecidableEq, Repr

/-- What a caching agent declares. -/
structure Profile where
  agent : String
  provider : String
  account : String
  region : Option String := none
  scope : Scope
  types : List DataType
  /-- The time between two runs, if the agent has one of its own. -/
  interval : Option Duration := none

namespace Profile

/-- The types for which an agent has authority, in the order in which it declares them. -/
def authoritativeTypes (p : Profile) : List String :=
  (p.types.filter DataType.isAuthoritative).map DataType.name

/-- The agent as the writer of a report. -/
def source (p : Profile) : Source := ⟨p.agent, p.scope⟩

/-- Whether an agent is a second authority for a type besides `p`. -/
def rivals (p other : Profile) (type : String) : Bool :=
  other.authoritativeTypes.contains type && other.scope.overlaps p.scope

end Profile

end Inventory
