import Inventory.Agent.OnDemand
import Inventory.Agent.Profile

/-!
# Inventory.Agent.Registry

The agents that take part.

Caching agents are known by number, so that an agent can be deregistered and another one of the same
name be registered while the first is still at work. Two of them may have authority for the same
type only if their scopes do not overlap.
-/

namespace Inventory

/-- The agents that take part. -/
structure Registry where
  /-- The numbers of the caching agents by their names. -/
  caching : StringMap Nat := ∅
  onDemand : StringMap OnDemandAgent := ∅
  /-- The relationships that hold the health of entities. -/
  health : StringSet := ∅

namespace Registry

/-! ## Caching agents -/

/-- The first registered agent that is a second authority for a type. -/
def rival? (r : Registry) (profileOf : Nat → Profile) (p : Profile) (type : String) :
    Option Profile :=
  (r.caching.values.map profileOf).find? fun other => p.rivals other type

/-- Why an agent may not take part, by the first of its types that is claimed. -/
def conflict? (r : Registry) (profileOf : Nat → Profile) (p : Profile) : Option Error :=
  p.authoritativeTypes.findSome? fun type =>
    (r.rival? profileOf p type).map fun other => .authorityConflict type other.agent p.agent

/-- Registers the caching agent of a number, if it may take part. -/
def register (r : Registry) (profileOf : Nat → Profile) (number : Nat) : Except Error Unit × Registry :=
  let p := profileOf number
  if p.agent ∈ r.caching then (.error (.misconfigured (.duplicateAgent p.agent)), r)
  else match r.conflict? profileOf p with
    | some e => (.error e, r)
    | none => (.ok (), { r with caching := r.caching.insert p.agent number })

/-- Removes a caching agent. -/
def deregister (r : Registry) (agent : String) : Registry :=
  { r with caching := r.caching.erase agent }

/-- The caching agents of an account, with their numbers. -/
def ofAccount (r : Registry) (profileOf : Nat → Profile) (provider account : String) :
    List (String × Nat) :=
  r.caching.toList.filter fun (_, number) =>
    (profileOf number).provider == provider && (profileOf number).account == account

/-- Removes the caching agents of an account. -/
def deregisterAccount (r : Registry) (profileOf : Nat → Profile) (provider account : String) :
    Registry :=
  { r with caching := r.caching.eraseMany ((r.ofAccount profileOf provider account).map Prod.fst) }

/-! ## Other agents -/

/-- Registers an on-demand agent. -/
def registerOnDemand (r : Registry) (a : OnDemandAgent) : Except Error Registry :=
  if a.name ∈ r.onDemand then .error (.misconfigured (.duplicateOnDemandAgent a.name))
  else .ok { r with onDemand := r.onDemand.insert a.name a }

/-- Removes an on-demand agent. -/
def deregisterOnDemand (r : Registry) (agent : String) : Registry :=
  { r with onDemand := r.onDemand.erase agent }

/-- The on-demand agents that can refresh entities of a type for a provider. -/
def onDemandFor (r : Registry) (type provider : String) : List OnDemandAgent :=
  r.onDemand.values.filter fun a => a.handles type provider

/-- Registers a provider of health. -/
def registerHealth (r : Registry) (id : String) : Registry :=
  { r with health := r.health.insert id }

/-- Removes a provider of health. -/
def deregisterHealth (r : Registry) (id : String) : Registry :=
  { r with health := r.health.erase id }

end Registry

end Inventory
