import Inventory.Duration
import Inventory.Error
import Inventory.Scope
import Inventory.Staging

/-!
# Inventory.Agent.OnDemand

On-demand agents, which refresh a single entity when they are asked to.

There are two kinds. The one refreshes a resource that the request describes, or evicts it if the
request says that it is deleted. The other does what it was given.
-/

namespace Inventory

/-- What came of a request to an on-demand agent. -/
structure Refresh where
  /-- The agent that found it. -/
  agent : String
  /-- The types for which the agent has authority. -/
  authoritative : StringSet
  report : Report

/-- Who answers for it: the agent, for all ids of the report. -/
def Refresh.source (found : Refresh) : Source := ⟨found.agent, .ids found.report.touchedIds⟩

/-- What an on-demand agent does when it is asked. -/
inductive OnDemandConduct where
  /-- Refreshes one resource of a type. -/
  | singleResource (type : String)
  /-- Does what it was given for some types; without a report the request does not concern it. -/
  | scripted (types authoritative : List String) (failure : Option String) (report : Option Report)

/-- An on-demand agent. -/
structure OnDemandAgent where
  name : String
  provider : String
  /-- How long the agent takes. -/
  delay : Option Duration := none
  conduct : OnDemandConduct

namespace OnDemandAgent

/-- Whether an agent can refresh entities of a type for a provider. -/
def handles (a : OnDemandAgent) (type provider : String) : Bool :=
  provider == a.provider &&
    match a.conduct with
    | .singleResource own => type == own
    | .scripted types .. => types.contains type

/-- A text among the attributes of a request. -/
def text? (request : Attributes) (name : String) : Option String :=
  (Attributes.get? request name).bind Json.string?

/-- The resource that a request describes, as the report of an agent. -/
def resourceReport? (a : OnDemandAgent) (type : String) (request : Attributes) : Option Report := do
  let account ← text? request "account"
  let region ← text? request "region"
  let name ← text? request "name"
  let key := Key.resource a.provider type account region name
  let isDeleted := ((Attributes.get? request "deleted").bind Json.bool?).getD false
  let change := fun (n : Namespace) =>
    if isDeleted then n.evict key else n.keep key (·.setAttributes request)
  return (({} : Staging).modify type change).report

/-- What an agent finds; none if the request does not concern it. -/
def handle (a : OnDemandAgent) (request : Attributes) : Except Error (Option Refresh) :=
  match a.conduct with
  | .singleResource type =>
    .ok ((a.resourceReport? type request).map fun report => ⟨a.name, .ofList [type], report⟩)
  | .scripted _ authoritative failure report =>
    match failure with
    | some reason => .error (.agentFailed a.name reason)
    | none => .ok (report.map fun report => ⟨a.name, .ofList authoritative, report⟩)

end OnDemandAgent

end Inventory
