import Inventory.Agent.Profile
import Inventory.Error
import Inventory.Staging

/-!
# Inventory.Agent.Caching

Caching agents, which report all that is in their scope whenever they run.

There are two kinds. A *snapshot* agent reports a list of resources of one type. A *scripted* agent
reports what it was given. Both take their time before they report, and read what they report at the
end of that time.

An agent asks nothing of the cache while it loads. What another agent asks for itself meanwhile is work on the
cache that is not of its execution.
-/

namespace Inventory

/-- An agent that reports resources of one type, in which it has authority. -/
structure Snapshot where
  type : String
  /-- The names of the resources. -/
  names : List String := []
  /-- The type and the id of each entity to which every resource is related. -/
  related : List (String × String) := []
  /-- The related types to whose entities the agent also writes references back. -/
  informs : List String := []
  fails : Bool := false

/-- An agent that reports what it was given. -/
structure Script where
  authoritative : List String := []
  informative : List String := []
  /-- The scope, unless it is that of the account. -/
  scope : Option Scope := none
  /-- Why loading fails, if it does. -/
  failure : Option String := none
  report : Report := .empty

/-- What an agent does when it runs. -/
inductive Conduct where
  | snapshot (s : Snapshot)
  | scripted (s : Script)

/-- A caching agent. -/
structure CachingAgent where
  name : String
  provider : String
  account : String
  region : Option String := none
  interval : Option Duration := none
  /-- How long the agent takes to load its data; none is not even a moment. -/
  delay : Option Duration := none
  /-- How often the agent was asked to load its data. -/
  calls : Nat := 0
  conduct : Conduct

instance : Inhabited CachingAgent :=
  ⟨{ name := "", provider := "", account := "", conduct := .scripted {} }⟩

namespace CachingAgent

/-- The types that an agent declares. -/
def types (a : CachingAgent) : List DataType :=
  match a.conduct with
  | .snapshot s => ⟨s.type, true⟩ :: s.informs.map (⟨·, false⟩)
  | .scripted s => s.authoritative.map (⟨·, true⟩) ++ s.informative.map (⟨·, false⟩)

/-- The scope that an agent declares. -/
def scope (a : CachingAgent) : Scope :=
  match a.conduct with
  | .scripted { scope := some scope, .. } => scope
  | _ => .account a.provider a.account a.region

/-- What an agent declares. -/
def profile (a : CachingAgent) : Profile :=
  { agent := a.name, provider := a.provider, account := a.account, region := a.region,
    scope := a.scope, types := a.types, interval := a.interval }

/-! ## Reports -/

/-- The key of a resource of a snapshot agent. -/
def keyOf (a : CachingAgent) (s : Snapshot) (name : String) : String :=
  Key.resource a.provider s.type a.account (a.region.getD "global") name

/-- The keys of all resources of a snapshot agent. -/
def keys (a : CachingAgent) : StringSet :=
  match a.conduct with
  | .snapshot s => .ofList (s.names.map (a.keyOf s))
  | .scripted _ => ∅

/-- The draft of a resource. -/
def describe (a : CachingAgent) (s : Snapshot) (name : String) (d : Draft) : Draft :=
  s.related.foldl (fun d (type, target) => d.addRelationships type [target])
    ((d.setAttribute "name" (.string name)).setAttribute "account" (.string a.account))

/-- Stages one resource and the references back to it. -/
def stage (a : CachingAgent) (s : Snapshot) (area : Staging) (name : String) : Staging :=
  let key := a.keyOf s name
  let informed := s.related.filter fun (type, _) => s.informs.contains type
  informed.foldl
    (fun area (type, target) => area.modify type (·.keep target (·.addRelationships s.type [key])))
    (area.modify s.type (·.keep key (a.describe s name)))

/-- What an agent reports at the end of its time; requests of its own are no part of it. -/
def report (a : CachingAgent) : Except Error Report :=
  match a.conduct with
  | .snapshot s =>
    if s.fails then .error (.agentFailed a.name "injected API failure")
    else .ok (s.names.foldl (a.stage s) {}).report
  | .scripted s =>
    match s.failure with
    | some reason => .error (.agentFailed a.name reason)
    | none => .ok s.report

/-! ## Changes -/

/-- Changes what a snapshot agent reports. -/
def modifySnapshot (a : CachingAgent) (change : Snapshot → Snapshot) : CachingAgent :=
  match a.conduct with
  | .snapshot s => { a with conduct := .snapshot (change s) }
  | .scripted _ => a

end CachingAgent

end Inventory
