import Inventory.Cache.Request
import Inventory.Merge.Stats
import Inventory.Scope
import Inventory.Staging

/-!
# Inventory.Merge.Engine

How the report of an agent becomes part of the cache.

A report is applied in three phases:

1. for each type for which the source has authority, the cached ids in its scope that the report
   does not name are found;
2. the entities are written: those of types with authority replace what is there, those of other
   types contribute relationships only;
3. those ids, and the ones that the report wants evicted, are deleted, after the references to them
   have been removed from the entities that they are related to, as far as that is possible.

All ids are checked before the first phase, so one that is malformed refuses the whole report.
-/

namespace Inventory

/-- The rules by which reports are merged. -/
structure Engine where
  /-- The parsers of ids. -/
  parsers : KeyParsers := .ofProviders []
  /-- Whether every id must be a key. -/
  validatesKeys : Bool := true

namespace Engine

variable (engine : Engine)

/-! ## Checking ids -/

/-- Checks one id of a type. -/
def checkId (type id : String) : Except Error Unit :=
  if id.isEmpty then .error (.malformedKey id (.emptyId type))
  else if engine.validatesKeys then (engine.parsers.parse id).map fun _ => ()
  else .ok ()

/-- All ids of a report with their types, those of entities first. -/
def namedIds (r : Report) : List (String × String) :=
  (r.entities.toList.flatMap fun (type, l) => l.map fun e => (type, e.id)) ++
    r.evictions.toList.flatMap fun (type, ids) => ids.map fun id => (type, id)

/-- Checks ids in order; the first that is refused ends the plan. -/
def checkAll (source : Source) : List (String × String) → CachePlan Unit
  | [] => .give ()
  | (type, id) :: rest =>
    match engine.checkId type id with
    | .ok () => checkAll source rest
    | .error e => .note (.rejected source.agent type id) (.fail e)

/-! ## What the report lacks -/

/-- The cached ids of a type in a scope. -/
def scopedIds (type : String) : Scope → CachePlan StringSet
  | .ids members => CachePlan.existing type members.toList
  | scope => do
    let all ← CachePlan.identifiers type
    return all.filter (scope.contains engine.parsers)

/-- The cached ids in the scope of the source that the report does not name, by type. -/
def staleIds (source : Source) (authoritative : StringSet) (r : Report) :
    CachePlan (StringMap StringSet) :=
  Plan.forEach authoritative.toList ∅ fun stale type => do
    let cached ← scopedIds engine type source.scope
    return stale.insert type (cached.filter fun id => !(r.ids type).contains id)

/-- The ids of a type that the report wants evicted and does not write. -/
def explicitIds (r : Report) (type : String) : List String :=
  (r.evictionsOf type).filter fun id => !(r.ids type).contains id

/-- All ids to be evicted by type. -/
def evictions (stale : StringMap StringSet) (r : Report) : StringMap StringSet :=
  r.evictions.keys.foldl (fun evictions type =>
    evictions.insert type ((StringMap.find evictions type).insertMany (explicitIds r type))) stale

/-! ## Writing -/

/-- Writes entities of one type, with or without authority. -/
def writeType (authoritative : StringSet) (type : String) (entities : List Entity) :
    CachePlan Unit :=
  if type ∈ authoritative then CachePlan.write .replace type entities
  else if type = onDemandType then CachePlan.write .union type entities
  else CachePlan.write .union type (entities.map Entity.withoutAttributes)

/-- Writes the entities of a report, type by type. -/
def writeAll (authoritative : StringSet) (r : Report) : CachePlan MergeStats :=
  Plan.forEach r.entities.toList {} fun stats (type, entities) =>
    if entities.isEmpty then .give stats
    else do
      writeType authoritative type entities
      return stats.wrote type entities.length

/-! ## Removing references -/

/-- The ids to which each of some entities is related, by related type and id of the entity. -/
def references (entities : List Entity) : StringMap (StringMap StringSet) :=
  entities.foldl (fun found e =>
    e.relationships.foldl (fun found related ids =>
      found.insert related ((StringMap.find found related).insert e.id ids)) found) ∅

/-- The related ids of each entity in a type, of those entities that have a set of them. -/
def backReferences (type : String) (holders : List Entity) : StringMap StringSet :=
  .ofList (holders.filterMap fun e => (e.related? type).map fun ids => (e.id, ids))

/-- Those of the given ids whose entities refer to `id`. -/
def referring (back : StringMap StringSet) (id : String) (targets : StringSet) : List String :=
  targets.toList.filter fun target => (StringMap.find back target).contains id

/-- Removes the references to one evicted entity from those of a related type. -/
def unlinkOne (type related : String) (back : StringMap StringSet) (stats : MergeStats)
    (id : String) (targets : StringSet) : CachePlan MergeStats :=
  let holders := referring back id targets
  if holders.isEmpty then .give stats
  else do
    match ← (CachePlan.unlink related holders type [id]).attempt with
    | .ok () => return stats.hasUnlinked holders.length
    | .error _ => return stats.hasFailed

/-- Removes the references to evicted entities of `type` that those of a related type hold. Only
entities that are there and point back are changed. -/
def unlinkType (type : String) (stats : MergeStats) (related : String)
    (byId : StringMap StringSet) : CachePlan MergeStats := do
  let targets := byId.foldl (fun all _ ids => all ∪ ids) (∅ : StringSet)
  let filter : RelationshipFilter := { allowed := [type] }
  match ← (CachePlan.entities related (some targets.toList) (some filter)).attempt with
  | .error _ => return stats.hasFailed
  | .ok holders =>
    let back := backReferences type holders
    Plan.forEach byId.toList stats fun stats (id, targets) =>
      unlinkOne type related back stats id targets

/-- Removes the references to entities that are about to be evicted. -/
def cascade (type : String) (ids : List String) (stats : MergeStats) : CachePlan MergeStats := do
  let evicted ← CachePlan.entities type (some ids) none
  Plan.forEach (references evicted).toList stats fun stats (related, byId) =>
    unlinkType type stats related byId

/-! ## Evicting -/

/-- Evicts ids of one type. -/
def evictType (stats : MergeStats) (type : String) (ids : StringSet) : CachePlan MergeStats :=
  if ids.isEmpty then .give stats
  else do
    let stats ← match ← (cascade type ids.toList stats).attempt with
      | .ok stats => Plan.give stats
      | .error _ => Plan.give stats.hasFailed
    CachePlan.evict type ids.toList
    return stats.hasEvicted type ids.size

/-- Evicts ids, type by type. -/
def evictAll (evictions : StringMap StringSet) (stats : MergeStats) : CachePlan MergeStats :=
  Plan.forEach evictions.toList stats fun stats (type, ids) => evictType stats type ids

/-! ## Merging -/

/-- Applies a report, given the ids that are to be evicted besides those that it names. -/
def apply (authoritative : StringSet) (r : Report) (stale : StringMap StringSet) :
    CachePlan MergeStats := do
  let stats ← writeAll authoritative r
  evictAll (evictions stale r) stats

/-- Merges a report that describes the whole scope of its source. -/
def mergeSnapshot (source : Source) (authoritative : StringSet) (r : Report) :
    CachePlan MergeStats := do
  checkAll engine source (namedIds r)
  let stale ← staleIds engine source authoritative r
  apply authoritative r stale

/-- Merges a report that describes a part of the scope of its source. -/
def mergePartial (source : Source) (authoritative : StringSet) (r : Report) :
    CachePlan MergeStats := do
  checkAll engine source (namedIds r)
  apply authoritative r ∅

/-- Writes one entity, with its attributes, whoever has authority over its type. -/
def writeEntity (type : String) (e : Entity) : CachePlan Unit := do
  Plan.ofExcept (engine.checkId type e.id)
  CachePlan.write .union type [e]

/-- Evicts ids that are known to be gone. -/
def evictDeleted (type : String) (ids : List String) : CachePlan MergeStats := do
  Plan.forEach ids () fun _ id => Plan.ofExcept (engine.checkId type id)
  evictType {} type (.ofList ids)

end Engine

end Inventory
