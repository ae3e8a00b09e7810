import Inventory.Plan
import Inventory.Report

/-!
# Inventory.Cache.Request

What can be asked of a cache of entities, and the shorthands built from it.
-/

namespace Inventory

/-- How written relationships combine with those that are there. -/
inductive WriteMode where
  /-- Related ids are added. -/
  | union
  /-- Each written type is replaced; other types are kept. -/
  | replace
deriving DecidableEq, Repr

/-- What is asked of a cache. -/
inductive CacheRequest where
  /-- The entities of the given ids that are there, or all, with the relationships the filter
  accepts. -/
  | entities (type : String) (ids : Option (List String)) (filter : Option NameFilter)
  /-- The ids of a type. -/
  | identifiers (type : String)
  /-- The ids of a type that match a glob. -/
  | matching (type glob : String)
  /-- Those of the given ids that are there. -/
  | existing (type : String) (ids : List String)
  /-- Writes entities. Attributes are replaced as a whole, except that empty ones leave what is
  there. -/
  | write (mode : WriteMode) (type : String) (entities : List Entity)
  /-- Deletes entities. -/
  | evict (type : String) (ids : List String)
  /-- Removes related ids from the entities of the given ids. -/
  | unlink (type : String) (ids : List String) (relationship : String) (targets : List String)

namespace CacheRequest

/-- What a cache answers to a request. -/
abbrev Reply : CacheRequest → Type
  | entities .. => List Entity
  | identifiers _ | matching .. | existing .. => StringSet
  | write .. | evict .. | unlink .. => Unit

/-- Whether a request leaves the cache as it is. -/
def isRead : CacheRequest → Bool
  | write .. | evict .. | unlink .. => false
  | _ => true

end CacheRequest

/-- Work on a cache. -/
abbrev CachePlan := Plan CacheRequest CacheRequest.Reply

namespace CachePlan

/-! ## Single requests -/

/-- The entities of the given ids that are there, or all. -/
def entities (type : String) (ids : Option (List String)) (filter : Option NameFilter) :
    CachePlan (List Entity) :=
  .perform (CacheRequest.entities type ids filter)

/-- The ids of a type. -/
def identifiers (type : String) : CachePlan StringSet := .perform (CacheRequest.identifiers type)

/-- The ids of a type that match a glob. -/
def matching (type glob : String) : CachePlan StringSet :=
  .perform (CacheRequest.matching type glob)

/-- Those of the given ids that are there. -/
def existing (type : String) (ids : List String) : CachePlan StringSet :=
  .perform (CacheRequest.existing type ids)

/-- Writes entities. -/
def write (mode : WriteMode) (type : String) (entities : List Entity) : CachePlan Unit :=
  .perform (CacheRequest.write mode type entities)

/-- Deletes entities. -/
def evict (type : String) (ids : List String) : CachePlan Unit :=
  .perform (CacheRequest.evict type ids)

/-- Removes related ids from the entities of the given ids. -/
def unlink (type : String) (ids : List String) (relationship : String) (targets : List String) :
    CachePlan Unit :=
  .perform (CacheRequest.unlink type ids relationship targets)

/-! ## Shorthands -/

/-- The entity of an id, if it is there. -/
def entity? (type id : String) (filter : Option NameFilter) :
    CachePlan (Option Entity) := do
  let found ← entities type (some [id]) filter
  return found.head?

/-- Whether there is an entity of an id; the empty id is never asked for. -/
def holds (type id : String) : CachePlan Bool :=
  if id.isEmpty then .give false
  else do
    let found ← existing type [id]
    return !found.isEmpty

/-- Deletes entities of several types, in the order of the types. -/
def evictTypes (evictions : StringMap (List String)) : CachePlan Unit :=
  Plan.forEach evictions.toList () fun _ (type, ids) => evict type ids

end CachePlan

end Inventory
