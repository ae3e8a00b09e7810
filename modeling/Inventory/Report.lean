import Inventory.Entity

/-!
# Inventory.Report

What an agent reports: entities by type, and ids to be evicted by type.
-/

namespace Inventory

/-- The entities that an agent found, and the ids that it wants evicted. -/
structure Report where
  /-- The entities by type. -/
  entities : StringMap (List Entity) := ∅
  /-- The ids to be evicted by type. -/
  evictions : StringMap (List String) := ∅

namespace Report

/-- The report that says nothing. -/
def empty : Report := {}

/-- The entities of a type. -/
def entitiesOf (r : Report) (type : String) : List Entity := StringMap.find r.entities type

/-- The ids of the entities of a type. -/
def ids (r : Report) (type : String) : StringSet := .ofList ((r.entitiesOf type).map Entity.id)

/-- The ids to be evicted from a type. -/
def evictionsOf (r : Report) (type : String) : List String := StringMap.find r.evictions type

/-- All ids of the report, whatever their type and whether written or evicted. -/
def touchedIds (r : Report) : StringSet :=
  .ofList (r.entities.values.flatMap (·.map Entity.id) ++ r.evictions.values.flatten)

/-- Whether the report names no id. -/
def isEmpty (r : Report) : Bool :=
  r.entities.values.all List.isEmpty && r.evictions.values.all List.isEmpty

/-- The number of entities. -/
def entityCount (r : Report) : Nat :=
  r.entities.foldl (fun count _ entities => count + entities.length) 0

end Report

end Inventory
