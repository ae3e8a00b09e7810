import Inventory.Report

/-!
# Inventory.Staging

The staging area in which an agent assembles its report.

Rules:

* in a namespace an entity is kept, that is to be written, or refreshed, that is to be written as it
  was cached before; keeping wins over refreshing, and both win over evicting;
* each call of `keep` for an id continues the same draft;
* on-demand entries have an area of their own, in which the last call for an id counts. Unless it
  is empty it takes the place of the entries of the namespace `onDemand`.
-/

namespace Inventory

/-- The namespace of the entries that wait for the next scheduled run to confirm them. -/
def onDemandType : String := "onDemand"

/-! ## Drafts -/

/-- An entity that is being assembled. -/
structure Draft where
  attributes : Attributes := []
  relationships : Relationships := ∅
  ttl : Option UInt64 := none

namespace Draft

/-- Writes an attribute. -/
def setAttribute (d : Draft) (name : String) (value : Json) : Draft :=
  { d with attributes := Attributes.insert name value d.attributes }

/-- Removes an attribute. -/
def removeAttribute (d : Draft) (name : String) : Draft :=
  { d with attributes := Attributes.erase name d.attributes }

/-- Puts other attributes in the place of all attributes. -/
def setAttributes (d : Draft) (attributes : Attributes) : Draft := { d with attributes }

/-- Puts other relationships in the place of all relationships. -/
def setRelationships (d : Draft) (relationships : Relationships) : Draft := { d with relationships }

/-- Removes the relationships of a type. -/
def removeRelationship (d : Draft) (type : String) : Draft :=
  { d with relationships := d.relationships.erase type }

/-- Adds related ids of a type. -/
def addRelationships (d : Draft) (type : String) (ids : List String) : Draft :=
  { d with relationships := d.relationships.add type ids }

/-- Sets the time to live. -/
def setTtl (d : Draft) (seconds : UInt64) : Draft := { d with ttl := some seconds }

/-- The finished entity; a time to live of zero is none. -/
def entity (d : Draft) (id : String) : Entity :=
  ({ id, attributes := d.attributes, relationships := d.relationships } : Entity).withTtl d.ttl

end Draft

/-! ## Namespaces -/

/-- What is staged for one type. -/
structure Namespace where
  /-- The drafts by id. -/
  kept : StringMap Draft := ∅
  /-- The entities to be written as they were cached. -/
  refreshed : StringMap Entity := ∅
  /-- The ids to be evicted. -/
  evicted : StringSet := ∅

instance : EmptyCollection Namespace := ⟨{}⟩

namespace Namespace

/-- Continues the draft of an id, or starts it. -/
def keep (n : Namespace) (id : String) (change : Draft → Draft := fun d => d) : Namespace :=
  { n with
    kept := n.kept.insert id (change ((n.kept[id]?).getD {}))
    evicted := n.evicted.erase id }

/-- Retains an entity as it was cached. -/
def refresh (n : Namespace) (e : Entity) : Namespace :=
  { n with refreshed := n.refreshed.insert e.id e, evicted := n.evicted.erase e.id }

/-- Schedules an eviction, unless the id is kept or refreshed. -/
def evict (n : Namespace) (id : String) : Namespace :=
  if id ∈ n.kept ∨ id ∈ n.refreshed then n else { n with evicted := n.evicted.insert id }

/-- The finished entities by id: those kept, and those refreshed and not kept. -/
def entities (n : Namespace) : StringMap Entity :=
  n.refreshed ∪ n.kept.map fun id d => d.entity id

end Namespace

/-! ## On-demand entries -/

/-- What is staged for the on-demand entries. -/
structure OnDemandArea where
  /-- The entries by id. -/
  kept : StringMap Entity := ∅
  /-- The ids to be evicted. -/
  evicted : StringSet := ∅

namespace OnDemandArea

/-- Stages an entry. -/
def keep (a : OnDemandArea) (e : Entity) : OnDemandArea :=
  ⟨a.kept.insert e.id e, a.evicted.erase e.id⟩

/-- Stages an eviction. -/
def evict (a : OnDemandArea) (id : String) : OnDemandArea :=
  ⟨a.kept.erase id, a.evicted.insert id⟩

end OnDemandArea

/-! ## The staging area -/

/-- All that is staged. -/
structure Staging where
  /-- The namespaces used so far. -/
  namespaces : StringMap Namespace := ∅
  /-- The on-demand entries. -/
  onDemand : OnDemandArea := {}

namespace Staging

/-- What is staged for a type. -/
def namespaceOf (s : Staging) (type : String) : Namespace := StringMap.find s.namespaces type

/-- Changes what is staged for a type, which is among the types used from then on. -/
def modify (s : Staging) (type : String) (change : Namespace → Namespace) : Staging :=
  { s with namespaces := s.namespaces.insert type (change (s.namespaceOf type)) }

/-- The types used so far. -/
def types (s : Staging) : List String := s.namespaces.keys

/-- The report that is staged. -/
def report (s : Staging) : Report :=
  let entities := s.namespaces.map fun _ n => n.entities.values
  let evictions := s.namespaces.filterMap fun _ n =>
    if n.evicted.isEmpty then none else some n.evicted.toList
  { entities :=
      if s.onDemand.kept.isEmpty then entities
      else entities.insert onDemandType s.onDemand.kept.values
    evictions :=
      if s.onDemand.evicted.isEmpty then evictions
      else evictions.insert onDemandType s.onDemand.evicted.toList }

end Staging

end Inventory
