import Inventory.Collections

/-!
# Inventory.Relationships

Relationships of an entity: for each related type, the ids of the related entities.

Two writers combine differently. A union adds to the sets and ignores empty ones; a replacement
takes the written sets as they are, and an empty one removes the type.
-/

namespace Inventory

/-- The ids of related entities by their type. -/
abbrev Relationships := StringMap StringSet

namespace Relationships

/-- Adds the sets of `incoming` to those of `r`; empty sets add nothing. -/
def union (r incoming : Relationships) : Relationships :=
  incoming.foldl (fun r type ids =>
    if ids.isEmpty then r else r.insert type (StringMap.find r type ∪ ids)) r

/-- Puts the sets of `incoming` in the place of those of `r`; an empty set removes its type. -/
def replace (r incoming : Relationships) : Relationships :=
  incoming.foldl (fun r type ids => if ids.isEmpty then r.erase type else r.insert type ids) r

/-- Adds ids to the set of a type, which is there afterwards even if no id was given. -/
def add (r : Relationships) (type : String) (ids : List String) : Relationships :=
  r.insert type ((StringMap.find r type).insertMany ids)

/-- The types. -/
def types (r : Relationships) : List String := r.keys

end Relationships

/-! ## Filters -/

/-- A restriction of the types of relationships that a read looks for. Whatever it is, it brings no type
in that is not there. -/
structure NameFilter where
  /-- Those of some names that are wanted. -/
  keep : List String → List String
  keep_subset : ∀ names, keep names ⊆ names

namespace NameFilter

/-- Whether a name is wanted if no other is there. -/
def accepts (f : NameFilter) (name : String) : Bool := !(f.keep [name]).isEmpty

/-- Whether a filter decides on each name by itself. One that looks at all names at once, and keeps the
first three of them, say, does not. -/
def IsNamewise (f : NameFilter) : Prop :=
  ∀ names, ∀ name ∈ names, name ∈ f.keep names ↔ f.accepts name

/-- The filter of the names with a property. -/
def whose (p : String → Bool) : NameFilter where
  keep := List.filter p
  keep_subset _ := List.filter_sublist.subset

/-- Whether there are names of which a filter keeps a given one. -/
def MayKeep (f : NameFilter) (name : String) : Prop := ∃ names, name ∈ f.keep names

/-- Those of the given types that a read looks for; without a filter it is all. -/
def select (f : Option NameFilter) (types : List String) : List String :=
  match f with
  | .none => types
  | some f => f.keep types

end NameFilter

/-- The filter of the types that begin in one of some ways. -/
structure RelationshipFilter where
  /-- The prefixes one of which the type of a relationship must have. -/
  allowed : List String := []
deriving DecidableEq, Repr

namespace RelationshipFilter

/-- The filter that lets nothing through. -/
def none : RelationshipFilter := {}

/-- Whether relationships of a type are returned. -/
def accepts (f : RelationshipFilter) (type : String) : Bool :=
  f.allowed.any fun p => p.toList.isPrefixOf type.toList

/-- Those of the given types whose relationships a read returns; without a filter it is all. -/
def select (f : Option RelationshipFilter) (types : List String) : List String :=
  match f with
  | .none => types
  | some f => types.filter f.accepts

/-- The filter as one of names. -/
def toNameFilter (f : RelationshipFilter) : NameFilter := .whose f.accepts

instance : Coe RelationshipFilter NameFilter := ⟨toNameFilter⟩

instance : Coe (Option RelationshipFilter) (Option NameFilter) := ⟨Option.map toNameFilter⟩

end RelationshipFilter

/-- The filter that keeps no name. -/
def NameFilter.none : NameFilter := RelationshipFilter.none

end Inventory
