import Inventory.Json.Document
import Inventory.Relationships

/-!
# Inventory.Entity

Cached entities and their serialised form.

An entity is written as an object with its id, its attributes, its relationships and, if it expires,
its time to live in seconds. Read, the fields may stand in any order, all but the id may be missing,
and fields of other names are skipped whatever they hold; a field that is there twice is refused. An
array of up to four elements in that order is read as well.
-/

namespace Inventory

/-- A cached entity. -/
structure Entity where
  id : String
  attributes : Attributes := []
  relationships : Relationships := ∅
  /-- The seconds after which the entity expires, if it does. -/
  ttl : Option UInt64 := none

namespace Entity

/-- The entity with another time to live, where zero stands for none. -/
def withTtl (e : Entity) (ttl : Option UInt64) : Entity :=
  { e with ttl := ttl.filter fun seconds => 0 < seconds }

/-- The entity without its attributes, as a source without authority writes it. -/
def withoutAttributes (e : Entity) : Entity := { e with attributes := [] }

/-- The entity with those relationships only whose type is accepted. -/
def retainRelationships (e : Entity) (keep : String → Bool) : Entity :=
  { e with relationships := e.relationships.filter fun type _ => keep type }

/-- The ids related to the entity in a type, if it has a set of them. -/
def related? (e : Entity) (type : String) : Option StringSet := e.relationships[type]?

/-! ## Serialised form -/

/-- Relationships as an object of arrays. -/
def relationshipsJson (r : Relationships) : Json :=
  .object (r.toList.map fun (type, ids) => (type, Json.ofTexts ids.toList))

/-- The serialised form of an entity. -/
def json (e : Entity) : Json :=
  .object ([("id", .string e.id), ("attributes", .object e.attributes),
    ("relationships", relationshipsJson e.relationships)] ++
    (match e.ttl with
    | some seconds => [("ttl_seconds", Json.ofNat seconds.toNat)]
    | none => []))

/-- The texts of a list of documents. -/
def texts? : List Json.Document → Option (List String)
  | [] => some []
  | .string (some s) :: rest => (texts? rest).map (s :: ·)
  | _ :: _ => none

/-- Reads relationships after those in `done`; a type that is there twice keeps the last list. -/
def relationships? (done : Relationships) :
    List (Option String × Json.Document) → Option Relationships
  | [] => some done
  | (some type, .array items) :: rest =>
    (texts? items).bind fun ids => relationships? (done.insert type (.ofList ids)) rest
  | _ :: _ => none

/-- What has been read of the fields of an entity. -/
structure Fields where
  id : Option String := none
  attributes : Option Attributes := none
  relationships : Option Relationships := none
  ttl : Option (Option UInt64) := none

namespace Fields

/-- The id of an entity. -/
def readId? : Json.Document → Option String
  | .string s => s
  | _ => none

/-- The attributes of an entity, which lie inside the object of the entity. -/
def readAttributes? (d : Json.Document) : Option Attributes :=
  match d.value? (Json.maxDepth - 1) with
  | some (.object fields) => some fields
  | _ => none

/-- The relationships of an entity. -/
def readRelationships? : Json.Document → Option Relationships
  | .object fields => relationships? ∅ fields
  | _ => none

/-- The time to live of an entity, zero included. -/
def readTtl? : Json.Document → Option (Option UInt64)
  | .null => some none
  | .number (some (.int n)) =>
    if 0 ≤ n ∧ n < UInt64.size then some (some (UInt64.ofNat n.toNat)) else none
  | _ => none

/-- Takes one field of an object. -/
def take? (f : Fields) : Option String × Json.Document → Option Fields
  | (none, _) => none
  | (some name, d) =>
    if name = "id" then
      if f.id.isSome then none else (readId? d).map fun v => { f with id := some v }
    else if name = "attributes" then
      if f.attributes.isSome then none
      else (readAttributes? d).map fun v => { f with attributes := some v }
    else if name = "relationships" then
      if f.relationships.isSome then none
      else (readRelationships? d).map fun v => { f with relationships := some v }
    else if name = "ttl_seconds" then
      if f.ttl.isSome then none else (readTtl? d).map fun v => { f with ttl := some v }
    else some f

/-- The entity that the fields describe, if they hold an id. -/
def entity? (f : Fields) : Option Entity :=
  f.id.map fun id =>
    ⟨id, f.attributes.getD [], f.relationships.getD ∅, f.ttl.getD none⟩

end Fields

/-- The entity that a document describes. -/
def ofDocument? : Json.Document → Option Entity
  | .object fields => (fields.foldlM Fields.take? {}).bind Fields.entity?
  | .array items =>
    if items.length ≤ 4 then
      (["id", "attributes", "relationships", "ttl_seconds"].zip items).foldlM
        (fun f (name, d) => Fields.take? f (some name, d)) {} |>.bind Fields.entity?
    else none
  | _ => none

/-- Reads the serialised form of an entity. -/
def parse? (s : String) : Option Entity := (Json.Document.parse? s).bind ofDocument?

end Entity

end Inventory
