import Inventory.Cache.Request
import Inventory.Glob.Match

/-!
# Inventory.Cache.Memory

The cache that keeps its entities in memory, as a map for each type.

A type is there from its first write on, even if nothing of that write was accepted.

Nothing expires: a time to live is kept with its record and shown with its entity, and that a record is gone
once its time is over is left out. A time of zero stands for none wherever an entity is made or shown; a record
has it only after an entity that was written down with it, and then it would be gone at once, which is left out
as well.
-/

namespace Inventory

/-- What is kept of an entity under its id. -/
structure Record where
  attributes : Attributes := []
  relationships : Relationships := ∅
  ttl : Option UInt64 := none

namespace Record

/-- The record after an entity has been written over it. -/
def write (r : Record) (mode : WriteMode) (e : Entity) : Record :=
  { attributes := if e.attributes.isEmpty then r.attributes else e.attributes
    relationships := match mode with
      | .union => r.relationships.union e.relationships
      | .replace => r.relationships.replace e.relationships
    ttl := e.ttl <|> r.ttl }

/-- The record without some related ids; a type that is left without any is removed. -/
def unlink (r : Record) (relationship : String) (targets : List String) : Record :=
  match r.relationships[relationship]? with
  | none => r
  | some related =>
    let left := related.eraseMany targets
    if left.size = related.size then r
    else if left.isEmpty then { r with relationships := r.relationships.erase relationship }
    else { r with relationships := r.relationships.insert relationship left }

/-- The entity of a record, with the relationships that a filter accepts. -/
def entity (r : Record) (id : String) (filter : Option NameFilter) : Entity :=
  let names := NameFilter.select filter r.relationships.types
  ({ id, attributes := r.attributes, relationships := r.relationships } : Entity)
    |>.retainRelationships names.contains |>.withTtl r.ttl

end Record

/-- The cache in memory: the records by type and id. -/
structure Memory where
  types : StringMap (StringMap Record) := ∅

namespace Memory

/-- The records of a type. -/
def recordsOf (m : Memory) (type : String) : StringMap Record := StringMap.find m.types type

/-- Writes entities up to the first without an id. -/
def writeAll (mode : WriteMode) (type : String) (records : StringMap Record) :
    List Entity → StringMap Record × Except Error Unit
  | [] => (records, .ok ())
  | e :: rest =>
    if e.id.isEmpty then (records, .error (.malformedKey e.id (.emptyId type)))
    else
      let record := ((records[e.id]?).getD {}).write mode e
      writeAll mode type (records.insert e.id record) rest

/-- The ids of a type. -/
def identifiers (m : Memory) (type : String) : StringSet := StringMap.keySet (m.recordsOf type)

/-- The entities of a type. -/
def entities (m : Memory) (type : String) (ids : Option (List String))
    (filter : Option NameFilter) : List Entity :=
  let records := m.recordsOf type
  let ids := match ids with
    | some ids => firstOccurrences ids
    | none => records.keys
  ids.filterMap fun id => (records[id]?).map fun r => r.entity id filter

/-- Removes related ids from the records of some ids. -/
def unlinkAll (records : StringMap Record) (ids : List String) (relationship : String)
    (targets : List String) : StringMap Record :=
  ids.foldl (fun records id =>
    match records[id]? with
    | some r => records.insert id (r.unlink relationship targets)
    | none => records) records

/-- Changes the records of a type that is there. -/
def modifyExisting (m : Memory) (type : String) (change : StringMap Record → StringMap Record) :
    Memory :=
  match m.types[type]? with
  | some records => { m with types := m.types.insert type (change records) }
  | none => m

/-- Answers a request. -/
def answer (m : Memory) : (r : CacheRequest) → Memory × Except Error r.Reply
  | .entities type ids filter => (m, .ok (m.entities type ids filter))
  | .identifiers type => (m, .ok (m.identifiers type))
  | .matching type glob =>
    (m, (Glob.compile glob).map fun pattern => (m.identifiers type).filter (Glob.isMatch pattern))
  | .existing type ids =>
    (m, .ok (.ofList (ids.filter (m.recordsOf type).contains)))
  | .write mode type entities =>
    let (records, reply) := writeAll mode type (m.recordsOf type) entities
    ({ m with types := m.types.insert type records }, reply)
  | .evict type ids => (m.modifyExisting type (·.eraseMany ids), .ok ())
  | .unlink type ids relationship targets =>
    (m.modifyExisting type (unlinkAll · ids relationship targets), .ok ())

end Memory

end Inventory
