import Inventory.Blob
import Inventory.Cache.KeyValue.Layout
import Inventory.Cache.Request
import Inventory.Store.Command

/-!
# Inventory.Cache.KeyValue.Write

Writing to a key-value store: entities, evictions and the removal of references.

Entities are written in chunks, each with one batch of commands. The attributes of an entity that
does not expire are skipped if the store holds their digest. An entity that expires may vanish while
its digest would stay, so none is kept for it.
-/

namespace Inventory

/-- Work on a key-value store. -/
abbrev StorePlan := Plan StoreRequest StoreRequest.Reply

namespace KeyValue

/-- Asks the store a question. -/
def inquire (q : Query) : StorePlan q.Reply := .perform (StoreRequest.read q)

/-- Has the store carry out a batch. -/
def commit (batch : List Command) : StorePlan Unit := .perform (StoreRequest.write batch)

variable (o : Options) (mode : WriteMode) (type : String)

/-! ## Attributes -/

/-- Whether the attributes of an entity are compared with a stored digest. -/
def isComparable (e : Entity) : Bool := !e.attributes.isEmpty && e.ttl.isNone

/-- The stored digests of the entities whose attributes are compared. -/
def storedDigests (chunk : List Entity) : StorePlan (StringMap Bytes) :=
  let ids := (chunk.filter isComparable).map Entity.id
  if o.hashing && !ids.isEmpty then do
    let digests ← inquire (.hashFields (o.digestsKey type) ids)
    return .ofList ((ids.zip digests).filterMap fun (id, digest) => digest.map (id, ·))
  else .give ∅

/-- Whether the attributes of an entity are skipped. -/
def isUnchanged (stored : StringMap Bytes) (e : Entity) : Bool :=
  !e.attributes.isEmpty && stored[e.id]? == some (Blob.digest e.attributes)

/-- The command that lets a key expire with its entity. -/
def expiry (ttl : Option UInt64) (key : String) : List Command :=
  match ttl with
  | some seconds => [.expire key seconds]
  | none => []

/-- The command that keeps the digest of an entity up to date. -/
def digestCommands (e : Entity) : List Command :=
  if !o.hashing then []
  else if e.ttl.isNone then [.setField (o.digestsKey type) e.id (Blob.digest e.attributes)]
  else [.removeFields (o.digestsKey type) [e.id]]

/-- The commands that write the attributes of an entity. -/
def attributeCommands (stored : StringMap Bytes) (e : Entity) : List Command :=
  let key := o.attributesKey type e.id
  if e.attributes.isEmpty then []
  else if isUnchanged stored e then expiry e.ttl key
  else .set key (Blob.encode o.compression (Blob.content e.attributes)) ::
    digestCommands o type e ++ expiry e.ttl key

/-! ## Relationships -/

/-- The commands that write the related ids of an entity of one type. -/
def relatedCommands (e : Entity) (related : String) (ids : StringSet) : List Command :=
  let key := o.relationshipKey type e.id related
  (if mode = .replace then [.delete key] else []) ++
    if ids.isEmpty then [] else .addMembers key ids.toList :: expiry e.ttl key

/-- The commands that write the relationships of an entity. -/
def relationshipCommands (e : Entity) : List Command :=
  e.relationships.toList.flatMap fun (related, ids) => relatedCommands o mode type e related ids

/-- The related types of which an entity has ids. -/
def relatedTypes (e : Entity) : List String :=
  (e.relationships.toList.filter fun (_, ids) => !ids.isEmpty).map Prod.fst

/-! ## Entities -/

/-- All related types of a chunk of which there are ids. -/
def chunkTypes (chunk : List Entity) : StringSet := .ofList (chunk.flatMap relatedTypes)

/-- The batch that writes a chunk, given the stored digests. -/
def chunkBatch (stored : StringMap Bytes) (chunk : List Entity) : List Command :=
  Command.batch <|
    .addMembers (o.membersKey type) (chunk.map Entity.id) ::
      chunk.flatMap (fun e =>
        attributeCommands o type stored e ++ relationshipCommands o mode type e)
      ++ [.addMembers (o.relatedTypesKey type) (chunkTypes chunk).toList]

/-- Writes a chunk and adds up the work. -/
def writeChunk (counts : MergeCounts) (chunk : List Entity) : StorePlan MergeCounts := do
  let stored ← storedDigests o type chunk
  let batch := chunkBatch o mode type stored chunk
  commit batch
  return { counts with
    relationshipNames := counts.relationshipNames + (chunkTypes chunk).size
    skippedWrites := counts.skippedWrites + (chunk.filter (isUnchanged stored)).length
    operations := counts.operations + batch.length
    keysWritten := counts.keysWritten + (batch.filter fun c => !c.isExpire).length
    batches := counts.batches + 1 }

/-- Writes entities; one without an id refuses them all. -/
def write (entities : List Entity) : StorePlan Unit :=
  match entities.find? fun e => e.id.isEmpty with
  | some e => .fail (.malformedKey e.id (.emptyId type))
  | none => do
    let counts ← Plan.forEach (batches o.mergeBatch entities) { items := entities.length }
      (writeChunk o mode type)
    Plan.tell (.merged o.keyspace type counts)

/-! ## Evictions -/

/-- The commands that delete the keys of one entity, given all related types. -/
def evictionCommands (types : List String) (id : String) : List Command :=
  .delete (o.attributesKey type id) ::
    types.map fun related => .delete (o.relationshipKey type id related)

/-- The batch that evicts a chunk of ids. -/
def evictionBatch (types chunk : List String) : List Command :=
  Command.batch <|
    .removeMembers (o.membersKey type) chunk :: .removeFields (o.digestsKey type) chunk ::
      chunk.flatMap (evictionCommands o type types)

/-- Evicts a chunk of ids and adds up the work. -/
def evictChunk (types : List String) (counts : EvictCounts) (chunk : List String) :
    StorePlan EvictCounts := do
  let batch := evictionBatch o type types chunk
  commit batch
  return { counts with
    operations := counts.operations + batch.length
    keysDeleted := counts.keysDeleted + chunk.length * (1 + types.length)
    batches := counts.batches + 1 }

/-- Deletes all that is kept of the given ids. -/
def evict (ids : List String) : StorePlan Unit :=
  if ids.isEmpty then .give ()
  else do
    let types ← inquire (.scan (o.relatedTypesKey type) none)
    let counts ← Plan.forEach (batches o.evictBatch ids) { items := ids.length }
      (evictChunk o type types.toList)
    Plan.tell (.evicted o.keyspace type counts)

/-- Removes related ids from the sets of the given ids. -/
def unlink (ids : List String) (related : String) (targets : List String) : StorePlan Unit :=
  if ids.isEmpty || targets.isEmpty then .give ()
  else
    Plan.forEach (batches o.mergeBatch ids) () fun _ chunk =>
      commit (chunk.map fun id => .removeMembers (o.relationshipKey type id related) targets)

end KeyValue

end Inventory
