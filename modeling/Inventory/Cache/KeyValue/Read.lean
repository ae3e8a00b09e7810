import Inventory.Cache.KeyValue.Write
import Inventory.Glob.Match

/-!
# Inventory.Cache.KeyValue.Read

Reading from a key-value store, and the plan for every request to the cache.

Entities are read in chunks: the blobs of a chunk in one request, and its sets of related ids, one
for each id and related type, in as many as the limit asks for.
-/

namespace Inventory.KeyValue

variable (o : Options) (type : String)

/-- The ids of the type. -/
def identifiers : StorePlan StringSet := inquire (.scan (o.membersKey type) none)

/-- Those of the given ids that are there. -/
def existing (ids : List String) : StorePlan StringSet :=
  Plan.forEach (batches o.getBatch ids) ∅ fun found chunk => do
    let flags ← inquire (.contains (o.membersKey type) chunk)
    return found.insertMany (((chunk.zip flags).filter Prod.snd).map Prod.fst)

/-- The ids that match a glob. The store is given the glob as a hint, except for alternatives,
which not every store understands. -/
def matching (glob : String) : StorePlan StringSet :=
  match Glob.compile glob with
  | .error e => .fail e
  | .ok pattern => do
    let hint := if glob.contains '\x7b' then none else some glob
    let found ← inquire (.scan (o.membersKey type) hint)
    return found.filter (Glob.isMatch pattern)

/-! ## Entities -/

/-- The sets under the given keys, with the number of requests that it took. -/
def readSets (keys : List String) : StorePlan (List StringSet × Nat) :=
  Plan.forEach (batches o.getBatch keys) ([], 0) fun (sets, requests) chunk => do
    let more ← inquire (.sets chunk)
    return (sets ++ more, requests + 1)

/-- Puts entities together from their blobs and, for each of them in turn, one set of related ids
for each of the types. -/
def assemble (types : List String) :
    List String → List (Option Bytes) → List StringSet → Except Error (List Entity)
  | id :: ids, blob :: blobs, sets => do
    let attributes ← match blob with
      | some blob => Blob.decode blob
      | none => .ok []
    let related := (types.zip sets).filter fun (_, ids) => !ids.isEmpty
    let rest ← assemble types ids blobs (sets.drop types.length)
    return { id, attributes, relationships := .ofList related } :: rest
  | _, _, _ => .ok []

/-- Reads a chunk of ids and adds up the work. -/
def readChunk (types : List String) (state : List Entity × GetCounts) (chunk : List String) :
    StorePlan (List Entity × GetCounts) := do
  let (found, counts) := state
  let blobs ← inquire (.blobs (chunk.map (o.attributesKey type)))
  let keys := chunk.flatMap fun id => types.map (o.relationshipKey type id)
  let (sets, requests) ← readSets o keys
  let entities ← Plan.ofExcept (assemble types chunk blobs sets)
  return (found ++ entities, { counts with
    keysRequested := counts.keysRequested + chunk.length + keys.length
    batches := counts.batches + 1 + requests })

/-- Reads the entities of ids that are there. -/
def hydrate (ids : List String) (filter : Option NameFilter) :
    StorePlan (List Entity × GetCounts) := do
  let all ← inquire (.scan (o.relatedTypesKey type) none)
  let types := NameFilter.select filter all.toList
  Plan.forEach (batches o.getBatch ids) ([], { relationshipNames := types.length })
    (readChunk o type types)

/-- The number of ids asked for, and those of them that are there. -/
def locate : Option (List String) → StorePlan (Nat × List String)
  | some ids => do
    let wanted := firstOccurrences ids
    let there ← existing o type wanted
    return (wanted.length, wanted.filter there.contains)
  | none => do
    let all ← identifiers o type
    return (all.size, all.toList)

/-- The entities of the given ids that are there, or all of them. -/
def entities (ids : Option (List String)) (filter : Option NameFilter) :
    StorePlan (List Entity) := do
  let (requested, present) ← locate o type ids
  let (found, counts) ←
    if present.isEmpty then Plan.give ([], {}) else hydrate o type present filter
  Plan.tell (.read o.keyspace type { counts with items := found.length, requested })
  return found

/-- The plan for a request to the cache. -/
def plan (o : Options) : (r : CacheRequest) → StorePlan r.Reply
  | .entities type ids filter => entities o type ids filter
  | .identifiers type => identifiers o type
  | .matching type glob => matching o type glob
  | .existing type ids => existing o type ids
  | .write mode type entities => write o mode type entities
  | .evict type ids => evict o type ids
  | .unlink type ids relationship targets => unlink o type ids relationship targets

end Inventory.KeyValue
