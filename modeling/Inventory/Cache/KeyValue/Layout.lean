import Inventory.Duration

/-!
# Inventory.Cache.KeyValue.Layout

The settings of the cache over a key-value store, and the keys under which it keeps a type `T` in
the keyspace `P`:

| key | kind | content |
| --- | --- | --- |
| `P:T:members` | set | the ids of the type |
| `P:T:attributes:<id>` | blob | the attributes of an entity |
| `P:T:relationships:<id>:<related>` | set | the related ids of an entity of one type |
| `P:T:relationships` | set | every related type ever written for `T` |
| `P:T:hashes` | hash | for each id the digest of the attributes last written |

The set of related types is what lets reads and evictions find the sets of an entity without a
search for keys. The digests let attributes be skipped that did not change.
-/

namespace Inventory.KeyValue

/-- Settings of the cache over a key-value store. -/
structure Options where
  /-- What every key starts with. -/
  keyspace : String := "cats"
  /-- The entities in one batch of a write. -/
  mergeBatch : Nat := 100
  /-- The keys in one read. -/
  getBatch : Nat := 500
  /-- The ids in one batch of an eviction. -/
  evictBatch : Nat := 500
  /-- A hint to the store for how much of a set to look at in one go. -/
  scanSize : Nat := 1000
  compression : Bool := false
  /-- Whether digests are kept, and attributes skipped that did not change. -/
  hashing : Bool := true
  /-- How long one request to the store may take. -/
  storeTimeout : Duration := .ofMilliseconds 30000

namespace Options

variable (o : Options) (type : String)

/-- The key of the set of all ids. -/
def membersKey : String := s!"{o.keyspace}:{type}:members"

/-- The key of the attributes of an entity. -/
def attributesKey (id : String) : String := s!"{o.keyspace}:{type}:attributes:{id}"

/-- The key of the related ids of an entity. -/
def relationshipKey (id related : String) : String :=
  s!"{o.keyspace}:{type}:relationships:{id}:{related}"

/-- The key of the set of all related types. -/
def relatedTypesKey : String := s!"{o.keyspace}:{type}:relationships"

/-- The key of the digests. -/
def digestsKey : String := s!"{o.keyspace}:{type}:hashes"

end Options

end Inventory.KeyValue
