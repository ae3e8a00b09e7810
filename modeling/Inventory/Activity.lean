/-!
# Inventory.Activity

What a backend and the merge engine tell about their work, and its running totals.
-/

namespace Inventory

/-- The work of one write call. -/
structure MergeCounts where
  items : Nat := 0
  /-- The commands other than those that set a time to live. -/
  keysWritten : Nat := 0
  relationshipNames : Nat := 0
  /-- The blobs not written because the stored digest matched. -/
  skippedWrites : Nat := 0
  operations : Nat := 0
  batches : Nat := 0
deriving DecidableEq, Repr

/-- The work of one eviction call. -/
structure EvictCounts where
  items : Nat := 0
  keysDeleted : Nat := 0
  operations : Nat := 0
  batches : Nat := 0
deriving DecidableEq, Repr

/-- The work of one read of entities. -/
structure GetCounts where
  items : Nat := 0
  /-- The ids asked for, without repetitions. -/
  requested : Nat := 0
  keysRequested : Nat := 0
  relationshipNames : Nat := 0
  batches : Nat := 0
deriving DecidableEq, Repr

/-- One thing that happened; the first two texts of the first three are keyspace and type. -/
inductive Activity where
  | merged (keyspace type : String) (counts : MergeCounts)
  | evicted (keyspace type : String) (counts : EvictCounts)
  | read (keyspace type : String) (counts : GetCounts)
  /-- The report of an agent was refused because of an id of the type. -/
  | rejected (agent type id : String)
deriving DecidableEq, Repr

/-- Running totals. -/
structure Totals where
  mergedItems : Nat := 0
  keysWritten : Nat := 0
  skippedWrites : Nat := 0
  evictedItems : Nat := 0
  readItems : Nat := 0
  rejectedReports : Nat := 0
deriving DecidableEq, Repr

namespace Totals

/-- The totals after one more thing. -/
def add (t : Totals) : Activity → Totals
  | .merged _ _ c =>
    { t with
      mergedItems := t.mergedItems + c.items
      keysWritten := t.keysWritten + c.keysWritten
      skippedWrites := t.skippedWrites + c.skippedWrites }
  | .evicted _ _ c => { t with evictedItems := t.evictedItems + c.items }
  | .read _ _ c => { t with readItems := t.readItems + c.items }
  | .rejected .. => { t with rejectedReports := t.rejectedReports + 1 }

/-- The totals of all that happened. -/
def ofLog (log : List Activity) : Totals := log.foldl add {}

end Totals

end Inventory
