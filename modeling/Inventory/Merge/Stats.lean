import Inventory.Collections

/-!
# Inventory.Merge.Stats

What merging a report did.
-/

namespace Inventory

/-- What merging a report did. -/
structure MergeStats where
  /-- The entities written by type. -/
  written : StringMap Nat := ∅
  /-- The ids evicted by type. -/
  evicted : StringMap Nat := ∅
  /-- The references to evicted entities that were removed. -/
  unlinked : Nat := 0
  /-- The steps of removing references that failed and were passed over. -/
  cascadeFailures : Nat := 0
deriving DecidableEq

namespace MergeStats

/-- Adds a number to the count of a type. -/
def addTo (counts : StringMap Nat) (type : String) (n : Nat) : StringMap Nat :=
  counts.insert type ((counts[type]?).getD 0 + n)

/-- The stats with more entities written. -/
def wrote (s : MergeStats) (type : String) (n : Nat) : MergeStats :=
  { s with written := addTo s.written type n }

/-- The stats with more ids evicted. -/
def hasEvicted (s : MergeStats) (type : String) (n : Nat) : MergeStats :=
  { s with evicted := addTo s.evicted type n }

/-- The stats with more references removed. -/
def hasUnlinked (s : MergeStats) (n : Nat) : MergeStats := { s with unlinked := s.unlinked + n }

/-- The stats with one more failure passed over. -/
def hasFailed (s : MergeStats) : MergeStats := { s with cascadeFailures := s.cascadeFailures + 1 }

/-- The number of entities written. -/
def writtenEntities (s : MergeStats) : Nat := s.written.foldl (fun total _ n => total + n) 0

/-- The number of ids evicted. -/
def evictedIds (s : MergeStats) : Nat := s.evicted.foldl (fun total _ n => total + n) 0

/-- The stats of two merges together. -/
def combine (s t : MergeStats) : MergeStats :=
  { written := t.written.foldl addTo s.written
    evicted := t.evicted.foldl addTo s.evicted
    unlinked := s.unlinked + t.unlinked
    cascadeFailures := s.cascadeFailures + t.cascadeFailures }

end MergeStats

end Inventory
