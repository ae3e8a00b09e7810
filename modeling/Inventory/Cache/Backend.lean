import Inventory.Cache.KeyValue.Read
import Inventory.Cache.Memory
import Inventory.Store.Shards

/-!
# Inventory.Cache.Backend

What a cache may be built on: a state that answers requests of its own kind, and a plan in such
requests for every request to the cache.
-/

namespace Inventory

/-- Something on which a cache may be built. -/
structure Backend where
  State : Type
  Request : Type
  Reply : Request → Type
  name : State → String
  /-- How a request to the cache is carried out. -/
  plan : (r : CacheRequest) → Plan Request Reply r.Reply
  /-- Answers a request; no answer means that there will never be one. -/
  answer : (r : Request) → State → State × Option (Except Error (Reply r))
  /-- How long an answer is waited for. -/
  patience : Duration
  /-- What a request that was not answered in time comes to. -/
  silence : State → Error

namespace Backend

/-- Work in the requests of a backend. -/
abbrev Work (B : Backend) (α : Type) := Plan B.Request B.Reply α

/-- Work on the cache as work in the requests of a backend. -/
def work (B : Backend) {α : Type} (p : CachePlan α) : B.Work α := p.expand B.plan

/-- The backend that keeps everything in memory. -/
def memory (name : String) : Backend where
  State := Memory
  Request := CacheRequest
  Reply := CacheRequest.Reply
  name _ := name
  plan r := .perform r
  answer r m := ((m.answer r).1, some (m.answer r).2)
  patience := ⟨0⟩
  silence _ := .unavailable name (.silent ⟨0⟩)

/-- The backend over a key-value store. -/
def keyValue (o : KeyValue.Options) : Backend where
  State := Store
  Request := StoreRequest
  Reply := StoreRequest.Reply
  name := Store.name
  plan := KeyValue.plan o
  answer := Store.answer
  patience := o.storeTimeout
  silence s := .unavailable s.name (.silent o.storeTimeout)

end Backend

end Inventory
