import Inventory.Proofs.Cache.Following
import Inventory.Proofs.KeyValue.Keys
import Inventory.Proofs.Store.Sharding

/-!
# Inventory.Proofs.Merge.Media

The cache in memory and the cache over a key-value store, followed alike.

Whatever a cache is built on, work on it ends as its run does on what requests are answered from
(`Medium.run_of_endsIn`). What every request preserves of that holds in every state that the cache can
be in (`Medium.valid_of_reaches`).
-/

namespace Inventory

open KeyValue

/-- What a cache may be built on. -/
inductive Medium where
  | memory (name : String)
  /-- A key-value store, with the name of its node if it has only one. -/
  | node (o : Options) (name : String)

namespace Medium

/-! ## Caches as they are reached -/

/-- The backend. -/
def backend : Medium → Backend
  | memory name => .memory name
  | node o _ => .keyValue o

/-- The backend before the first request. -/
def fresh : (medium : Medium) → medium.backend.State
  | memory _ => ({} : Memory)
  | node _ name => Store.single { name }

/-- A state before the first request. A key-value store may then have one node, or several that share
the keys. -/
def IsFresh : (medium : Medium) → medium.backend.State → Prop
  | memory _, m => m = ({} : Memory)
  | node .., s => Store.IsFresh s

/-- Whether the keys of a type can be told from those of all others. -/
def Tells : Medium → String → Prop
  | memory _, _ => True
  | node .., type => Plain type

/-- A state that some work on the cache leads to from the beginning. -/
def Reachable (medium : Medium) (s : medium.backend.State) : Prop :=
  medium.backend.Reaches (fun _ => True) medium.fresh s

/-! ## Views -/

/-- What requests are answered from. -/
def View : Medium → Type
  | memory _ => Memory
  | node .. => Cells

/-- How requests are answered. -/
def respond : (medium : Medium) → Plan.Responder CacheRequest CacheRequest.Reply medium.View
  | memory _ => Backend.remember
  | node o _ => Backend.respond o

/-- What requests are answered from in a state. -/
def view : (medium : Medium) → medium.backend.State → medium.View
  | memory _, m => m
  | node .., s => Store.cells s

/-- Whether a state answers every request. -/
def Sound : (medium : Medium) → medium.backend.State → Prop
  | memory _, _ => True
  | node .., s => Store.Healthy s

variable {medium : Medium} {s s' : medium.backend.State} {α : Type}

theorem isFresh_fresh (medium : Medium) : medium.IsFresh medium.fresh := by
  cases medium with
  | memory name => rfl
  | node o name => exact .single name

theorem IsFresh.sound (h : medium.IsFresh s) : medium.Sound s := by
  cases medium with
  | memory name => trivial
  | node o name => exact Store.IsFresh.healthy h

/-- However many nodes there are, requests are answered from the same at the beginning. -/
theorem IsFresh.view_eq (h : medium.IsFresh s) : medium.view s = medium.view medium.fresh := by
  cases medium with
  | memory name => exact h
  | node o name => exact (Store.IsFresh.cells_eq h).trans (Store.cells_fresh name).symm

/-- In a sound state all work ends, as its run does. -/
theorem exists_endsIn (hs : medium.Sound s) (p : CachePlan α) :
    ∃ s', medium.backend.EndsIn p s s' (p.run medium.respond (medium.view s)).2 ∧ medium.Sound s' ∧
      medium.view s' = (p.run medium.respond (medium.view s)).1 := by
  cases medium with
  | memory name => exact ⟨_, Backend.memory_endsIn name p s, trivial, rfl⟩
  | node o name => exact Backend.keyValue_endsIn hs p

/-- What work came to is what its run comes to. -/
theorem run_of_endsIn (hs : medium.Sound s) {p : CachePlan α} {result : Except Error α}
    (h : medium.backend.EndsIn p s s' result) :
    medium.Sound s' ∧ p.run medium.respond (medium.view s) = (medium.view s', result) := by
  obtain ⟨s'', hends, hsound, hview⟩ := exists_endsIn hs p
  obtain ⟨rfl, rfl⟩ := hends.unique h
  exact ⟨hsound, Prod.ext hview.symm rfl⟩

theorem replies (hs : medium.Sound s) (r : CacheRequest) :
    medium.backend.Replies s r (medium.respond r (medium.view s)).2 := by
  obtain ⟨s', hends, -⟩ := exists_endsIn hs (.perform r)
  exact ⟨s', hends⟩

section Reaches

variable {kind : CacheRequest → Prop} {valid : medium.View → Prop}
  (hfresh : valid (medium.view medium.fresh))
  (hstep : ∀ r m, kind r → valid m → valid (medium.respond r m).1)

include hfresh hstep

/-- What requests of a kind preserve holds wherever they lead to. -/
theorem IsFresh.valid_of_reaches {c : medium.backend.State} (hc : medium.IsFresh c)
    (h : medium.backend.Reaches kind c s) : medium.Sound s ∧ valid (medium.view s) := by
  obtain ⟨p, result, hasks, hends⟩ := h
  obtain ⟨hsound, hrun⟩ := run_of_endsIn hc.sound hends
  have hvalid := Plan.run_of_asks valid hstep hasks (hc.view_eq.symm ▸ hfresh)
  rw [hrun] at hvalid
  exact ⟨hsound, hvalid⟩

theorem valid_of_reaches (h : medium.backend.Reaches kind medium.fresh s) :
    medium.Sound s ∧ valid (medium.view s) :=
  medium.isFresh_fresh.valid_of_reaches hfresh hstep h

end Reaches

end Medium

end Inventory
