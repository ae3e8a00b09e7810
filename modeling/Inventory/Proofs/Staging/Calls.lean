import Inventory.Proofs.Collections
import Inventory.Staging
import Mathlib.Data.List.Induction

/-!
# Inventory.Proofs.Staging.Calls

What a staging area holds after a history of calls.

The calls on one namespace do not depend on those on the others, nor on those for on-demand entries
(`Staging.namespaceOf_ofCalls`, `Staging.onDemand_ofCalls`), so what is said of one area is said of its own
calls only. In a namespace the draft of an id is what all changes to it come to, one after the other
(`Namespace.kept_ofCalls`); of the entities that were retained the last one counts
(`Namespace.refreshed_ofCalls`); and an id is to be evicted if it was once evicted and is neither kept nor
retained in the end, whatever the order of the calls (`Namespace.mem_evicted_ofCalls`).
-/

namespace Inventory

/-! ## Namespaces -/

namespace Namespace

/-- A call on a namespace. -/
inductive Call where
  /-- The namespace is named, and nothing is staged in it. -/
  | use
  | keep (id : String) (change : Draft → Draft)
  | refresh (e : Entity)
  | evict (id : String)

namespace Call

/-- What a call does. -/
def perform : Call → Namespace → Namespace
  | use, n => n
  | keep id change, n => n.keep id change
  | refresh e, n => n.refresh e
  | evict id, n => n.evict id

/-- What a call changes about the draft of an id, if it keeps the id. -/
def change? (id : String) : Call → Option (Draft → Draft)
  | keep kept change => if kept = id then some change else none
  | _ => none

/-- The entity with an id that a call retains. -/
def retained? (id : String) : Call → Option Entity
  | refresh e => if e.id = id then some e else none
  | _ => none

end Call

/-- A namespace after a history of calls on it. -/
def ofCalls (calls : List Call) : Namespace := calls.foldl (fun n c => c.perform n) ∅

/-- What the calls change about the draft of an id, in their order. -/
def changes (id : String) (calls : List Call) : List (Draft → Draft) := calls.filterMap (·.change? id)

/-- The entities with an id that the calls retain, in their order. -/
def retained (id : String) (calls : List Call) : List Entity := calls.filterMap (·.retained? id)

/-- The draft of an id: an empty one to which all changes have been made. -/
def draft (id : String) (calls : List Call) : Draft :=
  (changes id calls).foldl (fun d change => change d) {}

variable {id : String} {n : Namespace}

@[simp] theorem ofCalls_nil : ofCalls [] = ∅ := rfl

@[simp] theorem ofCalls_concat (calls : List Call) (c : Call) :
    ofCalls (calls ++ [c]) = c.perform (ofCalls calls) := by
  simp [ofCalls]

@[simp] theorem changes_concat (id : String) (calls : List Call) (c : Call) :
    changes id (calls ++ [c]) = changes id calls ++ (c.change? id).toList := by
  cases h : c.change? id <;> simp [changes, h]

@[simp] theorem retained_concat (id : String) (calls : List Call) (c : Call) :
    retained id (calls ++ [c]) = retained id calls ++ (c.retained? id).toList := by
  cases h : c.retained? id <;> simp [retained, h]

@[simp] theorem getElem?_kept_empty (id : String) : (∅ : Namespace).kept[id]? = none := by
  show (∅ : StringMap Draft)[id]? = none
  simp

@[simp] theorem getElem?_refreshed_empty (id : String) : (∅ : Namespace).refreshed[id]? = none := by
  show (∅ : StringMap Entity)[id]? = none
  simp

@[simp] theorem not_mem_evicted_empty (id : String) : id ∉ (∅ : Namespace).evicted := by
  show id ∉ (∅ : StringSet)
  simp

/-! ### What one call does -/

/-- A call leaves all drafts alone but that of the id it keeps. -/
theorem kept_perform (c : Call) (n : Namespace) (id : String) :
    (c.perform n).kept[id]? =
      match c.change? id with
      | some change => some (change ((n.kept[id]?).getD {}))
      | none => n.kept[id]? := by
  cases c with
  | use | refresh e => rfl
  | evict evicted =>
      simp only [Call.perform, Call.change?, Namespace.evict]
      split <;> rfl
  | keep kept change =>
      simp only [Call.perform, Call.change?, Namespace.keep, Std.ExtTreeMap.getElem?_insert]
      by_cases h : kept = id <;> simp [h]

/-- A call leaves all retained entities alone but the one with the id of the entity it retains. -/
theorem refreshed_perform (c : Call) (n : Namespace) (id : String) :
    (c.perform n).refreshed[id]? = (c.retained? id).or n.refreshed[id]? := by
  cases c with
  | use | keep kept change => rfl
  | evict evicted =>
      simp only [Call.perform, Call.retained?, Namespace.evict]
      split <;> rfl
  | refresh e =>
      simp only [Call.perform, Call.retained?, Namespace.refresh, Std.ExtTreeMap.getElem?_insert]
      by_cases h : e.id = id <;> simp [h]

/-- An id that a call keeps or retains is not to be evicted from then on, one that it evicts is unless it
is kept or retained, and what is said of the others stays. -/
theorem mem_evicted_perform (c : Call) (n : Namespace) (id : String) :
    id ∈ (c.perform n).evicted ↔
      c.change? id = none ∧ c.retained? id = none ∧
        (id ∈ n.evicted ∨ c = .evict id ∧ id ∉ n.kept ∧ id ∉ n.refreshed) := by
  cases c with
  | use => simp [Call.perform, Call.change?, Call.retained?]
  | keep kept change =>
      by_cases h : kept = id <;>
        simp [Call.perform, Call.change?, Call.retained?, Namespace.keep, Std.ExtTreeSet.mem_erase, h]
  | refresh e =>
      by_cases h : e.id = id <;>
        simp [Call.perform, Call.change?, Call.retained?, Namespace.refresh, Std.ExtTreeSet.mem_erase, h]
  | evict evicted =>
      simp only [Call.perform, Call.change?, Call.retained?, Namespace.evict, Call.evict.injEq, true_and]
      by_cases h : evicted = id
      · subst h
        split
        · grind
        · simp_all
      · split <;> simp [Std.ExtTreeSet.mem_insert, h]

/-! ### What a history of calls leaves -/

/-- The draft of an id is there once the id was kept, and has all changes made to it. -/
theorem kept_ofCalls (id : String) (calls : List Call) :
    (ofCalls calls).kept[id]? = if changes id calls = [] then none else some (draft id calls) := by
  induction calls using List.reverseRecOn with
  | nil => simp [changes]
  | append_singleton calls c ih =>
      rw [ofCalls_concat, kept_perform, ih]
      cases hc : c.change? id with
      | none => simp [draft, hc]
      | some change => by_cases hnone : changes id calls = [] <;> simp [draft, hc, hnone]

theorem refreshed_ofCalls (id : String) (calls : List Call) :
    (ofCalls calls).refreshed[id]? = (retained id calls).getLast? := by
  induction calls using List.reverseRecOn with
  | nil => simp [retained]
  | append_singleton calls c ih =>
      rw [ofCalls_concat, refreshed_perform, ih]
      cases hc : c.retained? id <;> simp [hc]

theorem mem_kept_ofCalls (id : String) (calls : List Call) :
    id ∈ (ofCalls calls).kept ↔ changes id calls ≠ [] := by
  rw [Std.ExtTreeMap.mem_iff_isSome_getElem?, kept_ofCalls]
  by_cases h : changes id calls = [] <;> simp [h]

theorem mem_refreshed_ofCalls (id : String) (calls : List Call) :
    id ∈ (ofCalls calls).refreshed ↔ retained id calls ≠ [] := by
  rw [Std.ExtTreeMap.mem_iff_isSome_getElem?, refreshed_ofCalls, List.getLast?_isSome]

/-- The ids to be evicted are those that were evicted at some time and never kept or retained. -/
theorem mem_evicted_ofCalls (id : String) (calls : List Call) :
    id ∈ (ofCalls calls).evicted ↔
      Call.evict id ∈ calls ∧ changes id calls = [] ∧ retained id calls = [] := by
  induction calls using List.reverseRecOn with
  | nil => simp
  | append_singleton calls c ih =>
      rw [ofCalls_concat, mem_evicted_perform, ih, mem_kept_ofCalls, mem_refreshed_ofCalls]
      cases hchange : c.change? id with
      | some change => simp [hchange]
      | none =>
          cases hretained : c.retained? id with
          | some e => simp [hretained]
          | none =>
              simp only [changes_concat, retained_concat, hchange, hretained, Option.toList_none,
                List.append_nil, List.mem_append, List.mem_singleton]
              grind

/-! ### The finished entities -/

/-- The entity that the calls stage under an id: the finished draft if the id was ever kept, and
otherwise the entity that was retained last. -/
def staged? (id : String) (calls : List Call) : Option Entity :=
  if changes id calls = [] then (retained id calls).getLast? else some ((draft id calls).entity id)

theorem getElem?_entities (n : Namespace) (id : String) :
    n.entities[id]? = ((n.kept[id]?).map fun d => d.entity id).or n.refreshed[id]? := by
  rw [entities, Std.ExtTreeMap.getElem?_union, Std.ExtTreeMap.getElem?_map]

theorem entities_ofCalls (id : String) (calls : List Call) :
    (ofCalls calls).entities[id]? = staged? id calls := by
  rw [getElem?_entities, kept_ofCalls, refreshed_ofCalls, staged?]
  by_cases h : changes id calls = [] <;> simp [h]

/-- Whatever is staged under an id has that id. -/
theorem id_of_staged {calls : List Call} {e : Entity} (h : staged? id calls = some e) : e.id = id := by
  unfold staged? at h
  split at h
  · have hmem : e ∈ retained id calls := List.mem_of_getLast? h
    obtain ⟨c, -, hc⟩ := List.mem_filterMap.1 hmem
    cases c with
    | refresh kept =>
        simp only [Call.retained?, Option.ite_none_right_eq_some, Option.some.injEq] at hc
        rw [← hc.2, hc.1]
    | use | keep | evict => simp [Call.retained?] at hc
  · obtain rfl := Option.some_inj.1 h
    rfl

/-- An entity is staged under its id if it is what the draft of a kept id comes to, where a time to live of
zero is none, or what was retained last of an id that was never kept. -/
theorem staged?_eq_some_iff {calls : List Call} {e : Entity} :
    staged? e.id calls = some e ↔
      (changes e.id calls ≠ [] ∧
        e.attributes = (draft e.id calls).attributes ∧
        e.relationships = (draft e.id calls).relationships ∧
        e.ttl = if (draft e.id calls).ttl = some 0 then none
          else (draft e.id calls).ttl) ∨
      (changes e.id calls = [] ∧ (retained e.id calls).getLast? = some e) := by
  unfold staged?
  by_cases hkept : changes e.id calls = []
  · simp [hkept]
  · generalize draft e.id calls = d
    have httl : d.ttl.filter (fun seconds => 0 < seconds) = if d.ttl = some 0 then none else d.ttl := by
      cases d.ttl with
      | none => rfl
      | some seconds => by_cases hzero : seconds = 0 <;> simp [hzero, UInt64.pos_iff_ne_zero]
    simp only [hkept, if_false, ne_eq, not_false_eq_true, true_and, false_and, or_false,
      Option.some.injEq, Draft.entity, Entity.withTtl, httl]
    cases e
    simp only [Entity.mk.injEq, true_and, eq_comm]

end Namespace

/-! ## On-demand entries -/

namespace OnDemandArea

/-- A call for an on-demand entry. -/
inductive Call where
  | keep (e : Entity)
  | evict (id : String)

/-- What a call does. -/
def Call.perform : Call → OnDemandArea → OnDemandArea
  | keep e, a => a.keep e
  | evict id, a => a.evict id

/-- The area after a history of calls. -/
def ofCalls (calls : List Call) : OnDemandArea := calls.foldl (fun a c => c.perform a) {}

@[simp] theorem ofCalls_nil : ofCalls [] = {} := rfl

@[simp] theorem ofCalls_concat (calls : List Call) (c : Call) :
    ofCalls (calls ++ [c]) = c.perform (ofCalls calls) := by
  simp [ofCalls]

end OnDemandArea

/-! ## The staging area -/

namespace Staging

/-- A call on the staging area. -/
inductive Call where
  | on (type : String) (call : Namespace.Call)
  | onDemand (call : OnDemandArea.Call)

namespace Call

/-- What a call does. -/
def perform : Call → Staging → Staging
  | on type call, s => s.modify type call.perform
  | onDemand call, s => { s with onDemand := call.perform s.onDemand }

/-- The call on the namespace of a type, if it is one. -/
def on? (type : String) : Call → Option Namespace.Call
  | on used call => if used = type then some call else none
  | onDemand _ => none

/-- The call for an on-demand entry, if it is one. -/
def onDemand? : Call → Option OnDemandArea.Call
  | on _ _ => none
  | onDemand call => some call

end Call

/-- The staging area after a history of calls. -/
def ofCalls (calls : List Call) : Staging := calls.foldl (fun s c => c.perform s) {}

/-- The calls on the namespace of a type. -/
def callsOn (type : String) (calls : List Call) : List Namespace.Call := calls.filterMap (·.on? type)

/-- The calls for on-demand entries. -/
def callsOnDemand (calls : List Call) : List OnDemandArea.Call := calls.filterMap Call.onDemand?

@[simp] theorem ofCalls_concat (calls : List Call) (c : Call) :
    ofCalls (calls ++ [c]) = c.perform (ofCalls calls) := by
  simp [ofCalls]

@[simp] theorem callsOn_concat (type : String) (calls : List Call) (c : Call) :
    callsOn type (calls ++ [c]) = callsOn type calls ++ (c.on? type).toList := by
  cases h : c.on? type <;> simp [callsOn, h]

@[simp] theorem callsOnDemand_concat (calls : List Call) (c : Call) :
    callsOnDemand (calls ++ [c]) = callsOnDemand calls ++ c.onDemand?.toList := by
  cases h : c.onDemand? <;> simp [callsOnDemand, h]

theorem namespaceOf_modify (s : Staging) (type : String) (change : Namespace → Namespace) (t : String) :
    (s.modify type change).namespaceOf t =
      if type = t then change (s.namespaceOf t) else s.namespaceOf t := by
  unfold modify namespaceOf StringMap.find
  rw [Std.ExtTreeMap.getElem?_insert]
  by_cases h : type = t <;> simp [h]

/-- A call on one namespace leaves the others alone, and a call for an on-demand entry all of them. -/
theorem namespaceOf_perform (c : Call) (s : Staging) (type : String) :
    (c.perform s).namespaceOf type =
      match c.on? type with
      | some call => call.perform (s.namespaceOf type)
      | none => s.namespaceOf type := by
  cases c with
  | onDemand call => rfl
  | on used call =>
      simp only [Call.perform, Call.on?, namespaceOf_modify]
      by_cases h : used = type <;> simp [h]

theorem mem_namespaces_perform (c : Call) (s : Staging) (type : String) :
    type ∈ (c.perform s).namespaces ↔ type ∈ s.namespaces ∨ c.on? type ≠ none := by
  cases c with
  | onDemand call => simp [Call.perform, Call.on?]
  | on used call =>
      simp only [Call.perform, Call.on?, modify, StringMap.mem_insert_iff]
      by_cases h : used = type <;> simp [h]

/-- What is staged for a type is what the calls on its namespace leave. -/
theorem namespaceOf_ofCalls (type : String) (calls : List Call) :
    (ofCalls calls).namespaceOf type = Namespace.ofCalls (callsOn type calls) := by
  induction calls using List.reverseRecOn with
  | nil => rfl
  | append_singleton calls c ih =>
      rw [ofCalls_concat, namespaceOf_perform, ih]
      cases hc : c.on? type <;> simp [hc]

/-- A namespace is there from the first call on it. -/
theorem mem_namespaces_ofCalls (type : String) (calls : List Call) :
    type ∈ (ofCalls calls).namespaces ↔ callsOn type calls ≠ [] := by
  induction calls using List.reverseRecOn with
  | nil => simp [ofCalls, callsOn]
  | append_singleton calls c ih =>
      rw [ofCalls_concat, mem_namespaces_perform, ih]
      cases hc : c.on? type <;> simp [hc]

theorem onDemand_ofCalls (calls : List Call) :
    (ofCalls calls).onDemand = OnDemandArea.ofCalls (callsOnDemand calls) := by
  induction calls using List.reverseRecOn with
  | nil => rfl
  | append_singleton calls c ih =>
      cases c <;> simp [Call.onDemand?, Call.perform, modify, ih]

end Staging

end Inventory
