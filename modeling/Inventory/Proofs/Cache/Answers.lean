import Inventory.Proofs.Cache.Mirror
import Mathlib.Data.List.Sort

/-!
# Inventory.Proofs.Cache.Answers

What is read of a type whose cells show what its records hold.

A store returns entities without their times to live, which are those of its keys. But for this, each
read of the cells is answered as from the records (`Mirrors.read`).
-/

namespace Inventory

open KeyValue Memory

/-- What a reply says besides the times to live. -/
def CacheRequest.timeless : (r : CacheRequest) → Except Error r.Reply → Except Error r.Reply
  | entities .., reply => reply.map fun es => es.map (·.withTtl none)
  | identifiers _, reply | matching .., reply | existing .., reply => reply
  | write .., reply | evict .., reply | unlink .., reply => reply

/-- Whether a request filters related types, if at all, each by itself. -/
def CacheRequest.IsNamewise : CacheRequest → Prop
  | entities _ _ filter => ∀ f ∈ filter, f.IsNamewise
  | _ => True

/-- A set and a map with the same elements for keys list them in the same order. -/
theorem StringMap.toList_eq_keys {α : Type} {s : StringSet} {m : StringMap α}
    (h : ∀ x, x ∈ s ↔ x ∈ m) : s.toList = m.keys := by
  have hirrefl : Std.Irrefl fun a b : String => compare a b = .lt := ⟨fun a h => by simp at h⟩
  have hantisymm : Std.Antisymm fun a b : String => compare a b = .lt := ⟨fun a b hab hba => by
    have hswap : compare a b = (compare b a).swap := Std.OrientedCmp.eq_swap
    rw [hswap, hba] at hab
    contradiction⟩
  refine List.Pairwise.eq_of_mem_iff Std.ExtTreeSet.ordered_toList Std.ExtTreeMap.ordered_keys fun x => ?_
  rw [Std.ExtTreeSet.mem_toList, Std.ExtTreeMap.mem_keys, h]

namespace Mirrors

variable {o : Options} {W : Attributes → Prop} {type : String} {records : StringMap Record} {m : Cells}

/-- The related types that a read looks for and those that a record has come to the same. -/
theorem relationshipsAt_eq (h : Mirrors o W type records m) (id : String)
    {filter : Option NameFilter} (hfilter : ∀ f ∈ filter, f.IsNamewise) :
    relationshipsAt o type m
        (NameFilter.select filter (m (o.relatedTypesKey type)).members.toList) id =
      (recordAt records id).relationships.filter fun related _ =>
        (NameFilter.select filter (recordAt records id).relationships.types).contains related := by
  refine Std.ExtTreeMap.ext_getElem? fun related => ?_
  simp only [getElem?_relationshipsAt, NameFilter.mem_select hfilter, Std.ExtTreeSet.mem_toList,
    Std.ExtTreeMap.getElem?_filter']
  cases hids : (recordAt records id).relationships[related]? with
  | none =>
      refine if_neg fun hc => ?_
      obtain ⟨⟨hlisted, -⟩, hne⟩ := hc
      rw [h.related id related (h.types related hlisted), StringMap.find, hids] at hne
      simp at hne
  | some ids =>
      obtain ⟨hne, hlisted⟩ := h.listed id related ids hids
      have hcell := h.related id related (h.types related hlisted)
      rw [StringMap.find, hids, Option.getD_some] at hcell
      have hkeys : related ∈ (recordAt records id).relationships.types := by
        rw [Relationships.types, Std.ExtTreeMap.mem_keys, Std.ExtTreeMap.mem_iff_isSome_getElem?, hids]
        rfl
      by_cases haccepts : filter.all (·.accepts related)
      · rw [if_pos ⟨⟨hlisted, haccepts⟩, by rw [hcell, hne]⟩, hcell, Option.filter_some,
          if_pos (List.contains_iff_mem.2 ((NameFilter.mem_select hfilter).2 ⟨hkeys, haccepts⟩))]
      · rw [if_neg fun hc => haccepts hc.1.2, Option.filter_some,
          if_neg fun hc => haccepts ((NameFilter.mem_select hfilter).1 (List.contains_iff_mem.1 hc)).2]

/-- An entity is read as it is kept. -/
theorem entityAt_eq (h : Mirrors o W type records m) (id : String)
    {filter : Option NameFilter} (hfilter : ∀ f ∈ filter, f.IsNamewise) :
    entityAt o type m
        (NameFilter.select filter (m (o.relatedTypesKey type)).members.toList) id =
      .ok (((recordAt records id).entity id filter).withTtl none) := by
  rw [entityAt, h.attributes, h.relationshipsAt_eq id hfilter]
  rfl

theorem mapM_entityAt (h : Mirrors o W type records m) {filter : Option NameFilter}
    (hfilter : ∀ f ∈ filter, f.IsNamewise) (l : List String) :
    (l.filter (members o type m).contains).mapM (entityAt o type m
        (NameFilter.select filter (m (o.relatedTypesKey type)).members.toList)) =
      .ok ((l.filterMap fun id => (records[id]?).map fun r => r.entity id filter).map
        (·.withTtl none)) := by
  induction l with
  | nil => rfl
  | cons id l ih =>
      have hid := h.ids id
      rw [Std.ExtTreeMap.mem_iff_isSome_getElem?] at hid
      cases hrecord : records[id]? with
      | none =>
          have hnot : (members o type m).contains id = false := by
            rw [← Bool.not_eq_true, Std.ExtTreeSet.contains_iff_mem, hid, hrecord]
            decide
          rw [List.filter_cons_of_neg (by simp [hnot]), List.filterMap_cons, hrecord]
          exact ih
      | some r =>
          have hthere : (members o type m).contains id = true := by
            rw [Std.ExtTreeSet.contains_iff_mem, hid, hrecord]
            rfl
          rw [List.filter_cons_of_pos hthere, List.mapM_cons, ih, h.entityAt_eq id hfilter,
            recordAt_of_getElem? hrecord, List.filterMap_cons, hrecord]
          rfl

/-- Each read of the cells is answered as from the records, but for the times to live. -/
theorem read {memory : Memory} {r : CacheRequest} (hr : r.isRead) (hfilter : r.IsNamewise)
    (h : Mirrors o W r.type (memory.recordsOf r.type) m) :
    readReply o m r = r.timeless (memory.answer r).2 := by
  have hmembers : members o r.type m = memory.identifiers r.type := by
    refine Std.ExtTreeSet.ext_mem fun id => ?_
    rw [h.ids, Memory.identifiers, StringMap.mem_keySet]
  cases r with
  | entities type ids filter =>
      change Mirrors o W type (memory.recordsOf type) m at h
      cases ids with
      | some ids => exact h.mapM_entityAt hfilter (firstOccurrences ids)
      | none =>
          have hkeys : (members o type m).toList = (memory.recordsOf type).keys :=
            StringMap.toList_eq_keys h.ids
          have hall := h.mapM_entityAt hfilter (members o type m).toList
          rw [List.filter_eq_self.2 fun id hid => by simpa using hid] at hall
          refine hall.trans ?_
          rw [hkeys]
          rfl
  | identifiers type => exact congrArg Except.ok hmembers
  | matching type glob =>
      change members o type m = memory.identifiers type at hmembers
      rw [readReply, hmembers]
      change _ = (Glob.compile glob).map _
      cases Glob.compile glob <;> rfl
  | existing type ids =>
      change Mirrors o W type (memory.recordsOf type) m at h
      refine congrArg (fun p => Except.ok (Std.ExtTreeSet.ofList (ids.filter p))) (funext fun id => ?_)
      rw [Bool.eq_iff_iff, Std.ExtTreeSet.contains_iff_mem, h.ids, Std.ExtTreeMap.contains_iff_mem]
  | _ => simp [CacheRequest.isRead] at hr

end Mirrors

end Inventory
