import Inventory.Proofs.Cache.Memory
import Inventory.Proofs.KeyValue.Listed
import Inventory.Proofs.Merge.Scene

/-!
# Inventory.Proofs.Merge.Sights

What is seen of the entities in memory and of those under the keys of a store.

Both caches do for what is seen of them what the engine needs (`keepsEntities_memory`,
`keepsEntities_keyValue`). Under keys only names without a colon can be told apart, so nothing is seen
there of any other.
-/

namespace Inventory

open KeyValue

/-! ## In memory -/

namespace Memory

/-- What is seen of the entities in memory. -/
def sights (m : Memory) : Scene := fun type id =>
  ((m.recordsOf type)[id]?).map fun r =>
    { attributes := .ok r.attributes
      related := fun related x => x ∈ StringMap.find r.relationships related }

theorem reads_sights (m : Memory) (type : String) (ids : List String)
    {filter : Option NameFilter} (hfilter : ∀ f ∈ filter, f.IsNamewise) :
    m.sights.Reads (fun _ => True) type ids filter (m.entities type (some ids) filter) where
  ids := by
    rw [entities, List.map_filterMap, ← List.filterMap_eq_filter]
    refine List.filterMap_congr fun id _ => ?_
    have hsight : (m.sights type id).isSome = ((m.recordsOf type)[id]?).isSome := Option.isSome_map
    rw [Option.guard, hsight]
    cases (m.recordsOf type)[id]? <;> rfl
  sight e he := by
    obtain ⟨id, -, he⟩ := List.mem_filterMap.1 he
    obtain ⟨r, hr, rfl⟩ := Option.map_eq_some_iff.1 he
    refine ⟨{ attributes := .ok r.attributes
              related := fun related x => x ∈ StringMap.find r.relationships related }, ?_, rfl, ?_⟩
    · have hid : (r.entity id filter).id = id := rfl
      rw [sights, hid, hr, Option.map_some]
    · exact fun related x => r.mem_find_entity id hfilter related x
  tells _ _ _ _ := trivial

end Memory

/-- The entities in memory are kept, whatever they are. -/
theorem keepsEntities_memory :
    KeepsEntities Backend.remember (fun _ => True) (fun _ => True) (fun _ => True) Memory.sights where
  reads r m h := by cases r <;> first | rfl | contradiction
  entities m type ids _ hfilter _ _ := ⟨_, rfl, m.reads_sights type ids hfilter⟩
  stays _ _ _ _ := trivial
  evict m type ids _ _ := by
    refine ⟨rfl, ?_⟩
    funext type' id
    change (m.answer (.evict type ids)).1.sights type' id = _
    unfold Scene.evict Memory.sights
    rw [Memory.recordsOf_evict]
    by_cases ht : type' = type
    · subst ht
      rw [if_pos rfl, StringMap.getElem?_eraseMany]
      by_cases hid : id ∈ ids <;> simp [hid]
    · rw [if_neg (Ne.symm ht), if_neg fun h => ht h.1]
  unlink m type ids related targets _ _ _ := by
    refine ⟨rfl, ?_⟩
    funext type' id
    change (m.answer (.unlink type ids related targets)).1.sights type' id = _
    unfold Scene.lose Memory.sights
    rw [Memory.recordsOf_unlink]
    by_cases ht : type = type'
    · subst ht
      rw [if_pos rfl, Memory.getElem?_unlinkAll, Option.map_map, Option.map_map]
      refine congrArg (Option.map · _) (funext fun r => Sight.ext ?_ ?_)
      · dsimp only [Function.comp_apply]
        split
        · rw [Record.unlink_attributes]
        · rfl
      · funext related' x
        dsimp only [Function.comp_apply]
        split
        · next hid => rw [Record.mem_find_unlink]; simp [hid]
        · next hid => simp [hid]
    · rw [if_neg ht, Option.map_map]
      refine congrArg (Option.map · _) (funext fun r => Sight.ext rfl ?_)
      simp [Ne.symm ht]

/-! ## Under keys -/

namespace KeyValue

variable {o : Options} {m : Cells} {type : String}

/-- What is seen of the entities under keys. -/
def sights (o : Options) (m : Cells) : Scene := fun type id =>
  if Plain type ∧ id ∈ members o type m then
    some {
      attributes := (m (o.attributesKey type id)).attributes
      related := fun related x =>
        Plain related ∧ x ∈ (m (o.relationshipKey type id related)).members }
  else none

theorem isSome_sights {id : String} (ht : Plain type) :
    (sights o m type id).isSome = (members o type m).contains id := by
  rw [Bool.eq_iff_iff, Std.ExtTreeSet.contains_iff_mem, sights]
  by_cases hid : id ∈ members o type m <;> simp [ht, hid]

/-- Cells that show the same for a type. -/
theorem sights_congr {m' : Cells} {type : String} (h : Plain type → ∀ slot : Slot,
    m' (slot.key o type) = m (slot.key o type)) : sights o m' type = sights o m type := by
  funext id
  unfold sights
  by_cases ht : Plain type
  · have hmembers : m' (o.membersKey type) = m (o.membersKey type) := h ht .members
    have hattributes : m' (o.attributesKey type id) = m (o.attributesKey type id) :=
      h ht (.attributes id)
    have hrelated : ∀ related, m' (o.relationshipKey type id related) =
        m (o.relationshipKey type id related) := fun related => h ht (.related id related)
    refine if_congr ?_ ?_ rfl
    · rw [members, hmembers, members]
    · simp only [hattributes, hrelated]
  · simp [ht]

/-- Entities whose attributes can be read are read one by one. -/
theorem exists_entities (h : Listed o type m) (types : List String) (ids : List String) :
    ∃ es, ids.mapM (entityAt o type m types) = .ok es ∧ es.map Entity.id = ids ∧
      ∀ e ∈ es, e.id ∈ ids ∧ (m (o.attributesKey type e.id)).attributes = .ok e.attributes ∧
        e.relationships = relationshipsAt o type m types e.id := by
  induction ids with
  | nil => exact ⟨[], rfl, rfl, by simp⟩
  | cons id ids ih =>
      obtain ⟨es, hes, hids, hall⟩ := ih
      obtain ⟨attributes, hattributes⟩ := Plan.exists_of_isOk (h.readable id)
      refine ⟨{ id, attributes, relationships := relationshipsAt o type m types id } :: es, ?_, ?_, ?_⟩
      · rw [List.mapM_cons, hes, entityAt, hattributes]
        rfl
      · rw [List.map_cons, hids]
      · refine List.forall_mem_cons.2 ⟨⟨List.mem_cons_self, hattributes, rfl⟩, fun e he => ?_⟩
        exact (hall e he).imp_left (List.mem_cons_of_mem _)

theorem reads_sights (h : Listed o type m) (ht : Plain type) (ids : List String)
    {filter : Option NameFilter} (hfilter : ∀ f ∈ filter, f.IsNamewise) :
    ∃ es, readReply o m (.entities type (some ids) filter) = .ok es ∧
      (sights o m).Reads Plain type ids filter es := by
  obtain ⟨es, hreply, hids, hall⟩ := exists_entities h
    (NameFilter.select filter (m (o.relatedTypesKey type)).members.toList)
    (presentIds o type m (some ids))
  have hfind : ∀ e ∈ es, ∀ related, e.relationships[related]? =
      if (related ∈ (m (o.relatedTypesKey type)).members ∧ filter.all (·.accepts related)) ∧
        (m (o.relationshipKey type e.id related)).members.isEmpty = false then
        some (m (o.relationshipKey type e.id related)).members
      else none := by
    intro e he related
    rw [(hall e he).2.2]
    simp only [getElem?_relationshipsAt, NameFilter.mem_select hfilter, Std.ExtTreeSet.mem_toList]
  refine ⟨es, hreply, ?_, fun e he => ?_, fun e he related hrelated => ?_⟩
  · rw [hids]
    exact List.filter_congr fun id _ => (isSome_sights ht).symm
  · obtain ⟨hid, hattributes, -⟩ := hall e he
    have hmember : e.id ∈ members o type m := by
      simpa using (List.mem_filter.1 hid).2
    refine ⟨_, if_pos ⟨ht, hmember⟩, hattributes, fun related x => ?_⟩
    rw [StringMap.find, hfind e he related]
    constructor
    · intro hx
      split at hx
      · next hc => exact ⟨⟨h.types related hc.1.1, hx⟩, hc.1.2⟩
      · exact absurd hx Std.ExtTreeSet.not_mem_empty
    · rintro ⟨⟨hr, hx⟩, haccepts⟩
      rw [if_pos ⟨⟨h.listed e.id related hr x hx, haccepts⟩, StringSet.isEmpty_eq_false_of_mem hx⟩]
      exact hx
  · rw [Std.ExtTreeMap.mem_iff_isSome_getElem?, hfind e he related] at hrelated
    split at hrelated
    · next hc => exact h.types related hc.1.1
    · contradiction

theorem sights_evict (h : Listed o type m) (ht : Plain type) (ids : List String) :
    sights o (Backend.respond o (.evict type ids) m).1 = (sights o m).evict type ids := by
  have htypes : ∀ t ∈ typesOf o type m, Plain t := forall_mem_typesOf.2 h.types
  funext type' id
  unfold Scene.evict
  by_cases htype : type' = type
  · subst htype
    have hcells : (Backend.respond o (.evict type' ids) m).1 =
        m.applyAll (evictAll o type' (typesOf o type' m) ids) := congrArg Prod.fst (respond_evict m ids)
    rw [hcells]
    have hmember : id ∈ (m.applyAll (evictAll o type' (typesOf o type' m) ids)
        (o.membersKey type')).members ↔ id ∈ (m (o.membersKey type')).members ∧ id ∉ ids :=
      (evict_members m _ ids).2 id
    by_cases hid : id ∈ ids
    · rw [if_pos ⟨rfl, hid⟩]
      exact if_neg fun hc => (hmember.1 hc.2).2 hid
    · rw [if_neg fun hc => hid hc.2]
      refine if_congr (and_congr_right fun _ => hmember.trans (and_iff_left hid)) ?_ rfl
      rw [evict_attributes, if_neg hid]
      refine congrArg some (Sight.ext rfl ?_)
      funext related x
      refine propext (and_congr_right fun hr => ?_)
      rw [evict_related hr htypes, if_neg fun hc => hid hc.1]
  · rw [if_neg fun hc => htype hc.1]
    refine congrFun (sights_congr fun ht' slot => respond_other (fun slot' hkey => ?_) m) id
    exact htype (Slot.eq_of_key_eq_of_plain ht' ht hkey)

theorem sights_unlink (ht : Plain type) {related : String} (hr : Plain related) (ids targets : List String) :
    sights o (Backend.respond o (.unlink type ids related targets) m).1 = (sights o m).lose fun r =>
      r.holderType = type ∧ r.holder ∈ ids ∧ r.type = related ∧ r.id ∈ targets := by
  funext type' id
  unfold Scene.lose
  by_cases htype : type' = type
  · subst htype
    have hcells : (Backend.respond o (.unlink type' ids related targets) m).1 =
        m.applyAll (unlinkAll o type' ids related targets) :=
      congrArg Prod.fst (respond_unlink m ids related targets)
    rw [hcells]
    have hmembers : m.applyAll (unlinkAll o type' ids related targets) (o.membersKey type') =
        m (o.membersKey type') := unlink_slot .members m ids related targets
    have hattributes : m.applyAll (unlinkAll o type' ids related targets) (o.attributesKey type' id) =
        m (o.attributesKey type' id) := unlink_slot (.attributes id) m ids related targets
    unfold sights
    rw [members, hmembers]
    by_cases hid : id ∈ members o type' m
    · rw [if_pos ⟨ht, hid⟩, if_pos ⟨ht, hid⟩, Option.map_some, hattributes]
      refine congrArg some (Sight.ext rfl ?_)
      funext related' x
      dsimp only
      refine propext (Iff.trans (and_congr_right fun hr' => ?_) and_assoc.symm)
      rw [(unlink_related hr hr' m ids targets id).2 x]
      simp
    · rw [if_neg fun hc => hid hc.2, if_neg fun hc => hid hc.2]
      rfl
  · have hsame : sights o (Backend.respond o (.unlink type ids related targets) m).1 type' id =
        sights o m type' id :=
      congrFun (sights_congr fun ht' slot => respond_other (fun slot' hkey =>
        htype (Slot.eq_of_key_eq_of_plain ht' ht hkey)) m) id
    rw [hsame]
    cases sights o m type' id with
    | none => rfl
    | some v => simp [htype]

end KeyValue

/-- The entities under keys are kept, if names have no colon and attributes can be read back. -/
theorem keepsEntities_keyValue (o : Options) : KeepsEntities (Backend.respond o) Plain (Storable o)
    (fun m => ∀ type, Plain type → Listed o type m) (KeyValue.sights o) where
  reads r m h := congrArg Prod.fst (Backend.respond_read h m)
  stays r m hr h type ht := (h type ht).respond ht hr
  entities m type ids _ hfilter h ht := by
    rw [Backend.respond_read rfl]
    exact reads_sights (h type ht) ht ids hfilter
  evict m type ids h ht :=
    ⟨congrArg Prod.snd (respond_evict m ids), sights_evict (h type ht) ht ids⟩
  unlink m type ids related targets _ ht hr :=
    ⟨congrArg Prod.snd (respond_unlink m ids related targets), sights_unlink ht hr ids targets⟩

end Inventory
