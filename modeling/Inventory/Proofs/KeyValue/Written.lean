import Inventory.Proofs.KeyValue.Listed

/-!
# Inventory.Proofs.KeyValue.Written

What is under the keys of entities after they have been written, and what a second write makes of it.

Entities of different ids are written as if each were alone. What a write leaves of an entity
(`Holds`) stays as long as the entity is neither written otherwise nor evicted; references to other
entities may be taken from it. If none was taken (`Bound`), writing the entity again changes nothing that
can be read (`sameShown_write`).
-/

namespace Inventory

namespace KeyValue

variable {o : Options} {mode : WriteMode} {type : String} {m m' m'' : Cells} {e : Entity}
  {es : List Entity} {id related : String}

/-! ## Stores that show the same -/

/-- Two stores show the same entities of a type. -/
structure SameShown (o : Options) (type : String) (m m' : Cells) : Prop where
  members : members o type m' = members o type m
  types : (m' (o.relatedTypesKey type)).members = (m (o.relatedTypesKey type)).members
  attributes : ∀ id ∈ KeyValue.members o type m,
    (m' (o.attributesKey type id)).attributes = (m (o.attributesKey type id)).attributes
  related : ∀ id ∈ KeyValue.members o type m, ∀ related ∈ (m (o.relatedTypesKey type)).members,
    (m' (o.relationshipKey type id related)).members = (m (o.relationshipKey type id related)).members

namespace SameShown

/-- Keys of other types do not matter. -/
theorem of_slots (h : ∀ slot : Slot, m' (slot.key o type) = m (slot.key o type)) :
    SameShown o type m m' where
  members := congrArg Cell.members (h .members)
  types := congrArg Cell.members (h .relatedTypes)
  attributes id _ := congrArg Cell.attributes (h (.attributes id))
  related id _ related _ := congrArg Cell.members (h (.related id related))

theorem refl (o : Options) (type : String) (m : Cells) : SameShown o type m m := of_slots fun _ => rfl

theorem trans (h : SameShown o type m m') (h' : SameShown o type m' m'') :
    SameShown o type m m'' where
  members := h'.members.trans h.members
  types := h'.types.trans h.types
  attributes id hid := (h'.attributes id (h.members ▸ hid)).trans (h.attributes id hid)
  related id hid related hr :=
    (h'.related id (h.members ▸ hid) related (h.types ▸ hr)).trans (h.related id hid related hr)

/-- Stores that show the same entities of a type have them read alike. -/
theorem readReply_entities (h : SameShown o type m m') (ids : Option (List String))
    (filter : Option NameFilter) :
    readReply o m' (.entities type ids filter) = readReply o m (.entities type ids filter) := by
  let types := NameFilter.select filter (m (o.relatedTypesKey type)).members.toList
  have hpresent : presentIds o type m' ids = presentIds o type m ids := by
    cases ids <;> simp only [presentIds, h.members]
  have hentity : ∀ id ∈ presentIds o type m ids,
      entityAt o type m' types id = entityAt o type m types id := by
    intro id hid
    have hmember : id ∈ KeyValue.members o type m := by
      cases ids with
      | none => exact Std.ExtTreeSet.mem_toList.1 hid
      | some ids => exact Std.ExtTreeSet.contains_iff_mem.1 (List.mem_filter.1 hid).2
    have hsets : (types.map fun t => (t, (m' (o.relationshipKey type id t)).members)) =
        types.map fun t => (t, (m (o.relationshipKey type id t)).members) := by
      refine List.map_congr_left fun t ht => ?_
      rw [h.related id hmember t
        (Std.ExtTreeSet.mem_toList.1 (NameFilter.mem_of_mem_select ht))]
    simp only [entityAt, relationshipsAt, h.attributes id hmember, hsets]
  rw [readReply, readReply, hpresent, h.types]
  generalize presentIds o type m ids = present at hentity
  induction present with
  | nil => rfl
  | cons id present ih =>
      rw [List.mapM_cons, List.mapM_cons, hentity id List.mem_cons_self,
        ih fun id hid => hentity id (List.mem_cons_of_mem _ hid)]

/-- Stores that show the same entities of a type answer every read about it alike. -/
theorem readReply_congr {r : CacheRequest} (h : SameShown o r.type m m') :
    readReply o m' r = readReply o m r := by
  have hmembers : KeyValue.members o r.type m' = KeyValue.members o r.type m := h.members
  cases r with
  | entities type ids filter => exact h.readReply_entities ids filter
  | identifiers type => exact congrArg Except.ok hmembers
  | matching type glob =>
      exact congrArg (fun s : StringSet => do
        let pattern ← Glob.compile glob
        return s.filter (Glob.isMatch pattern)) hmembers
  | existing type ids =>
      exact congrArg (fun s : StringSet => Except.ok (.ofList (ids.filter s.contains) : StringSet)) hmembers
  | _ => rfl

end SameShown

/-! ## What is read of an entity -/

/-- An entity that is read is that of an id that is there. -/
theorem exists_of_mem_entities {ids : Option (List String)} {filter : Option NameFilter}
    (h : (Backend.respond o (.entities type ids filter) m).2 = .ok es) (he : e ∈ es) :
    e.id ∈ presentIds o type m ids ∧
      e.relationships = relationshipsAt o type m (NameFilter.select filter
        (m (o.relatedTypesKey type)).members.toList) e.id := by
  rw [Backend.respond_read rfl] at h
  dsimp only [KeyValue.readReply] at h
  generalize NameFilter.select filter (m (o.relatedTypesKey type)).members.toList = types at h ⊢
  generalize presentIds o type m ids = present at h ⊢
  induction present generalizing es with
  | nil =>
      cases h
      simp at he
  | cons id present ih =>
      rw [List.mapM_cons] at h
      cases hattributes : (m (o.attributesKey type id)).attributes with
      | error error => simp [entityAt, hattributes, bind, Except.bind] at h
      | ok a =>
          cases hrest : present.mapM (entityAt o type m types) with
          | error error => simp [entityAt, hattributes, hrest, bind, Except.bind, pure, Except.pure] at h
          | ok rest =>
              simp only [entityAt, hattributes, hrest, bind, Except.bind, pure, Except.pure,
                Except.ok.injEq] at h
              subst h
              rcases List.mem_cons.1 he with rfl | he
              · exact ⟨List.mem_cons_self, rfl⟩
              · exact (ih he hrest).imp_left (List.mem_cons_of_mem _)

theorem mem_of_mem_relationshipsAt {types : List String} (h : related ∈ relationshipsAt o type m types id) :
    related ∈ types := by
  rw [Std.ExtTreeMap.mem_iff_isSome_getElem?, getElem?_relationshipsAt] at h
  split at h
  · next hc => exact hc.1
  · contradiction

/-- The related ids of an entity are read if their type is listed. -/
theorem mem_find_relationshipsAt {types : List String} {x : String} :
    x ∈ StringMap.find (relationshipsAt o type m types id) related ↔
      related ∈ types ∧ x ∈ (m (o.relationshipKey type id related)).members := by
  rw [StringMap.find, getElem?_relationshipsAt]
  constructor
  · intro hx
    split at hx
    · next hc => exact ⟨hc.1, hx⟩
    · exact absurd hx Std.ExtTreeSet.not_mem_empty
  · rintro ⟨ht, hx⟩
    rw [if_pos ⟨ht, StringSet.isEmpty_eq_false_of_mem hx⟩]
    exact hx

/-- What is read of the related ids of an entity is there. -/
theorem mem_of_entities (hindexed : Indexed o type m) {x : String}
    (h : (Backend.respond o (.entities type (some [id]) none) m).2 = .ok [e]) :
    x ∈ StringMap.find e.relationships related ↔
      Plain related ∧ x ∈ (m (o.relationshipKey type id related)).members := by
  obtain ⟨hid, hrelationships⟩ := exists_of_mem_entities h (List.mem_singleton_self e)
  have hid' : e.id = id := by
    simpa using (List.mem_filter.1 hid).1
  rw [hrelationships, hid', mem_find_relationshipsAt, NameFilter.mem_select (by simp),
    Std.ExtTreeSet.mem_toList]
  constructor
  · rintro ⟨⟨hlisted, -⟩, hx⟩
    exact ⟨hindexed.types related hlisted, hx⟩
  · rintro ⟨hr, hx⟩
    exact ⟨⟨hindexed.listed id related hr x hx, rfl⟩, hx⟩

/-! ## Frames of different entities -/

theorem putFrames_related_of_not_mem (hplain : ∀ e ∈ es, ∀ t ∈ e.relationships, Plain t)
    (hr : Plain related) (hid : id ∉ es.map Entity.id) (m : Cells) :
    putFrames o mode type m es (o.relationshipKey type id related) =
      m (o.relationshipKey type id related) := by
  induction es generalizing m with
  | nil => rfl
  | cons e es ih =>
      rw [List.map_cons, List.mem_cons, not_or] at hid
      refine (ih (fun e he => hplain e (List.mem_cons_of_mem _ he)) hid.2 _).trans ?_
      dsimp only
      rw [applyAll_frame_related_of_plain (hplain e List.mem_cons_self) m id hr,
        if_neg (Ne.symm hid.1)]

/-- What writing entities of different ids makes of the related ids of one of them. -/
theorem putFrames_related (hplain : ∀ e ∈ es, ∀ t ∈ e.relationships, Plain t) (hr : Plain related)
    (hids : (es.map Entity.id).Nodup) (he : e ∈ es) (m : Cells) :
    putFrames o mode type m es (o.relationshipKey type e.id related) =
      match e.relationships[related]? with
      | some ids => relatedCell mode ids e.ttl (m (o.relationshipKey type e.id related))
      | none => m (o.relationshipKey type e.id related) := by
  induction es generalizing m with
  | nil => simp at he
  | cons x es ih =>
      rw [List.map_cons, List.nodup_cons] at hids
      have hrest := fun e he => hplain e (List.mem_cons_of_mem _ he)
      have hstep : ∀ id, m.applyAll (frame o mode type x) (o.relationshipKey type id related) =
          match if x.id = id then x.relationships[related]? else none with
          | some ids => relatedCell mode ids x.ttl (m (o.relationshipKey type id related))
          | none => m (o.relationshipKey type id related) := fun id =>
        applyAll_frame_related_of_plain (hplain x List.mem_cons_self) m id hr
      rcases List.mem_cons.1 he with rfl | he
      · refine (putFrames_related_of_not_mem hrest hr hids.1 _).trans ?_
        dsimp only
        rw [hstep, if_pos rfl]
      · have hne : x.id ≠ e.id := fun h => hids.1 (h ▸ List.mem_map.2 ⟨e, he, rfl⟩)
        refine (ih hrest hids.2 he _).trans ?_
        dsimp only
        rw [hstep, if_neg hne]

theorem mem_putFrames_relatedTypes (hm : (m (o.relatedTypesKey type)).takesMembers) :
    related ∈ (putFrames o mode type m es (o.relatedTypesKey type)).members ↔
      related ∈ (m (o.relatedTypesKey type)).members ∨ ∃ e ∈ es, related ∈ relatedTypes e := by
  induction es generalizing m with
  | nil => simp [putFrames]
  | cons e es ih =>
      have hstep : m.applyAll (frame o mode type e) (o.relatedTypesKey type) =
          (m (o.relatedTypesKey type)).add (relatedTypes e) := applyAll_frame_relatedTypes m e
      refine (ih (m := m.applyAll (frame o mode type e)) (by rwa [hstep, Cell.takesMembers_add])).trans ?_
      rw [hstep, Cell.mem_members_add hm]
      simp [or_assoc]

/-! ## Writes of different entities -/

section Write

variable (hplain : ∀ e ∈ es, ∀ t ∈ e.relationships, Plain t) (hids : (es.map Entity.id).Nodup)

/-- The cells after entities have been written. -/
abbrev put (o : Options) (mode : WriteMode) (type : String) (m : Cells) (es : List Entity) : Cells :=
  putChunks o mode type m (batches o.mergeBatch es)

theorem put_eq_putFrames {key : String} (hattributes : ∀ id, key ≠ o.attributesKey type id)
    (hdigests : key ≠ o.digestsKey type) (m : Cells) :
    put o mode type m es key = putFrames o mode type m es key := by
  refine (putChunks_other (fun e _ => hattributes e.id) hdigests m).trans ?_
  rw [flatten_batches]

theorem put_relatedTypes_eq (m : Cells) : put o mode type m es (o.relatedTypesKey type) =
    putFrames o mode type m es (o.relatedTypesKey type) :=
  put_eq_putFrames (fun id => Slot.key_ne .relatedTypes (.attributes id))
    (Slot.key_ne .relatedTypes .digests) m

theorem put_related_eq (m : Cells) (id related : String) :
    put o mode type m es (o.relationshipKey type id related) =
      putFrames o mode type m es (o.relationshipKey type id related) :=
  put_eq_putFrames (fun id' => Slot.key_ne (.related id related) (.attributes id'))
    (Slot.key_ne (.related id related) .digests) m

include hids

theorem put_eq (m : Cells) :
    put o mode type m es = putAttributesOfEach o type (putFrames o mode type m es) es := by
  rw [put, putChunks_of_uniform, flatten_batches, putEach_eq]
  rw [flatten_batches]
  exact uniform_of_nodup hids

theorem sameFor_put_of_not_mem (hid : id ∉ es.map Entity.id) (m : Cells) :
    SameFor o type id (put o mode type m es) m := by
  rw [put_eq hids]
  exact (sameFor_of_not_mem hid _).trans (sameFor_putFrames o type mode m es id)

theorem sameFor_put_of_mem (he : e ∈ es) (m : Cells) :
    SameFor o type e.id (put o mode type m es) (putAttributeChunk o type m [e]) := by
  rw [put_eq hids]
  exact (sameFor_of_mem hids he _).trans ((sameFor_putFrames o type mode m es e.id).putAttributeChunk e)

end Write

/-! ## What a write leaves -/

/-- The entity has been written, and since then references at most have been taken from it. -/
structure Holds (o : Options) (mode : WriteMode) (type : String) (e : Entity) (m : Cells) : Prop where
  member : e.id ∈ members o type m
  attributes : e.attributes.isEmpty = false → skips o ((m (o.digestsKey type)).field? e.id) e = false →
    (m (o.attributesKey type e.id)).blob? = some (blobOf o e)
  replaced : mode = .replace → ∀ (related : String) (ids : StringSet),
    e.relationships[related]? = some ids →
      ∀ x ∈ (m (o.relationshipKey type e.id related)).members, x ∈ ids

/-- All references that the entity holds are stored. -/
def Bound (o : Options) (type : String) (e : Entity) (m : Cells) : Prop :=
  ∀ related x, x ∈ StringMap.find e.relationships related →
    x ∈ (m (o.relationshipKey type e.id related)).members

theorem plain_of_mem_find (hplain : ∀ t ∈ e.relationships, Plain t) {x : String}
    (hx : x ∈ StringMap.find e.relationships related) : Plain related :=
  hplain related (StringMap.mem_of_mem_toList (StringMap.mem_toList_of_mem_find hx))

section Once

variable (hplain : ∀ e ∈ es, ∀ t ∈ e.relationships, Plain t) (hids : (es.map Entity.id).Nodup)
  (hm : (m (o.membersKey type)).takesMembers) (hindexed : Indexed o type m)

include hplain hids hindexed

theorem bound_put (he : e ∈ es) : Bound o type e (put o mode type m es) := by
  intro related x hx
  have hr := plain_of_mem_find (hplain e he) hx
  rw [put_related_eq, putFrames_related hplain hr hids he]
  unfold StringMap.find at hx
  cases hrelated : e.relationships[related]? with
  | none =>
      rw [hrelated] at hx
      exact absurd hx Std.ExtTreeSet.not_mem_empty
  | some ids =>
      rw [hrelated, Option.getD_some] at hx
      dsimp only
      rw [(relatedCell_members mode ids e.ttl (hindexed.takesRelated e.id related hr)).2]
      split
      · exact hx
      · exact Std.ExtTreeSet.mem_union_iff.2 (.inr hx)

include hm

theorem holds_put (he : e ∈ es) : Holds o mode type e (put o mode type m es) where
  member := by
    rw [members, (putChunks_members mode hm (batches o.mergeBatch es)).2, flatten_batches]
    exact .inr (List.mem_map.2 ⟨e, he, rfl⟩)
  attributes hne hskips := by
    have hsame : SameFor o type e.id (put o mode type m es) (putAttributeChunk o type m [e]) :=
      sameFor_put_of_mem hids he m
    rw [hsame.digest, putAttributeChunk_digest] at hskips
    rw [hsame.attributes, putAttributeChunk_attributes]
    by_cases hbefore : skips o ((m (o.digestsKey type)).field? e.id) e
    · simp [hbefore] at hskips
    · simp [hne, hbefore, Cell.blob?]
  replaced hmode related ids hrelated x hx := by
    have hr := hplain e he related (Std.ExtTreeMap.mem_iff_isSome_getElem?.2 (by rw [hrelated]; rfl))
    rw [put_related_eq, putFrames_related hplain hr hids he, hrelated] at hx
    dsimp only at hx
    rwa [(relatedCell_members mode ids e.ttl (hindexed.takesRelated e.id related hr)).2, if_pos hmode]
      at hx

end Once

/-! ## What stays of it -/

namespace Holds

/-- Nothing but the keys of the type matters. -/
theorem of_slots (h : Holds o mode type e m)
    (hm : ∀ slot : Slot, m' (slot.key o type) = m (slot.key o type)) : Holds o mode type e m' where
  member := by
    rw [members, show m' (o.membersKey type) = m (o.membersKey type) from hm .members]
    exact h.member
  attributes := by
    rw [show m' (o.digestsKey type) = m (o.digestsKey type) from hm .digests,
      show m' (o.attributesKey type e.id) = m (o.attributesKey type e.id) from hm (.attributes e.id)]
    exact h.attributes
  replaced hmode related := by
    rw [show m' (o.relationshipKey type e.id related) = m (o.relationshipKey type e.id related) from
      hm (.related e.id related)]
    exact h.replaced hmode related

variable (hplain : ∀ t ∈ e.relationships, Plain t)

include hplain

/-- An eviction of other entities. -/
theorem evict (h : Holds o mode type e m) (hindexed : Indexed o type m) {ids : List String}
    (hid : e.id ∉ ids) :
    Holds o mode type e (m.applyAll (evictAll o type (typesOf o type m) ids)) where
  member := ((evict_members m _ ids).2 e.id).2 ⟨h.member, hid⟩
  attributes hne hskips := by
    rw [evict_attributes, if_neg hid]
    refine h.attributes hne ?_
    have hdigest : (m.applyAll (evictAll o type (typesOf o type m) ids) (o.digestsKey type)).field? e.id =
        (m (o.digestsKey type)).field? e.id :=
      Option.ext fun d => ((evict_digests m _ ids).2 e.id d).trans (and_iff_left hid)
    rwa [hdigest] at hskips
  replaced hmode related ids' hrelated x hx := by
    have hr := hplain related (Std.ExtTreeMap.mem_iff_isSome_getElem?.2 (by rw [hrelated]; rfl))
    rw [evict_related hr (forall_mem_typesOf.2 hindexed.types), if_neg fun hc => hid hc.1] at hx
    exact h.replaced hmode related ids' hrelated x hx

/-- The removal of references, be they to or from the entity. -/
theorem unlink (h : Holds o mode type e m) (ids : List String) (hr : Plain related)
    (targets : List String) :
    Holds o mode type e (m.applyAll (unlinkAll o type ids related targets)) where
  member := by
    rw [members, show m.applyAll (unlinkAll o type ids related targets) (o.membersKey type) =
      m (o.membersKey type) from unlink_slot .members m ids related targets]
    exact h.member
  attributes := by
    rw [show m.applyAll (unlinkAll o type ids related targets) (o.digestsKey type) =
      m (o.digestsKey type) from unlink_slot .digests m ids related targets,
      show m.applyAll (unlinkAll o type ids related targets) (o.attributesKey type e.id) =
      m (o.attributesKey type e.id) from unlink_slot (.attributes e.id) m ids related targets]
    exact h.attributes
  replaced hmode related' ids' hrelated x hx := by
    have hr' := hplain related' (Std.ExtTreeMap.mem_iff_isSome_getElem?.2 (by rw [hrelated]; rfl))
    exact h.replaced hmode related' ids' hrelated x
      (((unlink_related hr hr' m ids targets e.id).2 x).1 hx).1

end Holds

theorem Bound.of_slots (h : Bound o type e m)
    (hm : ∀ slot : Slot, m' (slot.key o type) = m (slot.key o type)) : Bound o type e m' := by
  intro related x hx
  rw [show m' (o.relationshipKey type e.id related) = m (o.relationshipKey type e.id related) from
    hm (.related e.id related)]
  exact h related x hx

theorem Bound.evict (hplain : ∀ t ∈ e.relationships, Plain t) (h : Bound o type e m)
    (hindexed : Indexed o type m) {ids : List String} (hid : e.id ∉ ids) :
    Bound o type e (m.applyAll (evictAll o type (typesOf o type m) ids)) := by
  intro related x hx
  rw [evict_related (plain_of_mem_find hplain hx) (forall_mem_typesOf.2 hindexed.types),
    if_neg fun hc => hid hc.1]
  exact h related x hx

/-- References of an entity are stored in stores that show the same. -/
theorem Bound.of_same (hplain : ∀ t ∈ e.relationships, Plain t) (h : Bound o type e m)
    (hindexed : Indexed o type m) (hmember : e.id ∈ members o type m) (hsame : SameShown o type m m') :
    Bound o type e m' := by
  intro related x hx
  have hr := plain_of_mem_find hplain hx
  rw [hsame.related e.id hmember related (hindexed.listed e.id related hr x (h related x hx))]
  exact h related x hx

/-! ## Again -/

/-- Entities that are there with all their references may be written again. -/
theorem sameShown_put (hplain : ∀ e ∈ es, ∀ t ∈ e.relationships, Plain t)
    (hids : (es.map Entity.id).Nodup) (hm : (m (o.membersKey type)).takesMembers)
    (hindexed : Indexed o type m) (hwritten : ∀ e ∈ es, Holds o mode type e m)
    (hbound : ∀ e ∈ es, Bound o type e m) : SameShown o type m (put o mode type m es) where
  members := by
    refine Std.ExtTreeSet.ext_mem fun x => ?_
    rw [members, (putChunks_members mode hm (batches o.mergeBatch es)).2, flatten_batches]
    refine or_iff_left_of_imp fun hx => ?_
    obtain ⟨e, he, rfl⟩ := List.mem_map.1 hx
    exact (hwritten e he).member
  types := by
    refine Std.ExtTreeSet.ext_mem fun t => ?_
    rw [put_relatedTypes_eq, mem_putFrames_relatedTypes hindexed.takesTypes]
    refine or_iff_left_of_imp ?_
    rintro ⟨e, he, ht⟩
    obtain ⟨ids, hrelated, hne⟩ := mem_relatedTypes.1 ht
    have hr := hplain e he t (Std.ExtTreeMap.mem_iff_isSome_getElem?.2 (by rw [hrelated]; rfl))
    obtain ⟨x, hx⟩ : ∃ x, x ∈ ids :=
      ⟨ids.min (Std.ExtTreeSet.isEmpty_eq_false_iff.1 hne), Std.ExtTreeSet.min_mem⟩
    refine hindexed.listed e.id t hr x (hbound e he t x ?_)
    rwa [StringMap.find, hrelated, Option.getD_some]
  attributes id _ := by
    by_cases hid : id ∈ es.map Entity.id
    · obtain ⟨e, he, rfl⟩ := List.mem_map.1 hid
      rw [(sameFor_put_of_mem hids he m).attributes, putAttributeChunk_attributes]
      by_cases hempty : e.attributes.isEmpty
      · simp [hempty]
      · by_cases hskips : skips o ((m (o.digestsKey type)).field? e.id) e
        · simp [hskips]
        · have hblob := (hwritten e he).attributes (by simpa using hempty) (by simpa using hskips)
          rw [if_neg (by simp [hempty, hskips]), Cell.attributes, Cell.attributes, hblob]
          rfl
    · rw [(sameFor_put_of_not_mem hids hid m).attributes]
  related id _ related hrelated := by
    have hr := hindexed.types related hrelated
    rw [put_related_eq]
    by_cases hid : id ∈ es.map Entity.id
    · obtain ⟨e, he, rfl⟩ := List.mem_map.1 hid
      rw [putFrames_related hplain hr hids he]
      cases hids' : e.relationships[related]? with
      | none => rfl
      | some ids =>
          have hsub : ∀ x ∈ ids, x ∈ (m (o.relationshipKey type e.id related)).members := fun x hx =>
            hbound e he related x (by rwa [StringMap.find, hids', Option.getD_some])
          refine Std.ExtTreeSet.ext_mem fun x => ?_
          dsimp only
          rw [(relatedCell_members mode ids e.ttl (hindexed.takesRelated e.id related hr)).2]
          split
          · next hmode =>
            exact ⟨hsub x, (hwritten e he).replaced hmode related ids hids' x⟩
          · rw [Std.ExtTreeSet.mem_union_iff]
            exact or_iff_left_of_imp (hsub x)
    · rw [putFrames_related_of_not_mem hplain hr hid]

/-- An eviction of entities that are not there. -/
theorem sameShown_evict (hindexed : Indexed o type m) {ids : List String}
    (habsent : ∀ id ∈ ids, id ∉ members o type m) :
    SameShown o type m (m.applyAll (evictAll o type (typesOf o type m) ids)) where
  members := Std.ExtTreeSet.ext_mem fun x =>
    ((evict_members m _ ids).2 x).trans (and_iff_left_of_imp fun hx hid => habsent x hid hx)
  types := by rw [evict_relatedTypes]
  attributes id hid := by rw [evict_attributes, if_neg fun hc => habsent id hc hid]
  related id hid related hrelated := by
    rw [evict_related (hindexed.types related hrelated) (forall_mem_typesOf.2 hindexed.types),
      if_neg fun hc => habsent id hc.1 hid]

end KeyValue

end Inventory
