import Inventory.Proofs.Merge.Repeating

/-!
# Inventory.Proofs.Merge.Contributions

What entities without attributes contribute to what is there.

A union with entities without attributes leaves all attributes as they are and adds the related ids to
those that are there, however often an id is repeated (`Medium.attributesAt_contribute`,
`Medium.relates_contribute`). Ids that are not there have neither attributes nor related ids
(`Medium.Blank`), so an entity that is created in this way has nothing but what is contributed.
-/

namespace Inventory

open KeyValue

/-! ## Under keys -/

namespace KeyValue

variable {o : Options} {mode : WriteMode} {type : String} {m m' : Cells} {es : List Entity}
  {id related x : String}

/-- Where there are no attributes to write, a write is the frames of its entities. -/
theorem put_of_forall (h : ∀ e ∈ es, e.attributes = []) (m : Cells) :
    put o mode type m es = putFrames o mode type m es := by
  have hnone : ∀ (m : Cells) (chunk : List Entity), (∀ e ∈ chunk, e.attributes = []) →
      putAttributeChunk o type m chunk = m := by
    intro m chunk hchunk
    rw [putAttributeChunk, putAttributes, ← Cells.applyAll_flatMap, List.flatMap_eq_nil_iff.2]
    · rfl
    · exact fun e he => attributeCommands_of_isEmpty (List.isEmpty_iff.2 (hchunk e he))
  have hchunks : ∀ (chunks : List (List Entity)) (m : Cells), (∀ e ∈ chunks.flatten, e.attributes = []) →
      chunks.foldl (putAttributeChunk o type) m = m := by
    intro chunks
    induction chunks with
    | nil => exact fun m _ => rfl
    | cons chunk chunks ih =>
        intro m hall
        rw [List.flatten_cons] at hall
        rw [List.foldl_cons, hnone m chunk fun e he => hall e (List.mem_append_left _ he)]
        exact ih m fun e he => hall e (List.mem_append_right _ he)
  rw [put, putChunks_eq, hchunks _ _ (by rwa [flatten_batches]), flatten_batches]

/-- Frames of a union add the related ids of all entities of an id. -/
theorem mem_putFrames_union (hplain : ∀ e ∈ es, ∀ t ∈ e.relationships, Plain t) (hr : Plain related)
    (hm : (m (o.relationshipKey type id related)).takesMembers) :
    x ∈ (putFrames o .union type m es (o.relationshipKey type id related)).members ↔
      x ∈ (m (o.relationshipKey type id related)).members ∨
        ∃ e ∈ es, e.id = id ∧ x ∈ StringMap.find e.relationships related := by
  induction es generalizing m with
  | nil => simp [putFrames]
  | cons e es ih =>
      have hstep : (m.applyAll (frame o .union type e) (o.relationshipKey type id related)).takesMembers ∧
          (x ∈ (m.applyAll (frame o .union type e) (o.relationshipKey type id related)).members ↔
            x ∈ (m (o.relationshipKey type id related)).members ∨
              e.id = id ∧ x ∈ StringMap.find e.relationships related) := by
        rw [applyAll_frame_related_of_plain (hplain e List.mem_cons_self) m id hr]
        by_cases hid : e.id = id
        · rw [if_pos hid]
          cases hids : e.relationships[related]? with
          | none => simp [hm, StringMap.find, hids]
          | some ids =>
              obtain ⟨htakes, hmembers⟩ := relatedCell_members .union ids e.ttl hm
              refine ⟨htakes, ?_⟩
              dsimp only
              rw [hmembers, if_neg (by decide), Std.ExtTreeSet.mem_union_iff, StringMap.find, hids,
                Option.getD_some, and_iff_right hid]
        · simp [hm, hid]
      refine (ih (fun e he => hplain e (List.mem_cons_of_mem _ he)) hstep.1).trans ?_
      rw [hstep.2]
      simp [or_assoc]

theorem respond_write_of_forall (hnone : ∀ e ∈ es, e.attributes = [])
    (hes : ∀ e ∈ es, e.id.isEmpty = false) (m : Cells) :
    (Backend.respond o (.write mode type es) m).1 = putFrames o mode type m es :=
  (congrArg Prod.fst (respond_write hes m)).trans (put_of_forall hnone m)

/-- A write leaves the attributes of all ids that it does not name. -/
theorem put_attributes_of_not_mem (hid : id ∉ es.map Entity.id) (m : Cells) :
    put o mode type m es (o.attributesKey type id) = m (o.attributesKey type id) := by
  have hkey : ∀ e ∈ (batches o.mergeBatch es).flatten,
      o.attributesKey type id ≠ o.attributesKey type e.id := by
    rw [flatten_batches]
    exact fun e he hkey => hid (attributesKey_inj.1 hkey ▸ List.mem_map_of_mem he)
  rw [put, putChunks_other hkey (attributesKey_ne_digestsKey id), putFrames_attributes]

/-- An eviction leaves the keys of all other ids. -/
theorem respond_evict_attributes {ids : List String} (hid : id ∉ ids) (m : Cells) :
    (Backend.respond o (.evict type ids) m).1 (o.attributesKey type id) = m (o.attributesKey type id) := by
  rw [respond_evict]
  exact (evict_attributes m _ ids id).trans (if_neg hid)

theorem respond_evict_related {ids : List String} (hid : id ∉ ids) (hindexed : Indexed o type m)
    (hr : Plain related) : (Backend.respond o (.evict type ids) m).1 (o.relationshipKey type id related) =
      m (o.relationshipKey type id related) := by
  rw [respond_evict]
  exact (evict_related hr (forall_mem_typesOf.2 hindexed.types) m ids id).trans (if_neg fun hc => hid hc.1)

/-! ### Ids that are not there -/

/-- Ids that are not there have neither attributes nor related ids. -/
structure Blank (o : Options) (type : String) (m : Cells) : Prop where
  attributes : ∀ id ∉ members o type m, (m (o.attributesKey type id)).attributes = .ok []
  related : ∀ id ∉ members o type m, ∀ related, Plain related →
    ∀ x, x ∉ (m (o.relationshipKey type id related)).members

namespace Blank

theorem empty (o : Options) (type : String) : Blank o type fun _ => {} where
  attributes _ _ := rfl
  related _ _ _ _ _ := by simp [Cell.members]

/-- Keys of other types do not matter. -/
theorem congr (h : Blank o type m)
    (hm : ∀ slot : Slot, m' (slot.key o type) = m (slot.key o type)) : Blank o type m' := by
  have hmembers : members o type m' = members o type m := congrArg Cell.members (hm .members)
  constructor
  case attributes =>
    intro id hid
    rw [hmembers] at hid
    exact (congrArg Cell.attributes (hm (.attributes id))).trans (h.attributes id hid)
  case related =>
    intro id hid related hr x hx
    rw [hmembers] at hid
    exact h.related id hid related hr x (congrArg Cell.members (hm (.related id related)) ▸ hx)

theorem put (h : Blank o type m) (hm : (m (o.membersKey type)).takesMembers)
    (hplain : ∀ e ∈ es, ∀ t ∈ e.relationships, Plain t) : Blank o type (put o mode type m es) := by
  have hmember : ∀ id, id ∉ members o type (KeyValue.put o mode type m es) →
      id ∉ members o type m ∧ id ∉ es.map Entity.id := by
    intro id hid
    rw [members, (putChunks_members mode hm (batches o.mergeBatch es)).2, flatten_batches] at hid
    exact not_or.1 hid
  constructor
  case attributes =>
    intro id hid
    obtain ⟨hbefore, hnew⟩ := hmember id hid
    rw [put_attributes_of_not_mem hnew]
    exact h.attributes id hbefore
  case related =>
    intro id hid related hr x
    obtain ⟨hbefore, hnew⟩ := hmember id hid
    rw [put_related_eq, putFrames_related_of_not_mem hplain hr hnew]
    exact h.related id hbefore related hr x

theorem evict (h : Blank o type m) (hindexed : Indexed o type m) (ids : List String) :
    Blank o type (m.applyAll (evictAll o type (typesOf o type m) ids)) := by
  have hmember : ∀ id, id ∉ members o type (m.applyAll (evictAll o type (typesOf o type m) ids)) →
      id ∉ ids → id ∉ members o type m := fun id hid hkept hmem =>
    hid (((evict_members m _ ids).2 id).2 ⟨hmem, hkept⟩)
  constructor
  case attributes =>
    intro id hid
    rw [evict_attributes]
    split
    · rfl
    · next hkept => exact h.attributes id (hmember id hid hkept)
  case related =>
    intro id hid related hr x hx
    rw [evict_related hr (forall_mem_typesOf.2 hindexed.types)] at hx
    split at hx
    · simp [Cell.members] at hx
    · next hc =>
      -- The keys that are left of an evicted id are of types without related ids.
      have hlisted := hindexed.listed id related hr x hx
      refine h.related id (hmember id hid fun hids => hc ⟨hids, ?_⟩) related hr x hx
      exact Std.ExtTreeSet.mem_toList.2 hlisted

theorem unlink (h : Blank o type m) (ids : List String) {related : String} (hplain : Plain related)
    (targets : List String) : Blank o type (m.applyAll (unlinkAll o type ids related targets)) := by
  have hmembers : members o type (m.applyAll (unlinkAll o type ids related targets)) = members o type m :=
    congrArg Cell.members (unlink_slot .members m ids related targets)
  constructor
  case attributes =>
    intro id hid
    rw [hmembers] at hid
    exact (congrArg Cell.attributes (unlink_slot (.attributes id) m ids related targets)).trans
      (h.attributes id hid)
  case related =>
    intro id hid related' hr x hx
    rw [hmembers] at hid
    exact h.related id hid related' hr x (((unlink_related hplain hr m ids targets id).2 x).1 hx).1

/-- Every request keeps it so. -/
theorem respond (h : Blank o type m) (ht : Plain type) (hm : (m (o.membersKey type)).takesMembers)
    (hindexed : Indexed o type m) {q : CacheRequest} {stores : Attributes → Prop}
    (hq : q.Suits Plain stores) : Blank o type (Backend.respond o q m).1 := by
  by_cases htype : q.type = type
  · subst htype
    cases q with
    | write mode type es =>
        by_cases hempty : ∃ e ∈ es, e.id.isEmpty
        · obtain ⟨error, hwrite⟩ := respond_write_of_isEmpty o mode type hempty m
          rwa [hwrite]
        · rw [respond_write (by simpa using hempty)]
          exact h.put hm fun e he => (hq.2 e he).related
    | evict type ids =>
        rw [respond_evict]
        exact h.evict hindexed ids
    | unlink type ids related targets =>
        rw [respond_unlink]
        exact h.unlink ids hq.2 targets
    | _ => rwa [Backend.respond_read rfl]
  · by_cases hread : q.isRead
    · rwa [Backend.respond_read hread]
    · exact h.congr fun slot => respond_other (fun slot' hkey =>
        htype (Slot.eq_of_key_eq_of_plain ht (hq.tells_type (by simpa using hread)) hkey).symm) m

end Blank

end KeyValue

/-! ## In memory -/

theorem Record.mem_find_union (r : Record) (e : Entity) (related x : String) :
    x ∈ StringMap.find (r.write .union e).relationships related ↔
      x ∈ StringMap.find r.relationships related ∨ x ∈ StringMap.find e.relationships related := by
  rw [StringMap.find, Record.write_relationships, StringMap.find, StringMap.find]
  cases e.relationships[related]? with
  | none => simp
  | some ids =>
      by_cases hempty : ids.isEmpty
      · simp [Std.ExtTreeSet.isEmpty_iff.1 hempty]
      · simp [hempty, Std.ExtTreeSet.mem_union_iff]

namespace Memory

variable {mode : WriteMode} {type id related x : String} {es : List Entity}

theorem recordAt_of_not_mem_identifiers {m : Memory} (h : id ∉ m.identifiers type) :
    recordAt (m.recordsOf type) id = {} := by
  rw [identifiers, StringMap.mem_keySet] at h
  rw [recordAt, Std.ExtTreeMap.getElem?_eq_none h, Option.getD_none]

/-- Where there are no attributes to write, the records keep theirs. -/
theorem attributes_writeAll (h : ∀ e ∈ es, e.attributes = []) (records : StringMap Record) :
    (recordAt (writeAll mode type records es).1 id).attributes = (recordAt records id).attributes := by
  induction es generalizing records with
  | nil => rfl
  | cons e es ih =>
      rw [writeAll]
      split
      · rfl
      · refine (ih (fun e he => h e (List.mem_cons_of_mem _ he)) _).trans ?_
        rw [recordAt_insert]
        split
        · next hid =>
          subst hid
          exact if_pos (List.isEmpty_iff.2 (h e List.mem_cons_self))
        · rfl

/-- A union adds the related ids of all entities of an id. -/
theorem mem_find_writeAll_union (hes : ∀ e ∈ es, e.id.isEmpty = false) (records : StringMap Record) :
    x ∈ StringMap.find (recordAt (writeAll .union type records es).1 id).relationships related ↔
      x ∈ StringMap.find (recordAt records id).relationships related ∨
        ∃ e ∈ es, e.id = id ∧ x ∈ StringMap.find e.relationships related := by
  induction es generalizing records with
  | nil => simp [writeAll]
  | cons e es ih =>
      rw [writeAll, if_neg (by simp [hes e List.mem_cons_self])]
      refine (ih (fun e he => hes e (List.mem_cons_of_mem _ he)) _).trans ?_
      rw [recordAt_insert]
      by_cases hid : e.id = id
      · subst hid
        rw [if_pos rfl, Record.mem_find_union]
        simp [or_assoc, recordAt]
      · simp [hid]

/-! ### Records after requests -/

variable (m : Memory)

theorem recordsOf_write_self : (m.answer (.write mode type es)).1.recordsOf type =
    (writeAll mode type (m.recordsOf type) es).1 :=
  (recordsOf_write m mode type es type).trans (if_pos rfl)

theorem recordAt_evict {ids : List String} (hid : id ∉ ids) :
    recordAt ((m.answer (.evict type ids)).1.recordsOf type) id = recordAt (m.recordsOf type) id := by
  rw [recordsOf_evict, if_pos rfl, recordAt_eraseMany, if_neg hid]

theorem attributes_unlink (ids targets : List String) :
    (recordAt ((m.answer (.unlink type ids related targets)).1.recordsOf type) id).attributes =
      (recordAt (m.recordsOf type) id).attributes := by
  rw [recordsOf_unlink, if_pos rfl, recordAt_unlinkAll]
  split
  · exact Record.unlink_attributes
  · rfl

theorem mem_find_recordAt_unlink (ids targets : List String) (related' : String) :
    x ∈ StringMap.find (recordAt ((m.answer (.unlink type ids related targets)).1.recordsOf
        type) id).relationships related' ↔
      x ∈ StringMap.find (recordAt (m.recordsOf type) id).relationships related' ∧
        ¬ (id ∈ ids ∧ related' = related ∧ x ∈ targets) := by
  rw [recordsOf_unlink, if_pos rfl, recordAt_unlinkAll]
  by_cases hid : id ∈ ids
  · rw [if_pos hid, Record.mem_find_unlink, and_iff_right hid]
  · rw [if_neg hid, and_iff_left fun hc => hid hc.1]

end Memory

/-! ## In both caches -/

namespace Medium

variable {medium : Medium} {type id related x : String} {m : medium.View} {es : List Entity}

/-- The attributes of an entity, none if it is not there. -/
def attributesAt : (medium : Medium) → (type id : String) → medium.View → Except Error Attributes
  | memory _, type, id => fun m : Memory => .ok (Memory.recordAt (m.recordsOf type) id).attributes
  | node o _, type, id => fun m : Cells => (m (o.attributesKey type id)).attributes

/-- Ids that are not there have neither attributes nor related ids. In memory there is no place for them. -/
def Blank : (medium : Medium) → medium.View → Prop
  | memory _ => fun _ => True
  | node o _ => fun m : Cells => ∀ type, Plain type → KeyValue.Blank o type m

theorem blank_fresh (medium : Medium) : medium.Blank (medium.view medium.fresh) := by
  cases medium with
  | memory name => trivial
  | node o name =>
      have hfresh : (node o name).view (node o name).fresh = fun _ => {} := Store.cells_fresh name
      rw [hfresh]
      exact fun type _ => .empty o type

namespace Blank

variable (h : medium.Blank m)

include h

theorem respond (hm : medium.InOrder m) {q : CacheRequest} {stores : Attributes → Prop}
    (hq : q.Suits medium.Tells stores) : medium.Blank (medium.respond q m).1 := by
  cases medium with
  | memory name => trivial
  | node o name => exact fun type ht => (h type ht).respond ht (hm type ht).1 (hm type ht).2 hq

variable (ht : medium.Tells type) (hid : id ∉ medium.ids type m)

include ht hid

theorem attributesAt_eq : medium.attributesAt type id m = .ok [] := by
  cases medium with
  | memory name =>
      change Except.ok (Memory.recordAt (Memory.recordsOf m type) id).attributes = _
      rw [Memory.recordAt_of_not_mem_identifiers hid]
  | node o name => exact (h type ht).attributes id hid

theorem not_relates (hr : medium.Tells related) : ¬ medium.Relates type id related x m := by
  cases medium with
  | memory name =>
      intro hx
      have hx' : x ∈ StringMap.find (Memory.recordAt (Memory.recordsOf m type) id).relationships related := hx
      rw [Memory.recordAt_of_not_mem_identifiers hid] at hx'
      simp [StringMap.find] at hx'
  | node o name => exact (h type ht).related id hid related hr x

end Blank

/-- In every state that requests lead to, ids that are not there have nothing. -/
theorem Occurs.blank {s : medium.backend.State} (h : medium.Occurs s) : medium.Blank (medium.view s) := by
  obtain ⟨c, hc, hs⟩ := h
  have hfresh : medium.InOrder (medium.view medium.fresh) ∧ medium.Blank (medium.view medium.fresh) :=
    ⟨medium.inOrder_fresh, medium.blank_fresh⟩
  have hstep : ∀ q m, q.Suits medium.Tells (fun _ => True) → medium.InOrder m ∧ medium.Blank m →
      medium.InOrder (medium.respond q m).1 ∧ medium.Blank (medium.respond q m).1 :=
    fun _ _ hq hm => ⟨hm.1.respond hq, hm.2.respond hm.1 hq⟩
  exact (hc.valid_of_reaches hfresh hstep hs).2.2

/-! ### What is read -/

/-- What a read of one id shows of the attributes, if it shows any. -/
def Yields (medium : Medium) (s : medium.backend.State) (type id : String)
    (read : Except Error Attributes) : Prop :=
  ∃ reply : Except Error (List Entity),
    medium.backend.Replies s (.entities type (some [id]) none) reply ∧
      reply.map (List.map Entity.attributes) = read.map ([·])

/-- An id that is listed is read with its attributes. -/
theorem yields_of_mem {s : medium.backend.State} (hs : medium.Sound s)
    (hid : id ∈ medium.ids type (medium.view s)) :
    medium.Yields s type id (medium.attributesAt type id (medium.view s)) := by
  refine ⟨_, replies hs _, ?_⟩
  generalize medium.view s = m at hid ⊢
  cases medium with
  | memory name =>
      have hid' : id ∈ Memory.recordsOf m type := StringMap.mem_keySet.1 hid
      obtain ⟨r, hr⟩ := Option.isSome_iff_exists.1 (Std.ExtTreeMap.mem_iff_isSome_getElem?.1 hid')
      have hentities : Memory.entities m type (some [id]) none = [r.entity id none] :=
        Memory.entities_eq_singleton_iff.2 ⟨r, hr, rfl⟩
      change Except.ok ((Memory.entities m type (some [id]) none).map Entity.attributes) =
        Except.ok [(Memory.recordAt (Memory.recordsOf m type) id).attributes]
      rw [hentities, Memory.recordAt_of_getElem? hr]
      rfl
  | node o name =>
      have hpresent : presentIds o type m (some [id]) = [id] := by
        have hcontains : (members o type m).contains id := Std.ExtTreeSet.contains_iff_mem.2 hid
        simp [presentIds, hcontains]
      have hreply : ((node o name).respond (.entities type (some [id]) none) m).2 =
          readReply o m (.entities type (some [id]) none) := congrArg Prod.snd (Backend.respond_read rfl m)
      rw [hreply]
      simp only [readReply, hpresent, List.mapM_cons, List.mapM_nil, entityAt]
      change _ = (Cell.attributes (m (o.attributesKey type id))).map ([·])
      cases Cell.attributes (m (o.attributesKey type id)) <;> rfl

/-- Entities that are read are there and have been asked for. -/
theorem mem_ids_of_entities {ids : List String} {filter : Option NameFilter} {e : Entity}
    (hreply : (medium.respond (.entities type (some ids) filter) m).2 = .ok es) (he : e ∈ es) :
    e.id ∈ ids ∧ e.id ∈ medium.ids type m := by
  cases medium with
  | memory name =>
      obtain rfl : Memory.entities m type (some ids) filter = es := Except.ok.inj hreply
      obtain ⟨id, hid, hf⟩ := List.mem_filterMap.1 he
      obtain ⟨r, hr, rfl⟩ := Option.map_eq_some_iff.1 hf
      refine ⟨mem_firstOccurrences.1 hid, StringMap.mem_keySet.2 ?_⟩
      rw [Std.ExtTreeMap.mem_iff_isSome_getElem?]
      exact Option.isSome_iff_exists.2 ⟨r, hr⟩
  | node o name =>
      obtain ⟨hasked, hthere⟩ := List.mem_filter.1 (exists_of_mem_entities hreply he).1
      exact ⟨mem_firstOccurrences.1 hasked, Std.ExtTreeSet.contains_iff_mem.1 hthere⟩

/-! ### What requests make of an entity -/

section Other

variable {q : CacheRequest} (ht : medium.Tells type) (hq : medium.Tells q.type) (hne : q.type ≠ type)

include ht hq hne

theorem attributesAt_other :
    medium.attributesAt type id (medium.respond q m).1 = medium.attributesAt type id m := by
  cases medium with
  | memory name =>
      exact congrArg (fun records => Except.ok (Memory.recordAt records id).attributes) (recordsOf_other hne m)
  | node o name => exact congrArg Cell.attributes (slot_other ht hq hne m (.attributes id))

theorem relates_other :
    medium.Relates type id related x (medium.respond q m).1 ↔ medium.Relates type id related x m := by
  cases medium with
  | memory name =>
      exact Eq.to_iff (congrArg (fun records =>
        x ∈ StringMap.find (Memory.recordAt records id).relationships related) (recordsOf_other hne m))
  | node o name =>
      exact Eq.to_iff (congrArg (fun c : Cell => x ∈ c.members)
        (slot_other ht hq hne m (.related id related)))

end Other

section Contribute

variable (hnone : ∀ e ∈ es, e.attributes = []) (hes : ∀ e ∈ es, e.id.isEmpty = false)

include hnone hes

/-- Entities without attributes leave those that are there. -/
theorem attributesAt_contribute (mode : WriteMode) :
    medium.attributesAt type id (medium.respond (.write mode type es) m).1 =
      medium.attributesAt type id m := by
  cases medium with
  | memory name =>
      refine congrArg Except.ok ((congrArg (fun records => (Memory.recordAt records id).attributes)
        (Memory.recordsOf_write_self m)).trans ?_)
      exact Memory.attributes_writeAll hnone (Memory.recordsOf m type)
  | node o name =>
      exact congrArg Cell.attributes ((congrFun (respond_write_of_forall hnone hes m) _).trans
        (putFrames_attributes m es id))

/-- Entities without attributes add their related ids to those that are there. -/
theorem relates_contribute (h : medium.InOrder m) (ht : medium.Tells type)
    (hplain : ∀ e ∈ es, ∀ t ∈ e.relationships, medium.Tells t) (hr : medium.Tells related) :
    medium.Relates type id related x (medium.respond (.write .union type es) m).1 ↔
      medium.Relates type id related x m ∨
        ∃ e ∈ es, e.id = id ∧ x ∈ StringMap.find e.relationships related := by
  cases medium with
  | memory name =>
      refine (Eq.to_iff (congrArg (fun records => x ∈ StringMap.find (Memory.recordAt records
        id).relationships related) (Memory.recordsOf_write_self m))).trans ?_
      exact Memory.mem_find_writeAll_union hes (Memory.recordsOf m type)
  | node o name =>
      refine (Eq.to_iff (congrArg (fun c : Cells => x ∈ (c (o.relationshipKey type id related)).members)
        (respond_write_of_forall hnone hes m))).trans ?_
      exact mem_putFrames_union hplain hr ((h type ht).2.takesRelated id related hr)

end Contribute

section Evict

variable {ids : List String} (hid : id ∉ ids)

include hid

/-- An eviction leaves all others as they are. -/
theorem attributesAt_evict :
    medium.attributesAt type id (medium.respond (.evict type ids) m).1 = medium.attributesAt type id m := by
  cases medium with
  | memory name =>
      exact congrArg (fun r : Record => Except.ok r.attributes) (Memory.recordAt_evict m hid)
  | node o name => exact congrArg Cell.attributes (respond_evict_attributes hid m)

theorem relates_evict (h : medium.InOrder m) (ht : medium.Tells type) (hr : medium.Tells related) :
    medium.Relates type id related x (medium.respond (.evict type ids) m).1 ↔
      medium.Relates type id related x m := by
  cases medium with
  | memory name =>
      exact Eq.to_iff (congrArg (fun r : Record => x ∈ StringMap.find r.relationships related)
        (Memory.recordAt_evict m hid))
  | node o name =>
      exact Eq.to_iff (congrArg (fun c : Cell => x ∈ c.members) (respond_evict_related hid (h type ht).2 hr))

end Evict

/-- The removal of references leaves attributes. -/
theorem attributesAt_unlink (ids : List String) (related : String) (targets : List String) :
    medium.attributesAt type id (medium.respond (.unlink type ids related targets) m).1 =
      medium.attributesAt type id m := by
  cases medium with
  | memory name => exact congrArg Except.ok (Memory.attributes_unlink m ids targets)
  | node o name =>
      exact congrArg Cell.attributes ((congrFun (congrArg Prod.fst (respond_unlink m ids related
        targets)) _).trans (unlink_slot (.attributes id) m ids related targets))

/-- The removal of references takes away those to its targets. -/
theorem relates_unlink {related' : String} (hr : medium.Tells related) (hr' : medium.Tells related')
    (ids targets : List String) :
    medium.Relates type id related' x (medium.respond (.unlink type ids related targets) m).1 ↔
      medium.Relates type id related' x m ∧ ¬ (id ∈ ids ∧ related' = related ∧ x ∈ targets) := by
  cases medium with
  | memory name => exact Memory.mem_find_recordAt_unlink m ids targets related'
  | node o name =>
      refine (Eq.to_iff (congrArg (fun c : Cells => x ∈ (c (o.relationshipKey type id related')).members)
        (congrArg Prod.fst (respond_unlink m ids related targets)))).trans ?_
      exact (unlink_related hr hr' m ids targets id).2 x

end Medium

end Inventory
