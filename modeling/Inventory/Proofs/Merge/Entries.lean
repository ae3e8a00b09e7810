import Inventory.Proofs.KeyValue.Consistent
import Inventory.Proofs.KeyValue.Written
import Inventory.Proofs.Merge.Ids

/-!
# Inventory.Proofs.Merge.Entries

What is kept of one id besides its relationships: that it is there, its attributes and its digest.

A request changes that of the ids it names and of no others (`sameEntry_respond`). An entity that is
written twice is written once (`putAttributeChunk_twice`), and stores that keep the same ids with the same
attributes show the same of them (`SameEntries`).
-/

namespace Inventory

/-- Whether a request writes or evicts an id of a type. -/
def CacheRequest.Names (type id : String) : CacheRequest → Prop
  | write _ t es => t = type ∧ id ∈ es.map Entity.id
  | evict t ids => t = type ∧ id ∈ ids
  | _ => False

namespace KeyValue

variable {o : Options} {mode : WriteMode} {type id : String} {m m' m'' : Cells} {e : Entity}
  {es : List Entity} {ids : List String}

/-! ## Writing twice -/

theorem SameFor.refl (o : Options) (type id : String) (m : Cells) : SameFor o type id m m :=
  ⟨rfl, rfl, rfl⟩

theorem takesFields_putAttributeChunk (m : Cells) (e : Entity) :
    (putAttributeChunk o type m [e] (o.digestsKey type)).takesFields =
      (m (o.digestsKey type)).takesFields :=
  takesFields_attributes m _ e

/-- What is written a second time is skipped or the same. -/
theorem putAttributeChunk_twice (m : Cells) (e : Entity) :
    SameFor o type e.id (putAttributeChunk o type (putAttributeChunk o type m [e]) [e])
      (putAttributeChunk o type m [e]) where
  attributes := by
    simp only [putAttributeChunk_attributes, putAttributeChunk_digest]
    by_cases hempty : e.attributes.isEmpty
    · simp [hempty]
    · by_cases hskips : skips o ((m (o.digestsKey type)).field? e.id) e
      · simp [hskips]
      · simp [hempty, hskips]
  digest := by
    simp only [putAttributeChunk_digest, takesFields_putAttributeChunk]
    by_cases hchange : (o.hashing && !e.attributes.isEmpty &&
        !skips o ((m (o.digestsKey type)).field? e.id) e) = true
    · rw [if_pos hchange]
      split <;> exact ite_self _
    · simp only [if_neg hchange]
  takesFields := takesFields_putAttributeChunk _ e

/-! ## One id -/

/-- Two stores keep the same of an id, its relationships apart. -/
structure SameEntry (o : Options) (type id : String) (m m' : Cells) : Prop where
  member : id ∈ members o type m' ↔ id ∈ members o type m
  kept : SameFor o type id m' m

namespace SameEntry

theorem refl (o : Options) (type id : String) (m : Cells) : SameEntry o type id m m :=
  ⟨Iff.rfl, .refl o type id m⟩

theorem trans (h : SameEntry o type id m m') (h' : SameEntry o type id m' m'') :
    SameEntry o type id m m'' :=
  ⟨h'.member.trans h.member, h'.kept.trans h.kept⟩

/-- Keys of other types do not matter. -/
theorem of_slots (h : ∀ slot : Slot, m' (slot.key o type) = m (slot.key o type)) :
    SameEntry o type id m m' where
  member := by
    have hmembers : m' (o.membersKey type) = m (o.membersKey type) := h .members
    rw [members, members, hmembers]
  kept :=
    { attributes := h (.attributes id)
      digest := congrArg (Cell.field? · id) (h .digests)
      takesFields := congrArg Cell.takesFields (h .digests) }

end SameEntry

/-- A write of the entity of an id makes it a member and puts its attributes there. -/
theorem respond_write_entry (hm : (m (o.membersKey type)).takesMembers)
    (hne : ∀ e ∈ es, e.id.isEmpty = false) (hids : (es.map Entity.id).Nodup) (he : e ∈ es) :
    e.id ∈ members o type (Backend.respond o (.write mode type es) m).1 ∧
      SameFor o type e.id (Backend.respond o (.write mode type es) m).1
        (putAttributeChunk o type m [e]) := by
  have hok : (Backend.respond o (.write mode type es) m).2 = .ok () :=
    congrArg Prod.snd (respond_write hne m)
  refine ⟨((respond_write_members hm).2 hok e.id).2 (.inr (List.mem_map_of_mem he)), ?_⟩
  rw [respond_write hne]
  exact sameFor_put_of_mem hids he m

/-- What is evicted is no member. -/
theorem respond_evict_entry (hid : id ∈ ids) :
    id ∉ members o type (Backend.respond o (.evict type ids) m).1 := by
  rw [respond_evict]
  exact fun hmember => ((evict_members m _ ids).2 id |>.1 hmember).2 hid

/-- Of an id that a request does not name the same is kept as before. -/
theorem sameEntry_respond (ht : Plain type) (hm : (m (o.membersKey type)).takesMembers)
    {r : CacheRequest} (hr : Regular r) (hid : ¬ r.Names type id) :
    SameEntry o type id m (Backend.respond o r m).1 := by
  by_cases htype : r.type = type
  · subst htype
    cases r with
    | write mode type es =>
        have hnot : id ∉ es.map Entity.id := fun h => hid ⟨rfl, h⟩
        by_cases hempty : ∃ e ∈ es, e.id.isEmpty
        · obtain ⟨error, hwrite⟩ := respond_write_of_isEmpty o mode type hempty m
          rw [hwrite]
          exact .refl o type id m
        · have hwrite : Backend.respond o (.write mode type es) m = _ := respond_write (by simpa using hempty) m
          refine ⟨((respond_write_members hm).2 (congrArg Prod.snd hwrite) id).trans ?_, ?_⟩
          · exact or_iff_left hnot
          · rw [hwrite]
            exact sameFor_put_of_not_mem hr.2.1 hnot m
    | evict type ids =>
        have hnot : id ∉ ids := fun h => hid ⟨rfl, h⟩
        rw [respond_evict]
        refine ⟨((evict_members m _ ids).2 id).trans (and_iff_left hnot), ⟨?_, ?_, ?_⟩⟩
        · exact (evict_attributes m _ ids id).trans (if_neg hnot)
        · exact Option.ext fun d => ((evict_digests m _ ids).2 id d).trans (and_iff_left hnot)
        · exact (evict_digests m _ ids).1
    | unlink type ids related targets =>
        rw [respond_unlink]
        have hdigests : _ = m (Slot.digests.key o type) := unlink_slot .digests m ids related targets
        refine ⟨?_, ⟨unlink_slot (.attributes id) m ids related targets, ?_, ?_⟩⟩
        · have hmembers : _ = m (Slot.members.key o type) := unlink_slot .members m ids related targets
          rw [members, members]
          exact iff_of_eq (congrArg (fun c : Cell => id ∈ c.members) hmembers)
        · exact congrArg (Cell.field? · id) hdigests
        · exact congrArg Cell.takesFields hdigests
    | _ => exact hr.elim
  · exact .of_slots fun slot => respond_other
      (fun slot' hkey => htype (Slot.eq_of_key_eq_of_plain ht hr.plain hkey).symm) m

/-! ## What is shown of all ids -/

/-- The ids and the attributes of entities. -/
def shown (es : List Entity) : List (String × Attributes) := es.map fun e => (e.id, e.attributes)

/-- Two stores keep the same ids of a type, with the same attributes. -/
structure SameEntries (o : Options) (type : String) (m m' : Cells) : Prop where
  members : members o type m' = members o type m
  attributes : ∀ id ∈ KeyValue.members o type m,
    (m' (o.attributesKey type id)).attributes = (m (o.attributesKey type id)).attributes

/-- The ids and attributes that are read are those of the members asked for. -/
theorem shown_mapM_entityAt (types ids : List String) :
    (ids.mapM (entityAt o type m types)).map shown = ids.mapM fun id =>
      (m (o.attributesKey type id)).attributes.map fun attributes => (id, attributes) := by
  induction ids with
  | nil => rfl
  | cons id ids ih =>
      rw [List.mapM_cons, List.mapM_cons, ← ih, entityAt]
      cases (m (o.attributesKey type id)).attributes with
      | error e => rfl
      | ok a => cases ids.mapM (entityAt o type m types) <;> rfl

/-- Stores that keep the same ids with the same attributes show the same of them. -/
theorem SameEntries.shown_readReply (h : SameEntries o type m m') (ids : Option (List String))
    (filter : Option NameFilter) :
    (readReply o m' (.entities type ids filter)).map shown =
      (readReply o m (.entities type ids filter)).map shown := by
  have hpresent : presentIds o type m' ids = presentIds o type m ids := by
    cases ids <;> simp only [presentIds, h.members]
  have hmember : ∀ id ∈ presentIds o type m ids, id ∈ KeyValue.members o type m := by
    intro id hid
    cases ids with
    | none => exact Std.ExtTreeSet.mem_toList.1 hid
    | some ids => exact Std.ExtTreeSet.contains_iff_mem.1 (List.mem_filter.1 hid).2
  rw [readReply, readReply, shown_mapM_entityAt, shown_mapM_entityAt, hpresent]
  generalize presentIds o type m ids = present at hmember
  induction present with
  | nil => rfl
  | cons id present ih =>
      rw [List.mapM_cons, List.mapM_cons, h.attributes id (hmember id List.mem_cons_self),
        ih fun id hid => hmember id (List.mem_cons_of_mem _ hid)]

end KeyValue

end Inventory
