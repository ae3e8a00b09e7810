import Inventory.Proofs.KeyValue.Requests
import Inventory.Proofs.KeyValue.Single
import Inventory.Proofs.Merge.Scene

/-!
# Inventory.Proofs.KeyValue.Listed

What a read of the entities of a type relies on.

A read asks for the related ids of those types only that are listed, and it fails if it meets
attributes that it cannot read. Every request keeps the types of all related ids listed and all
attributes readable, whatever entities a write repeats.
-/

namespace Inventory

/-- A request that changes something is about a type that can be told apart. -/
theorem CacheRequest.Suits.tells_type {tells : String → Prop} {stores : Attributes → Prop}
    {r : CacheRequest} (hr : r.Suits tells stores) (h : r.isRead = false) : tells r.type := by
  cases r with
  | write mode type es => exact hr.1
  | evict type ids => exact hr
  | unlink type ids related targets => exact hr.1
  | _ => contradiction

namespace KeyValue

variable {o : Options} {mode : WriteMode} {type : String} {m m' : Cells} {e : Entity} {es : List Entity}

/-- Attributes that can be read after they have been stored. -/
def Storable (o : Options) (a : Attributes) : Prop :=
  (Blob.decode (Blob.encode o.compression (Blob.content a))).isOk

/-- All related ids of a type are of types that are listed. -/
structure Indexed (o : Options) (type : String) (m : Cells) : Prop where
  takesTypes : (m (o.relatedTypesKey type)).takesMembers
  types : ∀ related ∈ (m (o.relatedTypesKey type)).members, Plain related
  takesRelated : ∀ id related, Plain related → (m (o.relationshipKey type id related)).takesMembers
  listed : ∀ id related, Plain related → ∀ x ∈ (m (o.relationshipKey type id related)).members,
    related ∈ (m (o.relatedTypesKey type)).members

/-- All related ids of a type are of types that are listed, and all attributes can be read. -/
structure Listed (o : Options) (type : String) (m : Cells) : Prop extends Indexed o type m where
  readable : ∀ id, (m (o.attributesKey type id)).attributes.isOk

/-! ## Related ids -/

namespace Indexed

theorem empty (o : Options) (type : String) : Indexed o type fun _ => {} where
  takesTypes := rfl
  types related h := by simp [Cell.members] at h
  takesRelated _ _ _ := rfl
  listed id related _ x h := by simp [Cell.members] at h

/-- Attributes do not matter. -/
theorem of_related (h : Indexed o type m)
    (htypes : m' (o.relatedTypesKey type) = m (o.relatedTypesKey type))
    (hrelated : ∀ id related, m' (o.relationshipKey type id related) =
      m (o.relationshipKey type id related)) : Indexed o type m' := by
  constructor
  case takesTypes => rw [htypes]; exact h.takesTypes
  case types => rw [htypes]; exact h.types
  case takesRelated => simp only [hrelated]; exact h.takesRelated
  case listed => simp only [hrelated, htypes]; exact h.listed

/-- Keys of other types do not matter. -/
theorem congr (h : Indexed o type m)
    (hm : ∀ slot : Slot, m' (slot.key o type) = m (slot.key o type)) : Indexed o type m' :=
  h.of_related (hm .relatedTypes) fun id related => hm (.related id related)

theorem frame (h : Indexed o type m) (hplain : ∀ related ∈ e.relationships, Plain related) :
    Indexed o type (m.applyAll (frame o mode type e)) := by
  have htypes : ∀ related, related ∈ (m.applyAll (KeyValue.frame o mode type e)
      (o.relatedTypesKey type)).members ↔ related ∈ (m (o.relatedTypesKey type)).members ∨
        ∃ ids, e.relationships[related]? = some ids ∧ ids.isEmpty = false := by
    intro related
    rw [applyAll_frame_relatedTypes, Cell.mem_members_add h.takesTypes, mem_relatedTypes]
  constructor
  case takesTypes => rw [applyAll_frame_relatedTypes, Cell.takesMembers_add]; exact h.takesTypes
  case types =>
    intro related hrelated
    rcases (htypes related).1 hrelated with hold | ⟨ids, hids, -⟩
    · exact h.types related hold
    · exact hplain related (Std.ExtTreeMap.mem_iff_isSome_getElem?.2 (by rw [hids]; rfl))
  case takesRelated =>
    intro id related hr
    rw [applyAll_frame_related_of_plain hplain m id hr]
    split
    · exact (relatedCell_members mode _ _ (h.takesRelated id related hr)).1
    · exact h.takesRelated id related hr
  case listed =>
    intro id related hr x hx
    rw [applyAll_frame_related_of_plain hplain m id hr] at hx
    rw [htypes]
    split at hx
    · next ids hids =>
      rw [(relatedCell_members mode _ _ (h.takesRelated id related hr)).2] at hx
      by_cases hnew : x ∈ ids
      · -- The ids are new, and so the entry may be.
        split at hids
        · exact .inr ⟨ids, hids, StringSet.isEmpty_eq_false_of_mem hnew⟩
        · contradiction
      · refine .inl (h.listed id related hr x ?_)
        split at hx
        · exact absurd hx hnew
        · exact (Std.ExtTreeSet.mem_union_iff.1 hx).resolve_right hnew
    · exact .inl (h.listed id related hr x hx)

theorem putFrames (h : Indexed o type m)
    (hplain : ∀ e ∈ es, ∀ related ∈ e.relationships, Plain related) :
    Indexed o type (putFrames o mode type m es) := by
  induction es generalizing m with
  | nil => exact h
  | cons e es ih =>
      exact ih (h.frame (hplain e List.mem_cons_self)) fun e' he' =>
        hplain e' (List.mem_cons_of_mem _ he')

/-- Chunks of entities keep the types of all related ids listed. -/
theorem putChunks (h : Indexed o type m) {chunks : List (List Entity)}
    (hplain : ∀ e ∈ chunks.flatten, ∀ related ∈ e.relationships, Plain related) :
    Indexed o type (putChunks o mode type m chunks) := by
  have hframes : Indexed o type (KeyValue.putFrames o mode type m chunks.flatten) := h.putFrames hplain
  refine hframes.of_related ?_ fun id related => ?_
  · exact putChunks_other (fun e _ => Slot.key_ne .relatedTypes (.attributes e.id))
      (Slot.key_ne .relatedTypes .digests) m
  · exact putChunks_other (fun e _ => Slot.key_ne (.related id related) (.attributes e.id))
      (Slot.key_ne (.related id related) .digests) m

/-- An eviction keeps the types of all related ids listed. -/
theorem evict (h : Indexed o type m) (ids : List String) :
    Indexed o type (m.applyAll (evictAll o type (typesOf o type m) ids)) := by
  have htypes : ∀ t ∈ typesOf o type m, Plain t := forall_mem_typesOf.2 h.types
  constructor
  case takesTypes => rw [evict_relatedTypes]; exact h.takesTypes
  case types => rw [evict_relatedTypes]; exact h.types
  case takesRelated =>
    intro id related hr
    rw [evict_related hr htypes]
    split
    · rfl
    · exact h.takesRelated id related hr
  case listed =>
    intro id related hr x hx
    rw [evict_related hr htypes] at hx
    rw [evict_relatedTypes]
    split at hx
    · simp [Cell.members] at hx
    · exact h.listed id related hr x hx

/-- The removal of references keeps the types of all related ids listed. -/
theorem unlink (h : Indexed o type m) (ids : List String) {related : String} (hplain : Plain related)
    (targets : List String) : Indexed o type (m.applyAll (unlinkAll o type ids related targets)) := by
  have htypes : m.applyAll (unlinkAll o type ids related targets) (o.relatedTypesKey type) =
      m (o.relatedTypesKey type) := unlink_slot .relatedTypes m ids related targets
  constructor
  case takesTypes => rw [htypes]; exact h.takesTypes
  case types => rw [htypes]; exact h.types
  case takesRelated =>
    intro id related' hr
    exact (unlink_related hplain hr m ids targets id).1.trans (h.takesRelated id related' hr)
  case listed =>
    intro id related' hr x hx
    rw [htypes]
    exact h.listed id related' hr x (((unlink_related hplain hr m ids targets id).2 x).1 hx).1

/-- A request keeps the types of all related ids listed. -/
theorem respond (ht : Plain type) (h : Indexed o type m) {r : CacheRequest}
    {stores : Attributes → Prop} (hr : r.Suits Plain stores) :
    Indexed o type (Backend.respond o r m).1 := by
  by_cases htype : r.type = type
  · subst htype
    cases r with
    | write mode type es =>
        by_cases hempty : ∃ e ∈ es, e.id.isEmpty
        · obtain ⟨error, hwrite⟩ := respond_write_of_isEmpty o mode type hempty m
          rwa [hwrite]
        · rw [respond_write (by simpa using hempty)]
          refine h.putChunks ?_
          rw [flatten_batches]
          exact fun e he => (hr.2 e he).related
    | evict type ids =>
        rw [respond_evict]
        exact h.evict ids
    | unlink type ids related targets =>
        rw [respond_unlink]
        exact h.unlink ids hr.2 targets
    | _ => rwa [Backend.respond_read rfl]
  · by_cases hread : r.isRead
    · rwa [Backend.respond_read hread]
    · exact h.congr fun slot => respond_other (fun slot' hkey =>
        htype (Slot.eq_of_key_eq_of_plain ht (hr.tells_type (by simpa using hread)) hkey).symm) m

end Indexed

/-! ## Attributes -/

/-- Attributes that are put there can be read. -/
theorem isOk_attributeCell (stored : StringMap Bytes) (he : e.attributes ≠ [] → Storable o e.attributes)
    {c : Cell} (hc : c.attributes.isOk) : (attributeCell o stored e c).attributes.isOk := by
  unfold attributeCell
  split
  · exact hc
  · next hempty =>
    split
    · have hsame : (c.expiring e.ttl).attributes = c.attributes := by
        simp [Cell.attributes, Cell.blob?]
      rwa [hsame]
    · exact he fun hnil => hempty (List.isEmpty_iff.2 hnil)

theorem isOk_putAttributes (stored : StringMap Bytes)
    (hes : ∀ e ∈ es, e.attributes ≠ [] → Storable o e.attributes)
    (h : ∀ id, (m (o.attributesKey type id)).attributes.isOk) (id : String) :
    (putAttributes o type m stored es (o.attributesKey type id)).attributes.isOk := by
  induction es generalizing m with
  | nil => exact h id
  | cons e es ih =>
      refine ih (m := m.applyAll (attributeCommands o type stored e))
        (fun e' he' => hes e' (List.mem_cons_of_mem _ he')) fun id => ?_
      by_cases hid : id = e.id
      · subst hid
        rw [applyAll_attributes]
        exact isOk_attributeCell stored (hes e List.mem_cons_self) (h e.id)
      · rw [applyAll_attributes_other (fun hkey => hid (attributesKey_inj.1 hkey))
          (attributesKey_ne_digestsKey id)]
        exact h id

/-- Chunks of entities keep all attributes readable. -/
theorem isOk_putChunks {chunks : List (List Entity)}
    (hes : ∀ e ∈ chunks.flatten, e.attributes ≠ [] → Storable o e.attributes)
    (h : ∀ id, (m (o.attributesKey type id)).attributes.isOk) (id : String) :
    (putChunks o mode type m chunks (o.attributesKey type id)).attributes.isOk := by
  rw [putChunks_eq]
  have hframes : ∀ id, (putFrames o mode type m chunks.flatten
      (o.attributesKey type id)).attributes.isOk := fun id => by
    rw [putFrames_attributes]
    exact h id
  generalize putFrames o mode type m chunks.flatten = m' at hframes ⊢
  induction chunks generalizing m' with
  | nil => exact hframes id
  | cons chunk chunks ih =>
      rw [List.flatten_cons] at hes
      refine ih (fun e he => hes e (List.mem_append_right _ he)) (putAttributeChunk o type m' chunk) ?_
      exact isOk_putAttributes _ (fun e he => hes e (List.mem_append_left _ he)) hframes

namespace Listed

theorem empty (o : Options) (type : String) : Listed o type fun _ => {} where
  toIndexed := .empty o type
  readable _ := rfl

/-- A request keeps what reads rely on. -/
theorem respond (ht : Plain type) (h : Listed o type m) {r : CacheRequest}
    (hr : r.Suits Plain (Storable o)) : Listed o type (Backend.respond o r m).1 where
  toIndexed := h.toIndexed.respond ht hr
  readable id := by
    by_cases htype : r.type = type
    · subst htype
      cases r with
      | write mode type es =>
          by_cases hempty : ∃ e ∈ es, e.id.isEmpty
          · obtain ⟨error, hwrite⟩ := respond_write_of_isEmpty o mode type hempty m
            rw [hwrite]
            exact h.readable id
          · rw [respond_write (by simpa using hempty)]
            refine isOk_putChunks ?_ h.readable id
            rw [flatten_batches]
            exact fun e he => (hr.2 e he).attributes
      | evict type ids =>
          have hcells : (Backend.respond o (.evict type ids) m).1 (o.attributesKey type id) =
              if id ∈ ids then {} else m (o.attributesKey type id) := by
            rw [respond_evict]
            exact evict_attributes m _ ids id
          change ((Backend.respond o (.evict type ids) m).1 (o.attributesKey type id)).attributes.isOk
          rw [hcells]
          split
          · rfl
          · exact h.readable id
      | unlink type ids related targets =>
          have hcells : (Backend.respond o (.unlink type ids related targets) m).1
              (o.attributesKey type id) = m (o.attributesKey type id) := by
            rw [respond_unlink]
            exact unlink_slot (.attributes id) m ids related targets
          change ((Backend.respond o (.unlink type ids related targets) m).1
            (o.attributesKey type id)).attributes.isOk
          rw [hcells]
          exact h.readable id
      | _ =>
          rw [Backend.respond_read rfl]
          exact h.readable id
    · by_cases hread : r.isRead
      · rw [Backend.respond_read hread]
        exact h.readable id
      · have hsame : (Backend.respond o r m).1 (o.attributesKey type id) = m (o.attributesKey type id) :=
          respond_other (fun slot hkey => htype (Slot.eq_of_key_eq_of_plain (a := .attributes id) ht
            (hr.tells_type (by simpa using hread)) hkey).symm) m
        rw [hsame]
        exact h.readable id

end Listed

end KeyValue

end Inventory
