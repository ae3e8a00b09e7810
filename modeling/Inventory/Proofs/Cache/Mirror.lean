import Inventory.Proofs.Cache.Memory
import Inventory.Proofs.KeyValue.Reading
import Inventory.Proofs.KeyValue.Requests
import Inventory.Proofs.KeyValue.Single

/-!
# Inventory.Proofs.Cache.Mirror

The records of a type and the keys under which a store keeps the same entities.

The two show the same ids, attributes and related ids (`Mirrors`), and every write, eviction and removal
of references keeps it so. What carries this are two facts about what is stored besides: a digest is
that of the attributes that are there, so that attributes are skipped only if they are there, and every
related type that an entity has is listed, so that an eviction finds all of its sets.
-/

namespace Inventory

open KeyValue Memory

variable {o : Options} {W : Attributes → Prop} {mode : WriteMode} {type : String}
  {records : StringMap Record} {m m' : Cells} {e : Entity} {es : List Entity}

/-- An entity whose attributes can be stored and whose related types can be told from the keys. -/
structure Entity.Fits (W : Attributes → Prop) (e : Entity) : Prop where
  attributes : e.attributes ≠ [] → W e.attributes
  related : ∀ related ∈ e.relationships, Plain related

/-! ## Records and cells -/

/-- The cells of a type show what the records hold. -/
structure Mirrors (o : Options) (W : Attributes → Prop) (type : String) (records : StringMap Record)
    (m : Cells) : Prop where
  takesIds : (m (o.membersKey type)).takesMembers
  ids : ∀ id, id ∈ members o type m ↔ id ∈ records
  attributes : ∀ id, (m (o.attributesKey type id)).attributes = .ok (recordAt records id).attributes
  written : ∀ id, (recordAt records id).attributes ≠ [] → W (recordAt records id).attributes
  /-- Digests are kept of attributes that are there. -/
  digest : ∀ id d, (m (o.digestsKey type)).field? id = some d → o.hashing ∧
    (recordAt records id).attributes ≠ [] ∧ d = Blob.digest (recordAt records id).attributes
  takesRelated : ∀ id related, Plain related →
    (m (o.relationshipKey type id related)).takesMembers
  related : ∀ id related, Plain related → (m (o.relationshipKey type id related)).members =
    StringMap.find (recordAt records id).relationships related
  takesTypes : (m (o.relatedTypesKey type)).takesMembers
  types : ∀ related ∈ (m (o.relatedTypesKey type)).members, Plain related
  /-- Every related type that a record has is listed. -/
  listed : ∀ (id related : String) (ids : StringSet),
    (recordAt records id).relationships[related]? = some ids →
      ids.isEmpty = false ∧ related ∈ (m (o.relatedTypesKey type)).members

namespace Mirrors

/-- Cells without any content show no records. -/
theorem empty (o : Options) (W : Attributes → Prop) (type : String) :
    Mirrors o W type ∅ fun _ => {} where
  takesIds := rfl
  ids id := by simp [members, Cell.members]
  attributes id := by simp [recordAt, Cell.attributes, Cell.blob?]
  written id h := by simp [recordAt] at h
  digest id d h := by simp [Cell.field?] at h
  takesRelated _ _ _ := rfl
  related id related _ := by simp [recordAt, Cell.members, StringMap.find]
  takesTypes := rfl
  types related h := by simp [Cell.members] at h
  listed id related ids h := by simp [recordAt] at h

/-- Cells of other types do not matter. -/
theorem congr (h : Mirrors o W type records m)
    (hm : ∀ slot : Slot, m' (slot.key o type) = m (slot.key o type)) :
    Mirrors o W type records m' where
  takesIds := (congrArg Cell.takesMembers (hm .members)).trans h.takesIds
  ids id := (congrArg (id ∈ Cell.members ·) (hm .members)).to_iff.trans (h.ids id)
  attributes id := (congrArg Cell.attributes (hm (.attributes id))).trans (h.attributes id)
  written := h.written
  digest id d hd := h.digest id d ((congrArg (Cell.field? · id) (hm .digests)).symm.trans hd)
  takesRelated id related hr :=
    (congrArg Cell.takesMembers (hm (.related id related))).trans (h.takesRelated id related hr)
  related id related hr :=
    (congrArg Cell.members (hm (.related id related))).trans (h.related id related hr)
  takesTypes := (congrArg Cell.takesMembers (hm .relatedTypes)).trans h.takesTypes
  types related hr :=
    h.types related ((congrArg (related ∈ Cell.members ·) (hm .relatedTypes)).to_iff.1 hr)
  listed id related ids hr := by
    obtain ⟨hne, hlisted⟩ := h.listed id related ids hr
    exact ⟨hne, (congrArg (related ∈ Cell.members ·) (hm .relatedTypes)).to_iff.2 hlisted⟩

/-! ## Writes -/

theorem attributes_put (hW : Faithful o W) (h : Mirrors o W type records m) (he : e.Fits W)
    (id : String) : (putChunk o mode type m [e] (o.attributesKey type id)).attributes =
      .ok (recordAt (records.insert e.id ((recordAt records e.id).write mode e)) id).attributes := by
  rw [putChunk_single_attributes, recordAt_insert]
  by_cases hid : e.id = id
  · subst hid
    rw [if_pos rfl]
    by_cases hempty : e.attributes.isEmpty
    · simp [hempty, Record.write, h.attributes]
    · cases hskips : skips o ((m (o.digestsKey type)).field? e.id) e with
      | true =>
          have hdigest : (m (o.digestsKey type)).field? e.id = some (Blob.digest e.attributes) := by
            simp only [skips, Bool.and_eq_true, beq_iff_eq] at hskips
            exact hskips.2
          obtain ⟨-, hne, hsame⟩ := h.digest e.id _ hdigest
          have hattributes := hW.eq_of_digest (he.attributes (by simpa using hempty))
            (h.written e.id hne) hsame
          simp [Record.write, h.attributes, hattributes]
      | false =>
          rw [Bool.not_eq_true] at hempty
          have hdecode := hW.decode e.attributes (he.attributes (by simpa using hempty))
          simp [hempty, Record.write, Cell.attributes, Cell.blob?, blobOf, hdecode]
  · rw [if_neg hid, if_neg fun hc => hid hc.1, h.attributes]

theorem digest_put (h : Mirrors o W type records m) (id : String) (d : Bytes)
    (hd : (putChunk o mode type m [e] (o.digestsKey type)).field? id = some d) :
    o.hashing ∧
      (recordAt (records.insert e.id ((recordAt records e.id).write mode e)) id).attributes ≠ [] ∧
      d = Blob.digest
        (recordAt (records.insert e.id ((recordAt records e.id).write mode e)) id).attributes := by
  rw [putChunk_single_digest] at hd
  rw [recordAt_insert]
  by_cases hid : e.id = id
  · subst hid
    rw [if_pos rfl]
    by_cases hempty : e.attributes.isEmpty
    · rw [if_neg (by simp [hempty])] at hd
      simpa [Record.write, hempty] using h.digest e.id d hd
    · rw [Bool.not_eq_true] at hempty
      have hwritten : ((recordAt records e.id).write mode e).attributes = e.attributes := by
        simp [Record.write, hempty]
      have hne : e.attributes ≠ [] := by simpa using hempty
      rw [hwritten]
      by_cases hchange : (o.hashing && !e.attributes.isEmpty &&
          !skips o ((m (o.digestsKey type)).field? e.id) e) = true
      · rw [if_pos ⟨rfl, hchange⟩] at hd
        simp only [Bool.and_eq_true] at hchange
        split at hd
        · exact ⟨hchange.1.1, hne, (Option.some.inj hd).symm⟩
        · contradiction
      · rw [if_neg fun hc => hchange hc.2] at hd
        obtain ⟨hhashing, -, -⟩ := h.digest e.id d hd
        have hskips : skips o ((m (o.digestsKey type)).field? e.id) e = true := by
          simpa [hhashing, hempty] using hchange
        simp only [skips, hd, Bool.and_eq_true, beq_iff_eq, Option.some.injEq] at hskips
        exact ⟨hhashing, hne, hskips.2⟩
  · rw [if_neg hid]
    rw [if_neg fun hc => hid hc.1] at hd
    exact h.digest id d hd

theorem related_put (h : Mirrors o W type records m) (he : e.Fits W) (id : String) {related : String}
    (hr : Plain related) :
    (putChunk o mode type m [e] (o.relationshipKey type id related)).takesMembers ∧
      (putChunk o mode type m [e] (o.relationshipKey type id related)).members =
        StringMap.find
          (recordAt (records.insert e.id ((recordAt records e.id).write mode e)) id).relationships
          related := by
  have htakes := h.takesRelated id related hr
  have hmembers := h.related id related hr
  rw [putChunk_single_related he.related m id hr, recordAt_insert]
  by_cases hid : e.id = id
  · subst hid
    rw [if_pos rfl, if_pos rfl, StringMap.find, Record.write_relationships]
    cases hincoming : e.relationships[related]? with
    | none => exact ⟨htakes, hmembers⟩
    | some ids =>
        obtain ⟨htakes', hmembers'⟩ := relatedCell_members mode ids e.ttl htakes
        refine ⟨htakes', hmembers'.trans ?_⟩
        rw [hmembers, StringMap.find]
        by_cases hempty : ids.isEmpty
        · have hunion : ∀ s : StringSet, s ∪ ids = s := fun s =>
            Std.ExtTreeSet.ext_mem fun x => by
              simp [Std.ExtTreeSet.mem_union_iff, Std.ExtTreeSet.isEmpty_iff.1 hempty]
          simp only [hempty, if_true, hunion]
          split
          · exact Std.ExtTreeSet.isEmpty_iff.1 hempty
          · rfl
        · simp [hempty]
  · rw [if_neg hid, if_neg hid]
    exact ⟨htakes, hmembers⟩

/-- Writing an entity keeps cells and records alike. -/
theorem put (hW : Faithful o W) (h : Mirrors o W type records m) (he : e.Fits W) :
    Mirrors o W type (records.insert e.id ((recordAt records e.id).write mode e))
      (putChunk o mode type m [e]) where
  takesIds := by
    rw [putChunk_single_members, Cell.takesMembers_add]
    exact h.takesIds
  ids id := by
    rw [members, putChunk_single_members, Cell.mem_members_add h.takesIds, List.mem_singleton,
      StringMap.mem_insert_iff, ← h.ids id, or_comm, eq_comm]
    rfl
  attributes := attributes_put hW h he
  written id hne := by
    rw [recordAt_insert] at hne ⊢
    by_cases hid : e.id = id
    · rw [if_pos hid] at hne ⊢
      by_cases hempty : e.attributes.isEmpty
      · have hkept : ((recordAt records e.id).write mode e).attributes =
            (recordAt records e.id).attributes := by simp [Record.write, hempty]
        rw [hkept] at hne ⊢
        exact h.written e.id hne
      · have hwritten : ((recordAt records e.id).write mode e).attributes = e.attributes := by
          simp [Record.write, hempty]
        rw [hwritten] at hne ⊢
        exact he.attributes hne
    · rw [if_neg hid] at hne ⊢
      exact h.written id hne
  digest := digest_put h
  takesRelated id related hr := (related_put h he id hr).1
  related id related hr := (related_put h he id hr).2
  takesTypes := by
    rw [putChunk_single_relatedTypes, Cell.takesMembers_add]
    exact h.takesTypes
  types related hr := by
    rw [putChunk_single_relatedTypes, Cell.mem_members_add h.takesTypes, mem_relatedTypes] at hr
    rcases hr with hr | ⟨ids, hids, -⟩
    · exact h.types related hr
    · exact he.related related (Std.ExtTreeMap.mem_iff_isSome_getElem?.2 (by rw [hids]; rfl))
  listed id related ids hids := by
    rw [putChunk_single_relatedTypes, Cell.mem_members_add h.takesTypes, mem_relatedTypes]
    have hold : (recordAt records id).relationships[related]? = some ids →
        ids.isEmpty = false ∧ related ∈ (m (o.relatedTypesKey type)).members := h.listed id related ids
    rw [recordAt_insert] at hids
    by_cases hid : e.id = id
    · subst hid
      rw [if_pos rfl, Record.write_relationships] at hids
      cases hincoming : e.relationships[related]? with
      | none =>
          rw [hincoming] at hids
          exact (hold hids).imp_right .inl
      | some incoming =>
          rw [hincoming] at hids
          by_cases hempty : incoming.isEmpty
          · simp only [hempty, if_true] at hids
            split at hids
            · contradiction
            · exact (hold hids).imp_right .inl
          · rw [Bool.not_eq_true] at hempty
            simp only [hempty, Bool.false_eq_true, if_false, Option.some.injEq] at hids
            refine ⟨?_, .inr ⟨incoming, rfl, hempty⟩⟩
            rw [← hids]
            split
            · exact hempty
            · rw [Std.ExtTreeSet.isEmpty_union, hempty, Bool.and_false]
    · rw [if_neg hid] at hids
      exact (hold hids).imp_right .inl

/-- Writing entities of different ids keeps cells and records alike. -/
theorem putEach (hW : Faithful o W) (h : Mirrors o W type records m) (hes : ∀ e ∈ es, e.Fits W) :
    Mirrors o W type
      (es.foldl (fun records e => records.insert e.id ((recordAt records e.id).write mode e)) records)
      (KeyValue.putEach o mode type m es) := by
  induction es generalizing records m with
  | nil => exact h
  | cons e es ih =>
      exact ih (h.put hW (hes e List.mem_cons_self)) fun e' he' => hes e' (List.mem_cons_of_mem _ he')

/-! ## Evictions -/

/-- An eviction keeps cells and records alike. -/
theorem evict (h : Mirrors o W type records m) (ids : List String) :
    Mirrors o W type (records.eraseMany ids) (m.applyAll (evictAll o type (typesOf o type m) ids)) := by
  have htypes : ∀ t ∈ typesOf o type m, Plain t := forall_mem_typesOf.2 h.types
  have hrelated : ∀ id related, Plain related →
      (m.applyAll (evictAll o type (typesOf o type m) ids)
          (o.relationshipKey type id related)).takesMembers ∧
        (m.applyAll (evictAll o type (typesOf o type m) ids)
          (o.relationshipKey type id related)).members =
          StringMap.find (recordAt (records.eraseMany ids) id).relationships related := by
    intro id related hr
    have htakes := h.takesRelated id related hr
    have hmembers := h.related id related hr
    rw [evict_related hr htypes, recordAt_eraseMany]
    by_cases hid : id ∈ ids
    · rw [if_pos hid]
      have hnone : StringMap.find ({} : Record).relationships related = ∅ := by simp [StringMap.find]
      rw [hnone]
      by_cases hlisted : related ∈ typesOf o type m
      · rw [if_pos ⟨hid, hlisted⟩]
        exact ⟨rfl, rfl⟩
      · -- What is not listed was never there.
        rw [if_neg fun hc => hlisted hc.2]
        refine ⟨htakes, hmembers.trans ?_⟩
        cases hfind : (recordAt records id).relationships[related]? with
        | none => simp [StringMap.find, hfind]
        | some found =>
            exact absurd (h.listed id related found hfind).2 (by simpa [typesOf] using hlisted)
    · rw [if_neg hid, if_neg fun hc => hid hc.1]
      exact ⟨htakes, hmembers⟩
  exact {
    takesIds := (evict_members m _ ids).1.trans h.takesIds
    ids := fun id => by
      rw [members, (evict_members m _ ids).2, Std.ExtTreeMap.mem_iff_isSome_getElem?,
        StringMap.getElem?_eraseMany]
      have hid : id ∈ (m (o.membersKey type)).members ↔ id ∈ records := h.ids id
      rw [Std.ExtTreeMap.mem_iff_isSome_getElem?] at hid
      by_cases hmem : id ∈ ids
      · simp [hmem]
      · simpa [hmem] using hid
    attributes := fun id => by
      rw [evict_attributes, recordAt_eraseMany]
      by_cases hid : id ∈ ids
      · rw [if_pos hid, if_pos hid]
        rfl
      · rw [if_neg hid, if_neg hid]
        exact h.attributes id
    written := fun id hne => by
      rw [recordAt_eraseMany] at hne ⊢
      by_cases hid : id ∈ ids
      · rw [if_pos hid] at hne
        contradiction
      · rw [if_neg hid] at hne ⊢
        exact h.written id hne
    digest := fun id d hd => by
      obtain ⟨hd, hid⟩ := ((evict_digests m _ ids).2 id d).1 hd
      rw [recordAt_eraseMany, if_neg hid]
      exact h.digest id d hd
    takesRelated := fun id related hr => (hrelated id related hr).1
    related := fun id related hr => (hrelated id related hr).2
    takesTypes := by
      rw [evict_relatedTypes]
      exact h.takesTypes
    types := fun related hr => by
      rw [evict_relatedTypes] at hr
      exact h.types related hr
    listed := fun id related found hfound => by
      rw [evict_relatedTypes]
      rw [recordAt_eraseMany] at hfound
      by_cases hid : id ∈ ids
      · rw [if_pos hid] at hfound
        simp at hfound
      · rw [if_neg hid] at hfound
        exact h.listed id related found hfound }

/-! ## Removed references -/

/-- The removal of references keeps cells and records alike. -/
theorem unlink (h : Mirrors o W type records m) (ids : List String) {related : String}
    (hplain : Plain related) (targets : List String) :
    Mirrors o W type (Memory.unlinkAll records ids related targets)
      (m.applyAll (KeyValue.unlinkAll o type ids related targets)) := by
  have hmembers : m.applyAll (KeyValue.unlinkAll o type ids related targets) (o.membersKey type) =
      m (o.membersKey type) := unlink_slot .members m ids related targets
  have htypes : m.applyAll (KeyValue.unlinkAll o type ids related targets) (o.relatedTypesKey type) =
      m (o.relatedTypesKey type) := unlink_slot .relatedTypes m ids related targets
  have hdigests : m.applyAll (KeyValue.unlinkAll o type ids related targets) (o.digestsKey type) =
      m (o.digestsKey type) := unlink_slot .digests m ids related targets
  have hattributes : ∀ id, m.applyAll (KeyValue.unlinkAll o type ids related targets)
      (o.attributesKey type id) = m (o.attributesKey type id) :=
    fun id => unlink_slot (.attributes id) m ids related targets
  have hkept : ∀ id, (recordAt (Memory.unlinkAll records ids related targets) id).attributes =
      (recordAt records id).attributes := by
    intro id
    rw [recordAt_unlinkAll]
    split
    · exact Record.unlink_attributes
    · rfl
  exact {
    takesIds := by
      rw [hmembers]
      exact h.takesIds
    ids := fun id => by
      rw [members, hmembers, Memory.mem_unlinkAll]
      exact h.ids id
    attributes := fun id => by
      rw [hattributes, hkept]
      exact h.attributes id
    written := fun id hne => by
      rw [hkept] at hne ⊢
      exact h.written id hne
    digest := fun id d hd => by
      rw [hdigests] at hd
      rw [hkept]
      exact h.digest id d hd
    takesRelated := fun id related' hr =>
      (unlink_related hplain hr m ids targets id).1.trans (h.takesRelated id related' hr)
    related := fun id related' hr => Std.ExtTreeSet.ext_mem fun x => by
      rw [(unlink_related hplain hr m ids targets id).2, h.related id related' hr, recordAt_unlinkAll]
      by_cases hid : id ∈ ids
      · rw [if_pos hid, Record.mem_find_unlink]
        simp [hid]
      · rw [if_neg hid]
        simp [hid]
    takesTypes := by
      rw [htypes]
      exact h.takesTypes
    types := fun related' hr => by
      rw [htypes] at hr
      exact h.types related' hr
    listed := fun id related' found hfound => by
      rw [htypes]
      rw [recordAt_unlinkAll] at hfound
      by_cases hid : id ∈ ids
      · rw [if_pos hid, Record.unlink_relationships fun related ids hids =>
          (h.listed id related ids hids).1] at hfound
        by_cases hrelated : related = related'
        · subst hrelated
          rw [if_pos rfl] at hfound
          obtain ⟨old, hold, hfound⟩ := Option.bind_eq_some_iff.1 hfound
          split at hfound
          · contradiction
          · next hne =>
            rw [← Option.some.inj hfound]
            exact ⟨by simpa using hne, (h.listed id related old hold).2⟩
        · rw [if_neg hrelated] at hfound
          exact h.listed id related' found hfound
      · rw [if_neg hid] at hfound
        exact h.listed id related' found hfound }

end Mirrors

end Inventory
