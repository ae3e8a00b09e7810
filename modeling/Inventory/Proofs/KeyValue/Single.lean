import Inventory.Proofs.KeyValue.Attributes
import Inventory.Proofs.KeyValue.Frames

/-!
# Inventory.Proofs.KeyValue.Single

What writing a single entity makes of each cell of its type.

The attributes are skipped if the stored digest is theirs and they do not expire (`skips`); otherwise
they are put in the place of what is there.
-/

namespace Inventory.KeyValue

/-! ## Attributes that can be stored -/

/-- Attributes survive being stored, and their digests tell them apart. -/
structure Faithful (o : Options) (W : Attributes → Prop) : Prop where
  decode : ∀ a, W a → Blob.decode (Blob.encode o.compression (Blob.content a)) = .ok a
  content : ∀ a b, W a → W b → Blob.digest a = Blob.digest b → Blob.content a = Blob.content b

variable {o : Options} {mode : WriteMode} {type : String} {m : Cells} {e : Entity}

theorem Faithful.eq_of_content {W : Attributes → Prop} (h : Faithful o W) {a b : Attributes}
    (ha : W a) (hb : W b) (hcontent : Blob.content a = Blob.content b) : a = b := by
  have hdecode := h.decode a ha
  rw [hcontent, h.decode b hb] at hdecode
  exact (Except.ok.inj hdecode).symm

theorem digest_congr {a b : Attributes} (h : Blob.content a = Blob.content b) :
    Blob.digest a = Blob.digest b := by
  unfold Blob.digest
  rw [h]

theorem Faithful.eq_of_digest {W : Attributes → Prop} (h : Faithful o W) {a b : Attributes}
    (ha : W a) (hb : W b) (hdigest : Blob.digest a = Blob.digest b) : a = b :=
  h.eq_of_content ha hb (h.content a b ha hb hdigest)

/-- Attributes with one number. -/
def numbered (n : Int) : Attributes := [("v", .number (.int n))]

/-- Whether nothing but this number was read. -/
def showsNumber (n : Int) : Except Error Attributes → Bool
  | .ok [(name, .number (.int k))] => name == "v" && k == n
  | _ => false

theorem eq_ok_of_showsNumber {n : Int} {read : Except Error Attributes} (h : showsNumber n read) :
    read = .ok (numbered n) := by
  unfold showsNumber at h
  split at h
  · simp only [Bool.and_eq_true, beq_iff_eq] at h
    rw [h.1, h.2, numbered]
  · contradiction

/-- Attributes with the first number or the second. -/
def OneOrTwo (a : Attributes) : Prop := a = numbered 1 ∨ a = numbered 2

theorem digest_one_ne_two : Blob.digest (numbered 1) ≠ Blob.digest (numbered 2) := by decide +kernel

/-- Two numbers can be stored, compressed or not. -/
theorem faithful_oneOrTwo (o : Options) : Faithful o OneOrTwo where
  decode := by
    have hread : ∀ c, ∀ n ∈ [1, 2],
        showsNumber n (Blob.decode (Blob.encode c (Blob.content (numbered n)))) := by decide +kernel
    rintro a (rfl | rfl) <;> exact eq_ok_of_showsNumber (hread o.compression _ (by decide))
  content := by
    rintro a b (rfl | rfl) (rfl | rfl) hdigest
    · rfl
    · exact absurd hdigest digest_one_ne_two
    · exact absurd hdigest.symm digest_one_ne_two
    · rfl

/-! ## Attributes -/

/-- Whether the attributes of an entity are skipped, given what is stored as its digest. -/
def skips (o : Options) (digest : Option Bytes) (e : Entity) : Bool :=
  o.hashing && isComparable e && digest == some (Blob.digest e.attributes)

theorem isUnchanged_fetched (m : Cells) (e : Entity) :
    isUnchanged (fetched o type m [e]) e = skips o ((m (o.digestsKey type)).field? e.id) e := by
  unfold isUnchanged skips
  rw [getElem?_fetched]
  cases o.hashing with
  | false => simp
  | true =>
      by_cases hcomparable : isComparable e
      · simp [hcomparable, (isComparable_iff.1 hcomparable).1]
      · simp [hcomparable]

theorem isComparable_of_skips {d : Option Bytes} (h : skips o d e) : isComparable e := by
  simp only [skips, Bool.and_eq_true] at h
  exact h.1.2

theorem ttl_of_skips {d : Option Bytes} (h : skips o d e) : e.ttl = none :=
  (isComparable_iff.1 (isComparable_of_skips h)).2

theorem putAttributeChunk_attributes (m : Cells) (e : Entity) :
    putAttributeChunk o type m [e] (o.attributesKey type e.id) =
      if e.attributes.isEmpty || skips o ((m (o.digestsKey type)).field? e.id) e then
        m (o.attributesKey type e.id)
      else ⟨some (.blob (blobOf o e)), e.ttl⟩ := by
  refine (applyAll_attributes m _ e).trans ?_
  rw [attributeCell, isUnchanged_fetched]
  by_cases hempty : e.attributes.isEmpty
  · simp [hempty]
  · by_cases hskips : skips o ((m (o.digestsKey type)).field? e.id) e
    · simp [hskips, ttl_of_skips hskips, Cell.expiring]
    · simp [hempty, hskips]

theorem putAttributeChunk_digest (m : Cells) (e : Entity) :
    (putAttributeChunk o type m [e] (o.digestsKey type)).field? e.id =
      if o.hashing && !e.attributes.isEmpty && !skips o ((m (o.digestsKey type)).field? e.id) e then
        if e.ttl.isNone ∧ (m (o.digestsKey type)).takesFields then some (Blob.digest e.attributes)
        else none
      else (m (o.digestsKey type)).field? e.id := by
  refine (field?_attributes m _ e e.id).trans ?_
  rw [changesDigest, isUnchanged_fetched]
  simp only [and_true]

/-! ## The whole entity -/

theorem putChunk_single (m : Cells) (e : Entity) :
    putChunk o mode type m [e] = putAttributeChunk o type (putFrames o mode type m [e]) [e] :=
  putEach_eq o mode type m [e]

/-- Besides the attributes and the digests, a single entity changes what its frame changes. -/
theorem putChunk_single_other {key : String} (hattributes : key ≠ o.attributesKey type e.id)
    (hdigests : key ≠ o.digestsKey type) (m : Cells) :
    putChunk o mode type m [e] key = m.applyAll (frame o mode type e) key :=
  putEach_other (List.forall_mem_singleton.2 hattributes) hdigests m

theorem putChunk_single_members (m : Cells) (e : Entity) :
    putChunk o mode type m [e] (o.membersKey type) = (m (o.membersKey type)).add [e.id] := by
  exact (putChunk_single_other (Slot.key_ne .members (.attributes e.id))
    (Slot.key_ne .members .digests) m).trans (applyAll_frame_members o mode type m e)

theorem putChunk_single_relatedTypes (m : Cells) (e : Entity) :
    putChunk o mode type m [e] (o.relatedTypesKey type) =
      (m (o.relatedTypesKey type)).add (relatedTypes e) := by
  exact (putChunk_single_other (Slot.key_ne .relatedTypes (.attributes e.id))
    (Slot.key_ne .relatedTypes .digests) m).trans (applyAll_frame_relatedTypes m e)

theorem putChunk_single_attributes (m : Cells) (e : Entity) (id : String) :
    putChunk o mode type m [e] (o.attributesKey type id) =
      if e.id = id ∧ (e.attributes.isEmpty || skips o ((m (o.digestsKey type)).field? id) e) = false
      then ⟨some (.blob (blobOf o e)), e.ttl⟩
      else m (o.attributesKey type id) := by
  have hframes := sameFor_putFrames o type mode m [e] id
  rw [putChunk_single]
  by_cases hid : e.id = id
  · subst hid
    rw [putAttributeChunk_attributes, hframes.attributes, hframes.digest]
    cases e.attributes.isEmpty || skips o ((m (o.digestsKey type)).field? e.id) e <;> simp
  · rw [(sameFor_of_ne hid).attributes, hframes.attributes, if_neg fun h => hid h.1]

theorem putChunk_single_digest (m : Cells) (e : Entity) (id : String) :
    (putChunk o mode type m [e] (o.digestsKey type)).field? id =
      if e.id = id ∧ (o.hashing && !e.attributes.isEmpty &&
        !skips o ((m (o.digestsKey type)).field? id) e) = true then
        if e.ttl.isNone ∧ (m (o.digestsKey type)).takesFields then some (Blob.digest e.attributes)
        else none
      else (m (o.digestsKey type)).field? id := by
  have hframes := sameFor_putFrames o type mode m [e] id
  rw [putChunk_single]
  by_cases hid : e.id = id
  · subst hid
    rw [putAttributeChunk_digest, hframes.digest, hframes.takesFields]
    simp
  · rw [(sameFor_of_ne hid).digest, hframes.digest, if_neg fun h => hid h.1]

theorem mem_relatedTypes {related : String} :
    related ∈ relatedTypes e ↔ ∃ ids, e.relationships[related]? = some ids ∧ ids.isEmpty = false := by
  simp only [relatedTypes, List.mem_map, List.mem_filter, Prod.exists,
    Std.ExtTreeMap.mem_toList_iff_getElem?_eq_some]
  constructor
  · rintro ⟨_, ids, ⟨hids, hempty⟩, rfl⟩
    exact ⟨ids, hids, by simpa using hempty⟩
  · rintro ⟨ids, hids, hempty⟩
    exact ⟨related, ids, ⟨hids, by simpa using hempty⟩, rfl⟩

/-- The related ids of other entities stay as they are, if the types can be told from the keys. -/
theorem applyAll_frame_related_of_plain (hplain : ∀ related ∈ e.relationships, Plain related) (m : Cells)
    (id : String) {related : String} (hrelated : Plain related) :
    m.applyAll (frame o mode type e) (o.relationshipKey type id related) =
      match if e.id = id then e.relationships[related]? else none with
      | some ids => relatedCell mode ids e.ttl (m (o.relationshipKey type id related))
      | none => m (o.relationshipKey type id related) := by
  by_cases hid : e.id = id
  · subst hid
    rw [if_pos rfl]
    exact applyAll_frame_related m e related
  · rw [if_neg hid]
    refine Cells.applyAll_of_forall_ne fun c hc hkey => ?_
    rcases key_of_mem_frame o mode type hc with h | h | ⟨related', hrelated', h⟩
    · exact absurd (h.symm.trans hkey) (Slot.key_ne .members (.related id related))
    · exact absurd (h.symm.trans hkey) (Slot.key_ne .relatedTypes (.related id related))
    · exact hid (Slot.eq_of_related_key_eq o type (hplain related' hrelated') hrelated
        (h.symm.trans hkey)).1

theorem putChunk_single_related (hplain : ∀ related ∈ e.relationships, Plain related) (m : Cells)
    (id : String) {related : String} (hrelated : Plain related) :
    putChunk o mode type m [e] (o.relationshipKey type id related) =
      match if e.id = id then e.relationships[related]? else none with
      | some ids => relatedCell mode ids e.ttl (m (o.relationshipKey type id related))
      | none => m (o.relationshipKey type id related) :=
  (putChunk_single_other (Slot.key_ne (.related id related) (.attributes e.id))
    (Slot.key_ne (.related id related) .digests) m).trans
    (applyAll_frame_related_of_plain hplain m id hrelated)

end Inventory.KeyValue
