import Inventory.Proofs.KeyValue.Requests
import Inventory.Proofs.KeyValue.Single
import Mathlib.Data.List.Induction

/-!
# Inventory.Proofs.KeyValue.Versions

The versions of one entity in a write, and what is left of them.

What becomes of the attributes of an id depends on its versions only, those entities of the id that have
attributes (`sameFor_versions`). They are compared with the digest that was there before their chunk, so
the cut into chunks shows as soon as the digest is that of some of them but not of all, or of a version
that expires after one that does not (`Steady`).
-/

namespace Inventory.KeyValue

variable {o : Options} {mode : WriteMode} {type : String} {m m' : Cells} {id : String} {e : Entity}
  {es : List Entity} {stored stored' : StringMap Bytes}

/-! ## Versions -/

/-- The entities of an id that have attributes. -/
def versions (id : String) (es : List Entity) : List Entity :=
  es.filter fun e => decide (e.id = id) && !e.attributes.isEmpty

theorem mem_versions : e ∈ versions id es ↔ e ∈ es ∧ e.id = id ∧ e.attributes ≠ [] := by
  simp [versions]

theorem versions_of_forall (h : ∀ e ∈ es, e.id = id ∧ e.attributes ≠ []) : versions id es = es :=
  List.filter_eq_self.2 fun e he => by simpa using h e he

/-- The digest that versions of an entity are compared with. -/
def compared (o : Options) (type : String) (m : Cells) (id : String) (vs : List Entity) : Option Bytes :=
  if o.hashing ∧ ∃ e ∈ vs, isComparable e then (m (o.digestsKey type)).field? id else none

/-- Of a chunk the versions of an entity are compared with the digest of its id. -/
theorem getElem?_fetched_versions (m : Cells) (chunk : List Entity) (id : String) :
    (fetched o type m chunk)[id]? = compared o type m id (versions id chunk) := by
  rw [getElem?_fetched, compared]
  refine if_congr (and_congr_right fun _ => ⟨?_, ?_⟩) rfl rfl
  · rintro ⟨e, he, hcomparable, hid⟩
    have hne : e.attributes ≠ [] := by simpa using (isComparable_iff.1 hcomparable).1
    exact ⟨e, mem_versions.2 ⟨he, hid, hne⟩, hcomparable⟩
  · rintro ⟨e, he, hcomparable⟩
    obtain ⟨he, hid, -⟩ := mem_versions.1 he
    exact ⟨e, he, hcomparable, hid⟩

/-- Of the attributes of a chunk those of an id depend on its versions. -/
theorem sameFor_putAttributes (h : SameFor o type id m m') (hstored : stored[id]? = stored'[id]?)
    (es : List Entity) : SameFor o type id (putAttributes o type m stored es)
      (putAttributes o type m' stored' (versions id es)) := by
  induction es generalizing m m' with
  | nil => exact h
  | cons e es ih =>
      by_cases hid : e.id = id
      · by_cases hempty : e.attributes.isEmpty
        · have hversions : versions id (e :: es) = versions id es :=
            List.filter_cons_of_neg (by simp [hempty])
          rw [hversions]
          refine ih ?_
          dsimp only
          rwa [attributeCommands_of_isEmpty hempty]
        · have hversions : versions id (e :: es) = e :: versions id es :=
            List.filter_cons_of_pos (by simp [hid, hempty])
          rw [hversions]
          exact ih (h.applyAll_attributes hid hstored)
      · have hversions : versions id (e :: es) = versions id es :=
          List.filter_cons_of_neg (by simp [hid])
        rw [hversions]
        exact ih ((sameFor_applyAll_of_ne hid m stored).trans h)

theorem sameFor_putAttributeChunk (h : SameFor o type id m m') (chunk : List Entity) :
    SameFor o type id (putAttributeChunk o type m chunk)
      (putAttributeChunk o type m' (versions id chunk)) := by
  refine sameFor_putAttributes h ?_ chunk
  have hversions : versions id (versions id chunk) = versions id chunk :=
    versions_of_forall fun e he => (mem_versions.1 he).2
  rw [getElem?_fetched_versions, getElem?_fetched_versions, hversions, compared, compared, h.digest]

/-- Of the attributes of several chunks those of an id depend on its versions. -/
theorem sameFor_versions (m : Cells) (chunks : List (List Entity)) (id : String) :
    SameFor o type id (chunks.foldl (putAttributeChunk o type) m)
      ((chunks.map (versions id)).foldl (putAttributeChunk o type) m) := by
  suffices hboth : ∀ m m', SameFor o type id m m' →
      SameFor o type id (chunks.foldl (putAttributeChunk o type) m)
        ((chunks.map (versions id)).foldl (putAttributeChunk o type) m') from hboth m m ⟨rfl, rfl, rfl⟩
  induction chunks with
  | nil => exact fun m m' h => h
  | cons chunk chunks ih => exact fun m m' h => ih _ _ (sameFor_putAttributeChunk h chunk)

theorem flatten_map_versions (chunks : List (List Entity)) (id : String) :
    (chunks.map (versions id)).flatten = versions id chunks.flatten := by
  rw [versions, List.filter_flatten]
  rfl

/-! ## One version after the other -/

/-- What a version makes of the cell of its attributes, if its chunk was compared with a digest. -/
def settle (o : Options) (digest : Option Bytes) (c : Cell) (e : Entity) : Cell :=
  if digest = some (Blob.digest e.attributes) then c.expiring e.ttl
  else ⟨some (.blob (blobOf o e)), e.ttl⟩

theorem putAttributes_settle (h : ∀ e ∈ es, e.id = id ∧ e.attributes ≠ []) (m : Cells)
    (stored : StringMap Bytes) : putAttributes o type m stored es (o.attributesKey type id) =
      es.foldl (settle o stored[id]?) (m (o.attributesKey type id)) := by
  induction es generalizing m with
  | nil => rfl
  | cons e es ih =>
      obtain ⟨rfl, hne⟩ := h e List.mem_cons_self
      have hempty : e.attributes.isEmpty = false := by simpa using hne
      have hstep : m.applyAll (attributeCommands o type stored e) (o.attributesKey type e.id) =
          settle o stored[e.id]? (m (o.attributesKey type e.id)) e := by
        rw [applyAll_attributes, attributeCell, settle, isUnchanged, hempty]
        simp
      rw [List.foldl_cons, ← hstep]
      exact ih (fun e' he' => h e' (List.mem_cons_of_mem _ he')) _

theorem putAttributeChunk_settle (h : ∀ e ∈ es, e.id = id ∧ e.attributes ≠ []) (m : Cells) :
    putAttributeChunk o type m es (o.attributesKey type id) =
      es.foldl (settle o (compared o type m id es)) (m (o.attributesKey type id)) := by
  refine (putAttributes_settle h m _).trans ?_
  rw [getElem?_fetched_versions, versions_of_forall h]

/-! ## Digests and blobs -/

/-- Every digest is that of attributes whose blob is there. -/
def Attested (o : Options) (W : Attributes → Prop) (type : String) (m : Cells) : Prop :=
  ∀ id d, (m (o.digestsKey type)).field? id = some d → o.hashing ∧ ∃ a, W a ∧ d = Blob.digest a ∧
    (m (o.attributesKey type id)).value = some (.blob (Blob.encode o.compression (Blob.content a)))

namespace Attested

variable {W : Attributes → Prop}

theorem empty (o : Options) (W : Attributes → Prop) (type : String) :
    Attested o W type fun _ => {} := fun id d hd => by simp [Cell.field?] at hd

/-- Cells under other keys do not matter. -/
theorem congr (h : Attested o W type m) (hdigests : m' (o.digestsKey type) = m (o.digestsKey type))
    (hattributes : ∀ id, m' (o.attributesKey type id) = m (o.attributesKey type id)) :
    Attested o W type m' := by
  intro id d hd
  rw [hattributes]
  rw [hdigests] at hd
  exact h id d hd

/-- Whatever an entity is compared with, it is written with its digest or without. -/
theorem applyAll_attributes (h : Attested o W type m) (he : e.attributes ≠ [] → W e.attributes)
    (stored : StringMap Bytes) : Attested o W type (m.applyAll (attributeCommands o type stored e)) := by
  intro id d hd
  by_cases hid : e.id = id
  · subst hid
    rw [field?_attributes] at hd
    rw [KeyValue.applyAll_attributes, attributeCell]
    by_cases hempty : e.attributes.isEmpty
    · rw [if_neg (by simp [changesDigest, hempty])] at hd
      rw [if_pos hempty]
      exact h e.id d hd
    · rw [if_neg hempty]
      by_cases hunchanged : isUnchanged stored e
      · rw [if_neg (by simp [changesDigest, hunchanged])] at hd
        rw [if_pos hunchanged]
        obtain ⟨hhashing, a, ha, hdigest, hvalue⟩ := h e.id d hd
        exact ⟨hhashing, a, ha, hdigest, Cell.value_expiring.trans hvalue⟩
      · rw [if_neg hunchanged]
        by_cases hchange : changesDigest o stored e
        · rw [if_pos ⟨hchange, rfl⟩] at hd
          split at hd
          · simp only [changesDigest, Bool.and_eq_true] at hchange
            exact ⟨hchange.1.1, e.attributes, he (by simpa using hempty), (Option.some.inj hd).symm, rfl⟩
          · contradiction
        · rw [if_neg fun hc => hchange hc.1] at hd
          obtain ⟨hhashing, -⟩ := h e.id d hd
          simp [changesDigest, hhashing, hempty, hunchanged] at hchange
  · have hsame : SameFor o type id (m.applyAll (attributeCommands o type stored e)) m :=
      sameFor_applyAll_of_ne hid m stored
    rw [hsame.digest] at hd
    rw [hsame.attributes]
    exact h id d hd

theorem putAttributes (h : Attested o W type m) (hes : ∀ e ∈ es, e.attributes ≠ [] → W e.attributes)
    (stored : StringMap Bytes) : Attested o W type (putAttributes o type m stored es) := by
  induction es generalizing m with
  | nil => exact h
  | cons e es ih =>
      exact ih (h.applyAll_attributes (hes e List.mem_cons_self) stored)
        fun e' he' => hes e' (List.mem_cons_of_mem _ he')

theorem foldl_putAttributeChunk (h : Attested o W type m) {chunks : List (List Entity)}
    (hchunks : ∀ e ∈ chunks.flatten, e.attributes ≠ [] → W e.attributes) :
    Attested o W type (chunks.foldl (putAttributeChunk o type) m) := by
  induction chunks generalizing m with
  | nil => exact h
  | cons chunk chunks ih =>
      rw [List.flatten_cons, List.forall_mem_append] at hchunks
      exact ih (h.putAttributes hchunks.1 _) hchunks.2

/-- A write keeps digests and blobs together, however often it names an id. -/
theorem putChunks (h : Attested o W type m) {chunks : List (List Entity)}
    (hchunks : ∀ e ∈ chunks.flatten, e.attributes ≠ [] → W e.attributes) :
    Attested o W type (putChunks o mode type m chunks) := by
  rw [putChunks_eq]
  refine foldl_putAttributeChunk (h.congr (putFrames_digests m _) fun id => ?_) hchunks
  exact putFrames_attributes m _ id

/-- An eviction removes digests with their blobs. -/
theorem evict (h : Attested o W type m) (types ids : List String) :
    Attested o W type (m.applyAll (evictAll o type types ids)) := by
  intro id d hd
  obtain ⟨hd, hid⟩ := ((evict_digests m types ids).2 id d).1 hd
  rw [evict_attributes, if_neg hid]
  exact h id d hd

end Attested

/-- A request on a type without a colon, in which attributes are written that can be stored. -/
def Written (W : Attributes → Prop) : CacheRequest → Prop
  | .write _ type es => Plain type ∧ ∀ e ∈ es, e.attributes ≠ [] → W e.attributes
  | r => Plain r.type

/-- Requests keep the digests and the blobs of every type without a colon together. -/
theorem Attested.respond {W : Attributes → Prop} (ht : Plain type) (h : Attested o W type m)
    {r : CacheRequest} (hr : Written W r) : Attested o W type (Backend.respond o r m).1 := by
  by_cases htype : r.type = type
  · subst htype
    cases r with
    | write mode type es =>
        by_cases hempty : ∃ e ∈ es, e.id.isEmpty
        · obtain ⟨error, hwrite⟩ := respond_write_of_isEmpty o mode type hempty m
          rwa [hwrite]
        · rw [respond_write (by simpa using hempty)]
          exact h.putChunks (by rw [flatten_batches]; exact hr.2)
    | evict type ids =>
        rw [respond_evict]
        exact h.evict _ ids
    | unlink type ids related targets =>
        rw [respond_unlink]
        refine h.congr ?_ fun id => ?_
        · exact unlink_other (fun id => Slot.key_ne .digests (.related id related)) m ids targets
        · exact unlink_other (fun id' => Slot.key_ne (.attributes id) (.related id' related)) m ids targets
    | _ => rwa [Backend.respond_read rfl]
  · have hplain : Plain r.type := by
      cases r with
      | write mode type es => exact hr.1
      | _ => exact hr
    have hother : ∀ slot : Slot, (Backend.respond o r m).1 (slot.key o type) = m (slot.key o type) :=
      fun slot => respond_other (fun slot' hkey =>
        htype (Slot.eq_of_key_eq_of_plain ht hplain hkey).symm) m
    exact h.congr (hother .digests) fun id => hother (.attributes id)

/-! ## What is left of several versions -/

section Settle

variable {digest : Option Bytes} {c : Cell} {last : Entity} {vs : List Entity}

/-- If a digest comes with the blob of its attributes, then the last of several versions with the same
attributes is left, provided that it expires. -/
theorem foldl_settle_of_expires (hlast : last.ttl.isSome)
    (hcontent : ∀ e ∈ vs ++ [last], Blob.content e.attributes = Blob.content last.attributes)
    (hvalue : digest = some (Blob.digest last.attributes) → c.value = some (.blob (blobOf o last))) :
    (vs ++ [last]).foldl (settle o digest) c = ⟨some (.blob (blobOf o last)), last.ttl⟩ := by
  induction vs generalizing c with
  | nil =>
      obtain ⟨seconds, hseconds⟩ := Option.isSome_iff_exists.1 hlast
      rw [List.nil_append, List.foldl_cons, List.foldl_nil, settle]
      split
      · next h => simp [Cell.expiring, hseconds, hvalue h]
      · rfl
  | cons e vs ih =>
      have he := hcontent e List.mem_cons_self
      refine ih (fun e' he' => hcontent e' (List.mem_cons_of_mem _ he')) fun h => ?_
      rw [settle]
      split
      · rw [Cell.value_expiring, hvalue h]
      · rw [blobOf, blobOf, he]

/-- Compared with the digest of attributes that only some versions have, the last of the others is
left. -/
theorem foldl_settle_of_differs
    (hdigest : ∀ e ∈ vs, digest = some (Blob.digest e.attributes) →
      Blob.content e.attributes = Blob.content last.attributes)
    (hcontent : ∀ e : Entity, Blob.content e.attributes = Blob.content last.attributes →
      digest = some (Blob.digest e.attributes))
    (hdiffers : ∃ e ∈ vs, Blob.content e.attributes ≠ Blob.content last.attributes) :
    ∃ e ∈ vs, Blob.content e.attributes ≠ Blob.content last.attributes ∧
      (vs.foldl (settle o digest) c).value = some (.blob (blobOf o e)) := by
  induction vs using List.reverseRecOn with
  | nil => simp at hdiffers
  | append_singleton vs e ih =>
      rw [List.foldl_append, List.foldl_cons, List.foldl_nil]
      by_cases he : Blob.content e.attributes = Blob.content last.attributes
      · have hbefore : ∃ e ∈ vs, Blob.content e.attributes ≠ Blob.content last.attributes := by
          obtain ⟨e', he', hne⟩ := hdiffers
          rcases List.mem_append.1 he' with he' | he'
          · exact ⟨e', he', hne⟩
          · rw [List.mem_singleton.1 he'] at hne
            contradiction
        obtain ⟨e', he', hne, hvalue⟩ :=
          ih (fun e' he' => hdigest e' (List.mem_append_left _ he')) hbefore
        refine ⟨e', List.mem_append_left _ he', hne, ?_⟩
        rw [settle, if_pos (hcontent e he), Cell.value_expiring, hvalue]
      · have hmem : e ∈ vs ++ [e] := List.mem_append_right _ (List.mem_singleton.2 rfl)
        refine ⟨e, hmem, he, ?_⟩
        rw [settle, if_neg fun h => he (hdigest e hmem h)]

/-- Compared with their own digest, versions never stop to expire. -/
theorem isSome_ttl_foldl_settle (hdigest : ∀ e ∈ vs, digest = some (Blob.digest e.attributes))
    (hvalue : c.value.isSome) (httl : c.ttl.isSome ∨ ∃ e ∈ vs, e.ttl.isSome) :
    (vs.foldl (settle o digest) c).ttl.isSome := by
  induction vs generalizing c with
  | nil => simpa using httl
  | cons e vs ih =>
      have hstep : settle o digest c e = c.expiring e.ttl := if_pos (hdigest e List.mem_cons_self)
      rw [List.foldl_cons, hstep]
      refine ih (fun e' he' => hdigest e' (List.mem_cons_of_mem _ he'))
        (by rwa [Cell.value_expiring]) ?_
      cases he : e.ttl with
      | some seconds => simp [Cell.expiring, hvalue]
      | none =>
          rcases httl with httl | ⟨e', he', httl⟩
          · exact .inl httl
          · rcases List.mem_cons.1 he' with rfl | he'
            · simp [he] at httl
            · exact .inr ⟨e', he', httl⟩

/-- If versions are compared with the digest of the last and the last is left all the same, then they
all have its attributes, and if one of them expires, so does the last. -/
theorem same_of_foldl_settle {W : Attributes → Prop} (hW : Faithful o W)
    (hversions : ∀ e ∈ vs ++ [last], W e.attributes) (hvalue : c.value.isSome)
    (hattributes : ((vs ++ [last]).foldl (settle o (some (Blob.digest last.attributes))) c).attributes =
      Cell.attributes ⟨some (.blob (blobOf o last)), last.ttl⟩)
    (httl : ((vs ++ [last]).foldl (settle o (some (Blob.digest last.attributes))) c).ttl = last.ttl) :
    (∀ e ∈ vs ++ [last], Blob.content e.attributes = Blob.content last.attributes) ∧
      ((∀ e ∈ vs ++ [last], e.ttl = none) ∨ last.ttl.isSome) := by
  have hlast : W last.attributes := hversions last (by simp)
  have hsame : ∀ e : Entity, Blob.content e.attributes = Blob.content last.attributes →
      some (Blob.digest last.attributes) = some (Blob.digest e.attributes) := fun e he =>
    congrArg some (digest_congr he.symm)
  have hcontent : ∀ e ∈ vs ++ [last], Blob.content e.attributes = Blob.content last.attributes := by
    by_contra hdiffers
    push Not at hdiffers
    obtain ⟨e, he, hne, hleft⟩ := foldl_settle_of_differs (o := o) (c := c)
      (fun e he hdigest => hW.content _ _ (hversions e he) hlast (Option.some.inj hdigest).symm)
      hsame hdiffers
    have hread : Blob.decode (blobOf o e) = Blob.decode (blobOf o last) :=
      (Cell.attributes_of_value hleft).symm.trans hattributes
    rw [blobOf, blobOf, hW.decode _ (hversions e he), hW.decode _ hlast] at hread
    exact hne (congrArg Blob.content (Except.ok.inj hread))
  refine ⟨hcontent, ?_⟩
  by_cases hnone : ∀ e ∈ vs ++ [last], e.ttl = none
  · exact .inl hnone
  · right
    push Not at hnone
    obtain ⟨e, he, hsome⟩ := hnone
    rw [← httl]
    exact isSome_ttl_foldl_settle (fun e he => hsame e (hcontent e he)) hvalue
      (.inr ⟨e, he, Option.isSome_iff_ne_none.2 hsome⟩)

end Settle

end Inventory.KeyValue
