import Inventory.Proofs.KeyValue.Chunks
import Mathlib.Data.List.Nodup

/-!
# Inventory.Proofs.KeyValue.Attributes

What writing the attributes of entities makes of their blobs and digests.

Writing attributes changes the blob of the entity and its field among the digests, and nothing else
(`applyAll_attributes_other`). A chunk is compared with the digests that were there before it, so it is
written as its entities would be one by one if no version of an entity in it changes what the next one
is compared with (`putAttributeChunk_of_uniform`).
-/

namespace Inventory

/-! ## Cells -/

namespace Cell

/-- Whether fields can be put into a cell. -/
def takesFields (c : Cell) : Bool :=
  match c.value with
  | none | some (.hash _) => true
  | _ => false

variable {c : Cell} {field : String} {value : Bytes}

theorem field?_of_not_takesFields (h : c.takesFields = false) (field : String) :
    c.field? field = none := by
  rcases hv : c.value with _ | _ | _ | _ <;> simp_all [takesFields, field?]

theorem field?_setField (key field : String) (value : Bytes) (c : Cell) (field' : String) :
    ((Command.setField key field value).act c).field? field' =
      if c.takesFields ∧ field = field' then some value else c.field? field' := by
  rcases hv : c.value with _ | _ | _ | fields <;>
    simp [Command.act, field?, takesFields, hv, Std.ExtTreeMap.getElem?_insert]

/-- A field that has the value already is put there in vain. -/
theorem act_setField_of_field? (key : String) (h : c.field? field = some value) :
    (Command.setField key field value).act c = c := by
  rcases hv : c.value with _ | _ | _ | fields
  · simp [field?, hv] at h
  · simp [field?, hv] at h
  · simp [field?, hv] at h
  · have hget : fields[field]? = some value := by simpa [field?, hv] using h
    have hinsert : fields.insert field value = fields := by
      refine Std.ExtTreeMap.ext_getElem? fun k => ?_
      rw [Std.ExtTreeMap.getElem?_insert]
      by_cases hk : field = k
      · simp [← hk, hget]
      · simp [hk]
    simp [Command.act, hv, hinsert, Cell.ext_iff]

theorem field?_removeFields (key : String) (fields : List String) (c : Cell) (field : String) :
    ((Command.removeFields key fields).act c).field? field =
      if field ∈ fields then none else c.field? field := by
  rcases hv : c.value with _ | _ | _ | old
  · simp [Command.act, field?, hv]
  · simp [Command.act, field?, hv]
  · simp [Command.act, field?, hv]
  · rw [show c.field? field = old[field]? by simp [field?, hv], ← StringMap.getElem?_eraseMany]
    by_cases hleft : (old.eraseMany fields).isEmpty
    · have hnone : (old.eraseMany fields)[field]? = none := by
        rw [Std.ExtTreeMap.isEmpty_iff.1 hleft, Std.ExtTreeMap.getElem?_empty]
      simp [Command.act, field?, hv, hleft, hnone]
    · simp [Command.act, field?, hv, hleft]

/-- A command that only changes the fields of a hash. -/
def changesFields : Command → Bool
  | .setField .. | .removeFields .. => true
  | _ => false

variable {cmd : Command}

theorem takesFields_act (h : changesFields cmd) : (cmd.act c).takesFields = c.takesFields := by
  cases cmd <;> simp only [changesFields, Bool.false_eq_true] at h <;>
    rcases hv : c.value with _ | _ | _ | _ <;> grind [Command.act, takesFields]

theorem blob?_act (h : changesFields cmd) : (cmd.act c).blob? = c.blob? := by
  cases cmd <;> simp only [changesFields, Bool.false_eq_true] at h <;>
    rcases hv : c.value with _ | _ | _ | _ <;> grind [Command.act, blob?]

theorem members_act (h : changesFields cmd) : (cmd.act c).members = c.members := by
  cases cmd <;> simp only [changesFields, Bool.false_eq_true] at h <;>
    rcases hv : c.value with _ | _ | _ | _ <;> grind [Command.act, members]

theorem ttl_act (h : changesFields cmd) : (cmd.act c).ttl = c.ttl := by
  cases cmd <;> simp only [changesFields, Bool.false_eq_true] at h <;>
    rcases hv : c.value with _ | _ | _ | _ <;> grind [Command.act]

end Cell

/-! ## Writing the attributes of one entity -/

namespace KeyValue

variable (o : Options) (type : String)

/-- The blob that is written for an entity. -/
def blobOf (e : Entity) : Bytes := Blob.encode o.compression (Blob.content e.attributes)

/-- What writing an entity makes of the cell of its attributes. -/
def attributeCell (stored : StringMap Bytes) (e : Entity) (c : Cell) : Cell :=
  if e.attributes.isEmpty then c
  else if isUnchanged stored e then c.expiring e.ttl
  else ⟨some (.blob (blobOf o e)), e.ttl⟩

/-- Whether writing an entity changes the digests. -/
def changesDigest (stored : StringMap Bytes) (e : Entity) : Bool :=
  o.hashing && !e.attributes.isEmpty && !isUnchanged stored e

/-- What writing an entity makes of the cell of the digests. -/
def digestCell (stored : StringMap Bytes) (e : Entity) (c : Cell) : Cell :=
  if changesDigest o stored e then
    if e.ttl.isNone then
      (Command.setField (o.digestsKey type) e.id (Blob.digest e.attributes)).act c
    else (Command.removeFields (o.digestsKey type) [e.id]).act c
  else c

variable {o type} {m : Cells} {stored : StringMap Bytes} {e : Entity}

theorem attributesKey_ne_digestsKey (id : String) : o.attributesKey type id ≠ o.digestsKey type :=
  Slot.key_ne (.attributes id) .digests

theorem attributesKey_inj {id id' : String} :
    o.attributesKey type id = o.attributesKey type id' ↔ id = id' := by
  refine ⟨fun h => ?_, fun h => h ▸ rfl⟩
  have h' := Slot.eq_of_key_eq (a := .attributes id) (b := .attributes id') (by simp) h
  simpa using h'

theorem applyAll_digestCommands (m : Cells) (e : Entity) {key : String} (h : key ≠ o.digestsKey type) :
    m.applyAll (digestCommands o type e) key = m key := by
  refine Cells.applyAll_of_forall_ne fun c hc hkey => h ?_
  unfold digestCommands at hc
  grind [Command.key]

theorem applyAll_attributes (m : Cells) (stored : StringMap Bytes) (e : Entity) :
    m.applyAll (attributeCommands o type stored e) (o.attributesKey type e.id) =
      attributeCell o stored e (m (o.attributesKey type e.id)) := by
  unfold attributeCommands attributeCell
  split
  · rfl
  · split
    · rw [applyAll_expiry, if_pos rfl]
    · rw [List.cons_append, Cells.applyAll_cons, Cells.applyAll_append, applyAll_expiry, if_pos rfl,
        applyAll_digestCommands _ _ (attributesKey_ne_digestsKey e.id), Cells.apply, Command.key,
        if_pos rfl]
      cases e.ttl <;> rfl

theorem applyAll_attributes_digests (m : Cells) (stored : StringMap Bytes) (e : Entity) :
    m.applyAll (attributeCommands o type stored e) (o.digestsKey type) =
      digestCell o type stored e (m (o.digestsKey type)) := by
  have hne : o.attributesKey type e.id ≠ o.digestsKey type := attributesKey_ne_digestsKey e.id
  unfold attributeCommands digestCell changesDigest
  split
  · simp [*]
  · split
    · rw [applyAll_expiry, if_neg hne]
      simp [*]
    · rw [List.cons_append, Cells.applyAll_cons, Cells.applyAll_append, applyAll_expiry, if_neg hne]
      have hset : ∀ value, m.apply (.set (o.attributesKey type e.id) value) (o.digestsKey type) =
          m (o.digestsKey type) := fun value => Cells.apply_of_ne hne
      unfold digestCommands
      cases o.hashing with
      | false => simp [hset]
      | true => cases e.ttl <;> simp [*, Cells.apply, Command.key]

theorem applyAll_attributes_other {key : String} (hattributes : key ≠ o.attributesKey type e.id)
    (hdigests : key ≠ o.digestsKey type) :
    m.applyAll (attributeCommands o type stored e) key = m key := by
  refine Cells.applyAll_of_forall_ne fun c hc hkey => ?_
  rcases key_of_mem_attributeCommands hc with h | h
  · exact hattributes (hkey.symm.trans h)
  · exact hdigests (hkey.symm.trans h)

theorem attributeCommands_congr {stored stored' : StringMap Bytes}
    (h : stored[e.id]? = stored'[e.id]?) :
    attributeCommands o type stored e = attributeCommands o type stored' e := by
  unfold attributeCommands isUnchanged
  rw [h]

/-! ## What is left among the digests -/

theorem takesFields_attributes (m : Cells) (stored : StringMap Bytes) (e : Entity) :
    (m.applyAll (attributeCommands o type stored e) (o.digestsKey type)).takesFields =
      (m (o.digestsKey type)).takesFields := by
  rw [applyAll_attributes_digests, digestCell]
  split
  · split <;> exact Cell.takesFields_act rfl
  · rfl

theorem field?_attributes (m : Cells) (stored : StringMap Bytes) (e : Entity) (id : String) :
    (m.applyAll (attributeCommands o type stored e) (o.digestsKey type)).field? id =
      if changesDigest o stored e ∧ e.id = id then
        if e.ttl.isNone ∧ (m (o.digestsKey type)).takesFields then some (Blob.digest e.attributes)
        else none
      else (m (o.digestsKey type)).field? id := by
  rw [applyAll_attributes_digests, digestCell]
  by_cases hchange : changesDigest o stored e
  · by_cases httl : e.ttl.isNone
    · rw [if_pos hchange, if_pos httl, Cell.field?_setField]
      by_cases hid : e.id = id
      · by_cases htakes : (m (o.digestsKey type)).takesFields
        · simp [hchange, httl, hid, htakes]
        · simp [hchange, httl, hid, htakes, Cell.field?_of_not_takesFields]
      · simp [hid]
    · rw [if_pos hchange, if_neg httl, Cell.field?_removeFields]
      by_cases hid : e.id = id
      · simp [hchange, httl, hid]
      · simp [hchange, hid, Ne.symm hid]
  · simp [hchange]

/-! ## Other keys -/

theorem putAttributes_other {es : List Entity} {key : String}
    (hattributes : ∀ e ∈ es, key ≠ o.attributesKey type e.id) (hdigests : key ≠ o.digestsKey type)
    (m : Cells) (stored : StringMap Bytes) : putAttributes o type m stored es key = m key := by
  induction es generalizing m with
  | nil => rfl
  | cons e es ih =>
      have hes : ∀ e ∈ es, key ≠ o.attributesKey type e.id := fun e' he' =>
        hattributes e' (List.mem_cons_of_mem _ he')
      exact (ih hes _).trans (applyAll_attributes_other (hattributes e List.mem_cons_self) hdigests)

/-- Writing entities changes their attributes, the digests, and what their frames change. -/
theorem putChunks_other {chunks : List (List Entity)} {mode : WriteMode} {key : String}
    (hattributes : ∀ e ∈ chunks.flatten, key ≠ o.attributesKey type e.id)
    (hdigests : key ≠ o.digestsKey type) (m : Cells) :
    putChunks o mode type m chunks key = putFrames o mode type m chunks.flatten key := by
  rw [putChunks_eq]
  generalize putFrames o mode type m chunks.flatten = m'
  induction chunks generalizing m' with
  | nil => rfl
  | cons chunk chunks ih =>
      rw [List.flatten_cons] at hattributes
      refine (ih (fun e he => hattributes e (List.mem_append_right _ he)) _).trans ?_
      exact putAttributes_other (fun e he => hattributes e (List.mem_append_left _ he)) hdigests _ _

/-- A cell in which nothing changed but fields. -/
structure SameButFields (c c' : Cell) : Prop where
  blob : c.blob? = c'.blob?
  members : c.members = c'.members
  ttl : c.ttl = c'.ttl

variable (o type) in
theorem sameButFields_digestCell (stored : StringMap Bytes) (e : Entity) (c : Cell) :
    SameButFields (digestCell o type stored e c) c := by
  rw [digestCell]
  split
  · split <;> exact ⟨Cell.blob?_act rfl, Cell.members_act rfl, Cell.ttl_act rfl⟩
  · exact ⟨rfl, rfl, rfl⟩

variable (o type) in
/-- Writing entities changes nothing but fields in the digests. -/
theorem sameButFields_putChunks (mode : WriteMode) (m : Cells) (chunks : List (List Entity)) :
    SameButFields (putChunks o mode type m chunks (o.digestsKey type)) (m (o.digestsKey type)) := by
  have hentities : ∀ (es : List Entity) (stored : StringMap Bytes) (m : Cells),
      SameButFields (putAttributes o type m stored es (o.digestsKey type)) (m (o.digestsKey type)) := by
    intro es stored
    induction es with
    | nil => exact fun m => ⟨rfl, rfl, rfl⟩
    | cons e es ih =>
        intro m
        have hstep := sameButFields_digestCell o type stored e (m (o.digestsKey type))
        rw [← applyAll_attributes_digests] at hstep
        have hrest := ih (m.applyAll (attributeCommands o type stored e))
        exact ⟨hrest.blob.trans hstep.blob, hrest.members.trans hstep.members,
          hrest.ttl.trans hstep.ttl⟩
  have hchunks : ∀ (chunks : List (List Entity)) (m : Cells),
      SameButFields (chunks.foldl (putAttributeChunk o type) m (o.digestsKey type))
        (m (o.digestsKey type)) := by
    intro chunks
    induction chunks with
    | nil => exact fun m => ⟨rfl, rfl, rfl⟩
    | cons chunk chunks ih =>
        intro m
        have hstep := hentities chunk (fetched o type m chunk) m
        have hrest := ih (putAttributeChunk o type m chunk)
        exact ⟨hrest.blob.trans hstep.blob, hrest.members.trans hstep.members,
          hrest.ttl.trans hstep.ttl⟩
  have h := hchunks chunks (putFrames o mode type m chunks.flatten)
  rwa [putFrames_digests, ← putChunks_eq] at h

/-! ## Writing what is there -/

variable (o type) in
/-- The store holds the attributes of an entity that does not expire, and their digest. -/
def Settled (m : Cells) (e : Entity) : Prop :=
  m (o.attributesKey type e.id) = ⟨some (.blob (blobOf o e)), none⟩ ∧
    (m (o.digestsKey type)).field? e.id = some (Blob.digest e.attributes)

/-- What the store holds already need not be skipped to be left as it is. -/
theorem Settled.applyAll_attributes (h : Settled o type m e) (httl : e.ttl = none)
    (stored : StringMap Bytes) : m.applyAll (attributeCommands o type stored e) = m := by
  funext key
  by_cases ha : key = o.attributesKey type e.id
  · subst ha
    rw [KeyValue.applyAll_attributes, attributeCell, h.1, httl]
    split
    · rfl
    · split <;> rfl
  · by_cases hd : key = o.digestsKey type
    · subst hd
      rw [applyAll_attributes_digests, digestCell]
      split
      · rw [if_pos (by rw [httl]; rfl)]
        exact Cell.act_setField_of_field? _ h.2
      · rfl
    · exact applyAll_attributes_other ha hd

/-! ## Uniform chunks -/

/-- Every entity that is compared with a digest has only versions that are, with the same text. -/
def Uniform (es : List Entity) : Prop :=
  ∀ e ∈ es, ∀ e' ∈ es, isComparable e → e'.id = e.id → e'.attributes.isEmpty = false →
    e'.ttl = none ∧ Blob.content e'.attributes = Blob.content e.attributes

theorem Uniform.of_subset {es es' : List Entity} (h : Uniform es) (hsub : es' ⊆ es) : Uniform es' :=
  fun e he e' he' => h e (hsub he) e' (hsub he')

/-- Entities of different ids are uniform. -/
theorem uniform_of_nodup {es : List Entity} (h : (es.map Entity.id).Nodup) : Uniform es := by
  intro e he e' he' hcomparable hid _
  obtain rfl : e' = e := List.inj_on_of_nodup_map h he' he hid
  exact ⟨by simpa [isComparable] using (Bool.and_eq_true_iff.1 hcomparable).2, rfl⟩

/-- What a chunk was compared with is still there for an entity, or was replaced by what the entity
would replace it with. -/
def Tracked (o : Options) (type : String) (start m : Cells) (e : Entity) : Prop :=
  (m (o.digestsKey type)).field? e.id = (start (o.digestsKey type)).field? e.id ∨ Settled o type m e

theorem Settled.of_version {e' : Entity} (h : Settled o type m e) (hid : e'.id = e.id)
    (hcontent : Blob.content e'.attributes = Blob.content e.attributes) : Settled o type m e' := by
  unfold Settled blobOf Blob.digest at *
  rwa [hid, hcontent]

theorem isComparable_iff : isComparable e ↔ e.attributes.isEmpty = false ∧ e.ttl = none := by
  simp [isComparable]

theorem attributeCommands_of_isEmpty (h : e.attributes.isEmpty) :
    attributeCommands o type stored e = [] := by
  simp [attributeCommands, h]

variable {start m : Cells} {chunk : List Entity}

/-- An entity of a uniform chunk meets what it would meet on its own. -/
theorem applyAll_attributes_of_uniform (h : Uniform chunk) (he : e ∈ chunk)
    (htracked : isComparable e → Tracked o type start m e) :
    m.applyAll (attributeCommands o type (fetched o type start chunk) e) =
      putAttributeChunk o type m [e] := by
  change _ = m.applyAll (attributeCommands o type (fetched o type m [e]) e)
  by_cases hempty : e.attributes.isEmpty
  · rw [attributeCommands_of_isEmpty hempty, attributeCommands_of_isEmpty hempty]
  · rw [Bool.not_eq_true] at hempty
    by_cases hcomparable : isComparable e
    · rcases htracked hcomparable with hfield | hsettled
      · rw [attributeCommands_congr]
        have hmem : ∃ e' ∈ chunk, isComparable e' ∧ e'.id = e.id := ⟨e, he, hcomparable, rfl⟩
        simp only [getElem?_fetched, hmem, and_true, List.mem_singleton, exists_eq_left, hcomparable,
          hfield]
      · have httl := (isComparable_iff.1 hcomparable).2
        rw [hsettled.applyAll_attributes httl, hsettled.applyAll_attributes httl]
    · have hnone : ¬ ∃ e' ∈ chunk, isComparable e' ∧ e'.id = e.id := by
        rintro ⟨e', he', hcomparable', hid⟩
        exact hcomparable (isComparable_iff.2 ⟨hempty, (h e' he' e he hcomparable' hid.symm hempty).1⟩)
      rw [attributeCommands_congr]
      simp [getElem?_fetched, hnone, hcomparable]

/-- Writing one entity of a uniform chunk keeps all of it tracked. -/
theorem Tracked.applyAll_attributes (h : Uniform chunk) (he : e ∈ chunk) {e' : Entity}
    (he' : e' ∈ chunk) (hcomparable : isComparable e')
    (htakes : (m (o.digestsKey type)).takesFields = (start (o.digestsKey type)).takesFields)
    (htracked : Tracked o type start m e') :
    Tracked o type start (m.applyAll (attributeCommands o type stored e)) e' := by
  by_cases hid : e.id = e'.id
  · by_cases hempty : e.attributes.isEmpty
    · rw [attributeCommands_of_isEmpty hempty]
      exact htracked
    · rw [Bool.not_eq_true] at hempty
      obtain ⟨httl, hcontent⟩ := h e' he' e he hcomparable hid hempty
      rcases htracked with hfield | hsettled
      · unfold Tracked
        rw [field?_attributes]
        by_cases hchange : changesDigest o stored e ∧ e.id = e'.id
        · by_cases htakes' : (m (o.digestsKey type)).takesFields
          · refine .inr (Settled.of_version ⟨?_, ?_⟩ hid.symm hcontent.symm)
            · rw [KeyValue.applyAll_attributes, attributeCell, hempty, httl]
              have hnot : isUnchanged stored e = false := by
                simpa using (Bool.and_eq_true_iff.1 hchange.1).2
              simp [hnot]
            · rw [field?_attributes, if_pos ⟨hchange.1, rfl⟩, if_pos ⟨by rw [httl]; rfl, htakes'⟩]
          · refine .inl ?_
            rw [if_pos hchange, if_neg fun hc => htakes' hc.2]
            rw [Bool.not_eq_true, htakes] at htakes'
            rw [Cell.field?_of_not_takesFields htakes']
        · exact .inl (by rw [if_neg hchange, hfield])
      · rw [(hsettled.of_version hid hcontent).applyAll_attributes httl]
        exact .inr hsettled
  · have hkey : o.attributesKey type e'.id ≠ o.attributesKey type e.id := fun hk =>
      hid (attributesKey_inj.1 hk).symm
    have hfields : (m.applyAll (attributeCommands o type stored e) (o.digestsKey type)).field? e'.id =
        (m (o.digestsKey type)).field? e'.id := by
      rw [field?_attributes, if_neg fun hc => hid hc.2]
    have hattributes : m.applyAll (attributeCommands o type stored e) (o.attributesKey type e'.id) =
        m (o.attributesKey type e'.id) :=
      applyAll_attributes_other hkey (attributesKey_ne_digestsKey e'.id)
    unfold Tracked Settled at *
    rwa [hfields, hattributes]

/-- A uniform chunk is written as its entities one by one, each compared with the digests that are
there when its turn comes. -/
theorem putAttributeChunk_of_uniform (m : Cells) (h : Uniform chunk) :
    putAttributeChunk o type m chunk =
      (chunk.map fun e => [e]).foldl (putAttributeChunk o type) m := by
  suffices hsuffix : ∀ (es : List Entity) (m' : Cells), es ⊆ chunk →
      (m' (o.digestsKey type)).takesFields = (m (o.digestsKey type)).takesFields →
      (∀ e ∈ es, isComparable e → Tracked o type m m' e) →
      putAttributes o type m' (fetched o type m chunk) es =
        (es.map fun e => [e]).foldl (putAttributeChunk o type) m' from
    hsuffix chunk m (List.Subset.refl _) rfl fun _ _ _ => .inl rfl
  intro es
  induction es with
  | nil => exact fun _ _ _ _ => rfl
  | cons e es ih =>
      intro m' hsub htakes htracked
      have he : e ∈ chunk := hsub List.mem_cons_self
      have hes : es ⊆ chunk := fun e' he' => hsub (List.mem_cons_of_mem _ he')
      rw [List.map_cons, List.foldl_cons,
        ← applyAll_attributes_of_uniform h he (htracked e List.mem_cons_self)]
      refine ih _ hes ((takesFields_attributes _ _ _).trans htakes) fun e' he' hcomparable => ?_
      exact (htracked e' (List.mem_cons_of_mem _ he') hcomparable).applyAll_attributes h he (hes he')
        hcomparable htakes

/-! ## One by one -/

section OneByOne

variable (o : Options) (mode : WriteMode) (type : String)

/-- The cells after entities have been written one by one. -/
def putEach (m : Cells) (es : List Entity) : Cells :=
  putChunks o mode type m (es.map fun e => [e])

/-- The cells after the attributes of entities have been written one by one. -/
def putAttributesOfEach (m : Cells) (es : List Entity) : Cells :=
  es.foldl (fun m e => putAttributeChunk o type m [e]) m

theorem flatten_map_singleton (es : List Entity) : (es.map fun e => [e]).flatten = es := by
  rw [← List.flatMap_def, List.flatMap_singleton']

theorem putEach_eq (m : Cells) (es : List Entity) :
    putEach o mode type m es = putAttributesOfEach o type (putFrames o mode type m es) es := by
  rw [putEach, putChunks_eq, List.foldl_map, flatten_map_singleton]
  rfl

variable {o mode type} in
theorem putEach_other {es : List Entity} {key : String}
    (hattributes : ∀ e ∈ es, key ≠ o.attributesKey type e.id) (hdigests : key ≠ o.digestsKey type)
    (m : Cells) : putEach o mode type m es key = putFrames o mode type m es key := by
  rw [putEach, putChunks_other (by rwa [flatten_map_singleton]) hdigests, flatten_map_singleton]

/-- The attributes of uniform entities are written in chunks as one by one. -/
theorem foldl_putAttributeChunk_of_uniform (m : Cells) {chunks : List (List Entity)}
    (h : Uniform chunks.flatten) :
    chunks.foldl (putAttributeChunk o type) m = putAttributesOfEach o type m chunks.flatten := by
  induction chunks generalizing m with
  | nil => rfl
  | cons chunk chunks ih =>
      rw [List.flatten_cons] at h ⊢
      rw [List.foldl_cons, ih _ (h.of_subset (List.subset_append_right _ _)),
        putAttributeChunk_of_uniform m (h.of_subset (List.subset_append_left _ _)),
        putAttributesOfEach, putAttributesOfEach, List.foldl_append, List.foldl_map]

variable {mode} in
/-- Uniform entities are written in chunks as one by one. -/
theorem putChunks_of_uniform (m : Cells) {chunks : List (List Entity)} (h : Uniform chunks.flatten) :
    putChunks o mode type m chunks = putEach o mode type m chunks.flatten := by
  rw [putEach_eq, putChunks_eq, foldl_putAttributeChunk_of_uniform o type _ h]

end OneByOne

/-! ## One entity among others -/

/-- Two stores hold the same for the attributes of an entity. -/
structure SameFor (o : Options) (type id : String) (m m' : Cells) : Prop where
  attributes : m (o.attributesKey type id) = m' (o.attributesKey type id)
  digest : (m (o.digestsKey type)).field? id = (m' (o.digestsKey type)).field? id
  takesFields : (m (o.digestsKey type)).takesFields = (m' (o.digestsKey type)).takesFields

variable {m' m'' : Cells} {id : String}

theorem SameFor.trans (h : SameFor o type id m m') (h' : SameFor o type id m' m'') :
    SameFor o type id m m'' :=
  ⟨h.attributes.trans h'.attributes, h.digest.trans h'.digest, h.takesFields.trans h'.takesFields⟩

theorem SameFor.symm (h : SameFor o type id m m') : SameFor o type id m' m :=
  ⟨h.attributes.symm, h.digest.symm, h.takesFields.symm⟩

variable (o type) in
/-- Frames do not change what is held for attributes. -/
theorem sameFor_putFrames (mode : WriteMode) (m : Cells) (es : List Entity) (id : String) :
    SameFor o type id (putFrames o mode type m es) m where
  attributes := putFrames_attributes m es id
  digest := by rw [putFrames_digests]
  takesFields := by rw [putFrames_digests]

/-- Other entities do not change what is held for the attributes of an entity. -/
theorem sameFor_applyAll_of_ne (h : e.id ≠ id) (m : Cells) (stored : StringMap Bytes) :
    SameFor o type id (m.applyAll (attributeCommands o type stored e)) m where
  attributes := applyAll_attributes_other (fun hk => h (attributesKey_inj.1 hk).symm)
    (attributesKey_ne_digestsKey id)
  digest := (field?_attributes _ _ _ _).trans (if_neg fun hc => h hc.2)
  takesFields := takesFields_attributes _ _ _

theorem sameFor_of_ne (h : e.id ≠ id) : SameFor o type id (putAttributeChunk o type m [e]) m :=
  sameFor_applyAll_of_ne h m _

/-- What becomes of an entity depends on what is held for its attributes only, and on the digest that
it is compared with. -/
theorem SameFor.applyAll_attributes (h : SameFor o type id m m') {stored stored' : StringMap Bytes}
    (hid : e.id = id) (hstored : stored[id]? = stored'[id]?) :
    SameFor o type id (m.applyAll (attributeCommands o type stored e))
      (m'.applyAll (attributeCommands o type stored' e)) := by
  subst hid
  rw [attributeCommands_congr hstored]
  constructor
  · rw [KeyValue.applyAll_attributes, KeyValue.applyAll_attributes, h.attributes]
  · rw [field?_attributes, field?_attributes, h.digest, h.takesFields]
  · rw [takesFields_attributes, takesFields_attributes, h.takesFields]

theorem SameFor.putAttributeChunk (h : SameFor o type id m m') (e : Entity) :
    SameFor o type id (putAttributeChunk o type m [e]) (putAttributeChunk o type m' [e]) := by
  by_cases hid : e.id = id
  · refine h.applyAll_attributes hid ?_
    rw [getElem?_fetched, getElem?_fetched, h.digest]
  · exact (sameFor_of_ne hid).trans (h.trans (sameFor_of_ne hid).symm)

theorem sameFor_of_not_mem {es : List Entity} (h : id ∉ es.map Entity.id) (m : Cells) :
    SameFor o type id (putAttributesOfEach o type m es) m := by
  induction es generalizing m with
  | nil => exact ⟨rfl, rfl, rfl⟩
  | cons e es ih =>
      rw [List.map_cons, List.mem_cons, not_or] at h
      exact (ih h.2 _).trans (sameFor_of_ne (Ne.symm h.1))

/-- Among entities of different ids each is written as if it were alone. -/
theorem sameFor_of_mem {es : List Entity} (hids : (es.map Entity.id).Nodup) (he : e ∈ es) (m : Cells) :
    SameFor o type e.id (putAttributesOfEach o type m es) (putAttributeChunk o type m [e]) := by
  induction es generalizing m with
  | nil => simp at he
  | cons x es ih =>
      rw [List.map_cons, List.nodup_cons] at hids
      rcases List.mem_cons.1 he with rfl | he
      · exact sameFor_of_not_mem hids.1 _
      · have hne : x.id ≠ e.id := fun h => hids.1 (h ▸ List.mem_map.2 ⟨e, he, rfl⟩)
        exact (ih hids.2 he _).trans ((sameFor_of_ne hne).putAttributeChunk e)

end KeyValue

end Inventory
