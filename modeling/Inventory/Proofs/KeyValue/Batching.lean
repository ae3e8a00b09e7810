import Inventory.Proofs.KeyValue.Versions

/-!
# Inventory.Proofs.KeyValue.Batching

Entities written in batches and one by one.

A batch is compared with the digests that were there before it, while entities written one by one are
each compared with what their predecessors left. Whether this can be seen afterwards is decided by the
versions of each entity (`Steady`): if they are steady it never is, and if they are not, there are
settings and a cache for which it is (`batches_are_transparent`).
-/

namespace Inventory.KeyValue

variable {o : Options} {W : Attributes → Prop} {mode : WriteMode} {type : String} {m : Cells}
  {id : String} {items : List Entity}

/-- Among the versions of each entity, either all expire, or all have the same attributes and, if one of
them expires, the last one does. -/
def Steady (items : List Entity) : Prop :=
  ∀ id, (∀ e ∈ versions id items, e.ttl.isSome) ∨
    (∀ e ∈ versions id items, ∀ e' ∈ versions id items,
      Blob.content e.attributes = Blob.content e'.attributes) ∧
    ((∀ e ∈ versions id items, e.ttl = none) ∨
      ∀ e ∈ (versions id items).getLast?, e.ttl.isSome)

/-! ## Steady entities -/

/-- The attributes of uniform versions do not depend on the cut into chunks. -/
theorem attributes_of_uniform (m : Cells) {chunks : List (List Entity)}
    (h : Uniform (versions id chunks.flatten)) :
    chunks.foldl (putAttributeChunk o type) m (o.attributesKey type id) =
      putAttributesOfEach o type m (versions id chunks.flatten) (o.attributesKey type id) := by
  rw [(sameFor_versions m chunks id).attributes,
    foldl_putAttributeChunk_of_uniform o type m (by rwa [flatten_map_versions]), flatten_map_versions]

/-- The last of several versions with the same attributes is left if it expires. -/
theorem foldl_putAttributeChunk_of_expires (hW : Faithful o W) (h : Attested o W type m)
    {vs : List Entity} {last : Entity} {chunks : List (List Entity)}
    (hflatten : chunks.flatten = vs ++ [last])
    (hversions : ∀ e ∈ vs ++ [last], e.id = id ∧ e.attributes ≠ [])
    (hitems : ∀ e ∈ vs ++ [last], W e.attributes)
    (hcontent : ∀ e ∈ vs ++ [last], Blob.content e.attributes = Blob.content last.attributes)
    (hlast : last.ttl.isSome) :
    chunks.foldl (putAttributeChunk o type) m (o.attributesKey type id) =
      ⟨some (.blob (blobOf o last)), last.ttl⟩ := by
  induction chunks using List.reverseRecOn with
  | nil => simp at hflatten
  | append_singleton chunks chunk ih =>
      rw [List.flatten_append, List.flatten_singleton] at hflatten
      rw [List.foldl_append, List.foldl_cons, List.foldl_nil]
      rcases List.eq_nil_or_concat chunk with rfl | ⟨init, e, rfl⟩
      · rw [List.append_nil] at hflatten
        exact ih hflatten
      · rw [List.concat_eq_append, ← List.append_assoc] at hflatten
        obtain ⟨rfl, he⟩ := List.append_inj' hflatten rfl
        obtain rfl := (List.cons.inj he).1
        have hchunk : ∀ e' ∈ init ++ [e], e' ∈ (chunks.flatten ++ init) ++ [e] := fun e' he' => by
          rw [List.append_assoc]
          exact List.mem_append_right _ he'
        have hattested : Attested o W type (chunks.foldl (putAttributeChunk o type) m) :=
          h.foldl_putAttributeChunk fun e' he' _ =>
            hitems e' (List.mem_append_left _ (List.mem_append_left _ he'))
        rw [List.concat_eq_append,
          putAttributeChunk_settle fun e' he' => hversions e' (hchunk e' he')]
        refine foldl_settle_of_expires hlast (fun e' he' => hcontent e' (hchunk e' he'))
          fun hdigest => ?_
        unfold compared at hdigest
        split at hdigest
        · obtain ⟨-, a, ha, hsame, hvalue⟩ := hattested id _ hdigest
          have hlastW := hitems e (List.mem_append_right _ (List.mem_singleton.2 rfl))
          rw [hvalue, hW.content a e.attributes ha hlastW hsame.symm]
          rfl
        · contradiction

/-- However entities are cut into chunks, what is left of steady ones is the same. -/
theorem attributes_of_steady (hW : Faithful o W) (h : Attested o W type m)
    (hitems : ∀ e ∈ items, e.attributes ≠ [] → W e.attributes) (hsteady : Steady items)
    {chunks chunks' : List (List Entity)} (hchunks : chunks.flatten = items)
    (hchunks' : chunks'.flatten = items) (id : String) :
    chunks.foldl (putAttributeChunk o type) m (o.attributesKey type id) =
      chunks'.foldl (putAttributeChunk o type) m (o.attributesKey type id) := by
  have huniform : Uniform (versions id items) →
      chunks.foldl (putAttributeChunk o type) m (o.attributesKey type id) =
        chunks'.foldl (putAttributeChunk o type) m (o.attributesKey type id) := by
    intro hu
    rw [attributes_of_uniform m (by rwa [hchunks]), attributes_of_uniform m (by rwa [hchunks']),
      hchunks, hchunks']
  rcases hsteady id with hexpire | ⟨hcontent, hnone | hlast⟩
  · refine huniform fun e he e' _ hcomparable => ?_
    have httl := hexpire e he
    rw [(isComparable_iff.1 hcomparable).2] at httl
    contradiction
  · exact huniform fun e he e' he' _ _ _ => ⟨hnone e' he', hcontent e' he' e he⟩
  · rcases List.eq_nil_or_concat (versions id items) with hnil | ⟨vs, last, hvs⟩
    · refine huniform ?_
      rw [hnil]
      exact fun e he => absurd he (by simp)
    · rw [List.concat_eq_append] at hvs
      rw [hvs] at hcontent hlast
      have hmem : ∀ e ∈ vs ++ [last], e ∈ items ∧ e.id = id ∧ e.attributes ≠ [] := fun e he =>
        mem_versions.1 (hvs ▸ he)
      have hleft : ∀ chunks : List (List Entity), chunks.flatten = items →
          chunks.foldl (putAttributeChunk o type) m (o.attributesKey type id) =
            ⟨some (.blob (blobOf o last)), last.ttl⟩ := by
        intro chunks hflatten
        rw [(sameFor_versions m chunks id).attributes]
        refine foldl_putAttributeChunk_of_expires hW h (by rw [flatten_map_versions, hflatten, hvs])
          (fun e he => (hmem e he).2) (fun e he => hitems e (hmem e he).1 (hmem e he).2.2)
          (fun e he => hcontent e he last (by simp)) (hlast last (by simp))
      rw [hleft chunks hchunks, hleft chunks' hchunks']

/-- What is left of steady entities does not depend on the batches. -/
theorem putChunks_of_steady (hW : Faithful o W) (h : Attested o W type m)
    (hitems : ∀ e ∈ items, e.attributes ≠ [] → W e.attributes) (hsteady : Steady items)
    {chunks chunks' : List (List Entity)} (hchunks : chunks.flatten = items)
    (hchunks' : chunks'.flatten = items) (id : String) :
    putChunks o mode type m chunks (o.attributesKey type id) =
      putChunks o mode type m chunks' (o.attributesKey type id) := by
  rw [putChunks_eq, putChunks_eq, hchunks, hchunks']
  refine attributes_of_steady hW (h.congr (putFrames_digests m _) fun id => ?_) hitems hsteady
    hchunks hchunks' id
  exact putFrames_attributes m _ id

/-- Without digests every version is written, so the last is left however entities are cut into
chunks. -/
theorem putChunks_of_not_hashing (hhashing : o.hashing = false) (m : Cells)
    (chunks : List (List Entity)) (id : String) :
    putChunks o mode type m chunks (o.attributesKey type id) =
      (versions id chunks.flatten).foldl (settle o none) (m (o.attributesKey type id)) := by
  have hchunk : ∀ (chunk : List Entity) (m : Cells),
      putAttributeChunk o type m (versions id chunk) (o.attributesKey type id) =
        (versions id chunk).foldl (settle o none) (m (o.attributesKey type id)) := by
    intro chunk m
    rw [putAttributeChunk_settle fun e he => (mem_versions.1 he).2, compared,
      if_neg fun h => by simp [hhashing] at h]
  have hchunks : ∀ (chunks : List (List Entity)) (m : Cells),
      (chunks.map (versions id)).foldl (putAttributeChunk o type) m (o.attributesKey type id) =
        (chunks.map (versions id)).flatten.foldl (settle o none) (m (o.attributesKey type id)) := by
    intro chunks
    induction chunks with
    | nil => exact fun m => rfl
    | cons chunk chunks ih =>
        intro m
        rw [List.map_cons, List.foldl_cons, ih, hchunk, List.flatten_cons, List.foldl_append]
  rw [putChunks_eq, (sameFor_versions _ chunks id).attributes, hchunks, flatten_map_versions,
    putFrames_attributes]

/-- If the attributes of each id are left the same, then so is all that can be seen. -/
theorem sameReads_putChunks (m : Cells) {chunks chunks' : List (List Entity)}
    (hchunks : chunks.flatten = chunks'.flatten)
    (hattributes : ∀ id, putChunks o mode type m chunks (o.attributesKey type id) =
      putChunks o mode type m chunks' (o.attributesKey type id)) :
    (putChunks o mode type m chunks).SameReads (putChunks o mode type m chunks') ∧
      ∀ key, (putChunks o mode type m chunks key).ttl = (putChunks o mode type m chunks' key).ttl := by
  have hcell : ∀ key, key ≠ o.digestsKey type →
      putChunks o mode type m chunks key = putChunks o mode type m chunks' key := by
    intro key hdigests
    by_cases hkey : ∃ id, key = o.attributesKey type id
    · obtain ⟨id, rfl⟩ := hkey
      exact hattributes id
    · have hother : ∀ e : Entity, key ≠ o.attributesKey type e.id := fun e h => hkey ⟨e.id, h⟩
      rw [putChunks_other (fun e _ => hother e) hdigests,
        putChunks_other (fun e _ => hother e) hdigests, hchunks]
  have hdigests := sameButFields_putChunks o type mode m chunks
  have hdigests' := sameButFields_putChunks o type mode m chunks'
  refine ⟨fun key => ?_, fun key => ?_⟩
  · by_cases hkey : key = o.digestsKey type
    · subst hkey
      rw [Cell.attributes, Cell.attributes, hdigests.blob, hdigests'.blob, hdigests.members,
        hdigests'.members]
      exact ⟨rfl, rfl⟩
    · rw [hcell key hkey]
      exact ⟨rfl, rfl⟩
  · by_cases hkey : key = o.digestsKey type
    · subst hkey
      rw [hdigests.ttl, hdigests'.ttl]
    · rw [hcell key hkey]

/-! ## One by one -/

/-- The digest of an id is that of attributes which are there and do not expire. -/
def Lasting (o : Options) (W : Attributes → Prop) (type id : String) (m : Cells) : Prop :=
  ∀ d, (m (o.digestsKey type)).field? id = some d → ∃ a, W a ∧ d = Blob.digest a ∧
    m (o.attributesKey type id) =
      ⟨some (.blob (Blob.encode o.compression (Blob.content a))), none⟩

/-- An entity that is written on its own is there afterwards, and its digest is its own or none. -/
theorem Lasting.put {e : Entity} (hW : Faithful o W) (hhashing : o.hashing)
    (h : Lasting o W type e.id m) (hne : e.attributes ≠ []) (he : W e.attributes) :
    Lasting o W type e.id (putAttributeChunk o type m [e]) ∧
      putAttributeChunk o type m [e] (o.attributesKey type e.id) =
        ⟨some (.blob (blobOf o e)), e.ttl⟩ := by
  have hempty : e.attributes.isEmpty = false := by simpa using hne
  have hcell : putAttributeChunk o type m [e] (o.attributesKey type e.id) =
      ⟨some (.blob (blobOf o e)), e.ttl⟩ := by
    rw [putAttributeChunk_attributes, hempty, Bool.false_or]
    split
    · next hskips =>
      have hdigest : (m (o.digestsKey type)).field? e.id = some (Blob.digest e.attributes) := by
        simp only [skips, Bool.and_eq_true, beq_iff_eq] at hskips
        exact hskips.2
      obtain ⟨a, ha, hsame, hthere⟩ := h _ hdigest
      rw [hthere, ttl_of_skips hskips, blobOf, hW.content a e.attributes ha he hsame.symm]
    · rfl
  refine ⟨fun d hd => ?_, hcell⟩
  rw [putAttributeChunk_digest] at hd
  by_cases hskips : skips o ((m (o.digestsKey type)).field? e.id) e
  · rw [if_neg (by simp [hskips])] at hd
    rw [putAttributeChunk_attributes, hskips, Bool.or_true, if_pos rfl]
    exact h d hd
  · rw [if_pos (by simp [hhashing, hempty, hskips])] at hd
    split at hd
    · next hlasts =>
      refine ⟨e.attributes, he, (Option.some.inj hd).symm, ?_⟩
      rw [hcell, Option.isNone_iff_eq_none.1 hlasts.1]
      rfl
    · contradiction

/-- Of versions that are written one by one the last is left. -/
theorem putAttributesOfEach_last (hW : Faithful o W) (hhashing : o.hashing) {vs : List Entity}
    {last : Entity} (h : Lasting o W type id m)
    (hversions : ∀ e ∈ vs ++ [last], e.id = id ∧ e.attributes ≠ [] ∧ W e.attributes) :
    putAttributesOfEach o type m (vs ++ [last]) (o.attributesKey type id) =
      ⟨some (.blob (blobOf o last)), last.ttl⟩ := by
  induction vs generalizing m with
  | nil =>
      obtain ⟨rfl, hne, he⟩ := hversions last List.mem_cons_self
      exact (h.put hW hhashing hne he).2
  | cons e vs ih =>
      obtain ⟨rfl, hne, he⟩ := hversions e List.mem_cons_self
      exact ih (h.put hW hhashing hne he).1
        fun e' he' => hversions e' (List.mem_cons_of_mem _ he')

theorem foldl_singletons (m : Cells) (items : List Entity) (id : String) :
    ((items.map fun e => [e]).map (versions id)).foldl (putAttributeChunk o type) m =
      putAttributesOfEach o type m (versions id items) := by
  induction items generalizing m with
  | nil => rfl
  | cons e items ih =>
      rw [List.map_cons, List.map_cons, List.foldl_cons, ih]
      by_cases he : (decide (e.id = id) && !e.attributes.isEmpty) = true
      · have hone : versions id [e] = [e] := List.filter_cons_of_pos he
        have hcons : versions id (e :: items) = e :: versions id items := List.filter_cons_of_pos he
        rw [hone, hcons]
        rfl
      · have hnone : versions id [e] = [] := List.filter_cons_of_neg he
        have hcons : versions id (e :: items) = versions id items := List.filter_cons_of_neg he
        rw [hnone, hcons]
        rfl

/-- What is left of the versions of an id that are written one by one. -/
theorem putEach_last (hW : Faithful o W) (hhashing : o.hashing) (h : Lasting o W type id m)
    (hitems : ∀ e ∈ items, e.attributes ≠ [] → W e.attributes) {vs : List Entity} {last : Entity}
    (hvs : versions id items = vs ++ [last]) :
    putEach o mode type m items (o.attributesKey type id) =
      ⟨some (.blob (blobOf o last)), last.ttl⟩ := by
  have hframes := sameFor_putFrames o type mode m items id
  have hlasting : Lasting o W type id (putFrames o mode type m items) := by
    intro d hd
    rw [hframes.digest] at hd
    rw [hframes.attributes]
    exact h d hd
  rw [putEach, putChunks_eq, flatten_map_singleton,
    (sameFor_versions (putFrames o mode type m items) _ id).attributes, foldl_singletons, hvs]
  refine putAttributesOfEach_last hW hhashing hlasting fun e he => ?_
  obtain ⟨hmem, hid, hne⟩ := mem_versions.1 (hvs ▸ he)
  exact ⟨hid, hne, hitems e hmem hne⟩

/-! ## At once -/

/-- What is left of the versions of an id that are written in one batch, if one of them is compared. -/
theorem putChunks_at_once (hhashing : o.hashing) {digest : Bytes}
    (hfield : (m (o.digestsKey type)).field? id = some digest)
    (hcomparable : ∃ e ∈ versions id items, isComparable e) :
    putChunks o mode type m [items] (o.attributesKey type id) =
      (versions id items).foldl (settle o (some digest)) (m (o.attributesKey type id)) := by
  have hframes := sameFor_putFrames o type mode m items id
  rw [putChunks_eq, List.flatten_singleton,
    (sameFor_versions (putFrames o mode type m items) [items] id).attributes]
  refine (putAttributeChunk_settle (fun e he => (mem_versions.1 he).2) _).trans ?_
  rw [compared, if_pos ⟨hhashing, hcomparable⟩, hframes.digest, hfield, hframes.attributes]

/-! ## Over a store -/

variable {s : Store}

/-- Two stores show the same entities of every type, and their attributes expire at the same time. -/
def SameEntities (o : Options) (s t : Store) : Prop :=
  (∀ (type : String) (ids : Option (List String)) (filter : Option NameFilter), ∃ reply,
    (Backend.keyValue o).Replies s (.entities type ids filter) reply ∧
      (Backend.keyValue o).Replies t (.entities type ids filter) reply) ∧
  ∀ type id, (s.cells (o.attributesKey type id)).ttl = (t.cells (o.attributesKey type id)).ttl

/-- Entities written in one call leave what they leave written by a call for each of them. -/
def Transparent (o : Options) (mode : WriteMode) (type : String) (items : List Entity) (s : Store) :
    Prop :=
  ∃ s₁ s₂, (Backend.keyValue o).EndsIn (.write mode type items) s s₁ (.ok ()) ∧
    (Backend.keyValue o).EndsIn (.inTurn (items.map fun e => .write mode type [e])) s s₂ (.ok ()) ∧
    SameEntities o s₁ s₂

/-- A state of the cache over one node that requests with names and attributes as allowed lead to. -/
def Reached (o : Options) (W : Attributes → Prop) (s : Store) : Prop :=
  ∃ name, (Backend.keyValue o).Reaches (Written W) (.single { name } : Store) s

theorem Reached.healthy (h : Reached o W s) : s.Healthy := by
  obtain ⟨name, p, result, -, hends⟩ := h
  exact (Backend.EndsIn.keyValue (Store.healthy_fresh name) hends).1

theorem Reached.attested (h : Reached o W s) (ht : Plain type) : Attested o W type s.cells := by
  obtain ⟨name, p, result, hasks, hends⟩ := h
  obtain ⟨-, hrun⟩ := Backend.EndsIn.keyValue (Store.healthy_fresh name) hends
  have hfresh : Attested o W type (Store.single { name }).cells := by
    rw [Store.cells_fresh]
    exact Attested.empty o W type
  have hstep : ∀ (r : CacheRequest) (m : Cells), Written W r → Attested o W type m →
      Attested o W type (Backend.respond o r m).1 := fun _ _ hr hm => hm.respond ht hr
  have hattested := Plan.run_of_asks (Attested o W type) hstep hasks hfresh
  rwa [hrun] at hattested

theorem run_singles (hne : ∀ e ∈ items, e.id.isEmpty = false) (m : Cells) :
    (CachePlan.inTurn (items.map fun e => .write mode type [e])).run (Backend.respond o) m =
      (putEach o mode type m items, .ok ()) := by
  induction items generalizing m with
  | nil => rfl
  | cons e items ih =>
      rw [List.map_cons, CachePlan.run_inTurn_cons,
        respond_write (List.forall_mem_singleton.2 (hne e List.mem_cons_self)), batches_singleton]
      exact ih (fun e' he' => hne e' (List.mem_cons_of_mem _ he')) _

/-- What both ways of writing come to. -/
theorem endsIn_both (hs : s.Healthy) (mode : WriteMode) (type : String)
    (hne : ∀ e ∈ items, e.id.isEmpty = false) :
    ∃ s₁ s₂, (Backend.keyValue o).EndsIn (.write mode type items) s s₁ (.ok ()) ∧
      (Backend.keyValue o).EndsIn (.inTurn (items.map fun e => .write mode type [e])) s s₂ (.ok ()) ∧
      s₁.Healthy ∧ s₂.Healthy ∧
      s₁.cells = putChunks o mode type s.cells (batches o.mergeBatch items) ∧
      s₂.cells = putEach o mode type s.cells items := by
  obtain ⟨s₁, hends₁, hhealthy₁, hcells₁⟩ :=
    Backend.keyValue_endsIn (o := o) hs (CachePlan.write mode type items)
  obtain ⟨s₂, hends₂, hhealthy₂, hcells₂⟩ :=
    Backend.keyValue_endsIn (o := o) hs (.inTurn (items.map fun e => .write mode type [e]))
  have hrun : (CachePlan.write mode type items).run (Backend.respond o) s.cells =
      (putChunks o mode type s.cells (batches o.mergeBatch items), .ok ()) := respond_write hne s.cells
  rw [hrun] at hends₁ hcells₁
  rw [run_singles hne] at hends₂ hcells₂
  exact ⟨s₁, s₂, hends₁, hends₂, hhealthy₁, hhealthy₂, hcells₁, hcells₂⟩

/-- What is seen of the attributes of each id shows whether entities were written in one call. -/
theorem transparent_of_attributes (hs : s.Healthy) (hne : ∀ e ∈ items, e.id.isEmpty = false)
    (h : ∀ id, putChunks o mode type s.cells (batches o.mergeBatch items) (o.attributesKey type id) =
      putEach o mode type s.cells items (o.attributesKey type id)) :
    Transparent o mode type items s := by
  obtain ⟨s₁, s₂, hends₁, hends₂, hhealthy₁, hhealthy₂, hcells₁, hcells₂⟩ :=
    endsIn_both (o := o) hs mode type hne
  have hflatten : (batches o.mergeBatch items).flatten = (items.map fun e => [e]).flatten :=
    (flatten_batches o.mergeBatch items).trans (flatten_map_singleton items).symm
  obtain ⟨hreads, httl⟩ := sameReads_putChunks s.cells hflatten h
  refine ⟨s₁, s₂, hends₁, hends₂, fun t ids filter => ?_, fun t id => ?_⟩
  · have hreply := Backend.replies_read (o := o) hhealthy₁ (r := .entities t ids filter) rfl
    have hreply' := Backend.replies_read (o := o) hhealthy₂ (r := .entities t ids filter) rfl
    rw [hcells₁, readReply_congr hreads] at hreply
    rw [hcells₂] at hreply'
    exact ⟨_, hreply, hreply'⟩
  · rw [hcells₁, hcells₂]
    exact httl _

/-- Steady entities may be written in any batches, and others too if there are no digests or if there is
one entity to a batch. -/
theorem transparent_of_steady (hW : Faithful o W) (ht : Plain type)
    (hitems : ∀ e ∈ items, e.id.isEmpty = false ∧ (e.attributes ≠ [] → W e.attributes))
    (hsteady : o.hashing = false ∨ o.mergeBatch ≤ 1 ∨ Steady items) (hs : Reached o W s) :
    Transparent o mode type items s := by
  refine transparent_of_attributes hs.healthy (fun e he => (hitems e he).1) fun id => ?_
  rcases hsteady with hhashing | hone | hsteady
  · rw [putEach, putChunks_of_not_hashing hhashing, putChunks_of_not_hashing hhashing, flatten_batches,
      flatten_map_singleton]
  · rw [batches_of_le_one hone]
    rfl
  · exact putChunks_of_steady hW (hs.attested ht) (fun e he => (hitems e he).2) hsteady
      (flatten_batches o.mergeBatch items) (flatten_map_singleton items) id

/-! ## Entities that are not steady -/

/-- An entity that is written first is there with its digest. -/
theorem endsIn_write_first (hhashing : o.hashing) (type : String) (hid : id.isEmpty = false)
    {a : Attributes} (ha : W a) (hne : a ≠ []) :
    ∃ s, (Backend.keyValue o).EndsIn (.write .union type [{ id, attributes := a }])
        (.single { name := "kv" } : Store) s (.ok ()) ∧ s.Healthy ∧
      (s.cells (o.digestsKey type)).field? id = some (Blob.digest a) ∧
      Lasting o W type id s.cells ∧ (s.cells (o.membersKey type)).takesMembers := by
  let e : Entity := { id, attributes := a }
  obtain ⟨s, hends, hhealthy, hcells⟩ := Backend.keyValue_endsIn (o := o)
    (Store.healthy_fresh "kv") (CachePlan.write .union type [e])
  have hrun : (CachePlan.write .union type [e]).run (Backend.respond o)
      (Store.single { name := "kv" }).cells = (putChunk o .union type (fun _ => {}) [e], .ok ()) := by
    rw [Store.cells_fresh]
    refine (respond_write (List.forall_mem_singleton.2 hid) _).trans ?_
    rw [batches_singleton]
    rfl
  have hput : s.cells = putChunk o .union type (fun _ => {}) [e] := by rw [hcells, hrun]
  have hempty : e.attributes.isEmpty = false := by simpa [e] using hne
  have hskips : skips o none e = false := by simp [skips]
  have hdigest : (s.cells (o.digestsKey type)).field? id = some (Blob.digest a) := by
    rw [hput, putChunk_single_digest]
    simp [e, hhashing, hne, hskips, Cell.field?, Cell.takesFields]
  have hattributes : s.cells (o.attributesKey type id) =
      ⟨some (.blob (Blob.encode o.compression (Blob.content a))), none⟩ := by
    rw [hput, putChunk_single_attributes]
    exact if_pos ⟨rfl, by simp [hempty, Cell.field?, hskips]⟩
  rw [hrun] at hends
  refine ⟨s, hends, hhealthy, hdigest, fun d hd => ?_, ?_⟩
  · exact ⟨a, ha, Option.some.inj (hd.symm.trans hdigest), hattributes⟩
  · rw [hput, putChunk_single_members]
    exact Cell.takesMembers_add.trans rfl

/-- What cannot be told apart has the same attributes, which expire at the same time. -/
theorem Transparent.attributes (h : Transparent o mode type items s) (hs : s.Healthy)
    (hne : ∀ e ∈ items, e.id.isEmpty = false) (hmembers : (s.cells (o.membersKey type)).takesMembers)
    (hid : id ∈ items.map Entity.id) :
    (putChunks o mode type s.cells (batches o.mergeBatch items) (o.attributesKey type id)).attributes =
        (putEach o mode type s.cells items (o.attributesKey type id)).attributes ∧
      (putChunks o mode type s.cells (batches o.mergeBatch items) (o.attributesKey type id)).ttl =
        (putEach o mode type s.cells items (o.attributesKey type id)).ttl := by
  obtain ⟨s₁, s₂, hends₁, hends₂, hhealthy₁, hhealthy₂, hcells₁, hcells₂⟩ :=
    endsIn_both (o := o) hs mode type hne
  obtain ⟨s₁', s₂', hends₁', hends₂', hreads, httl⟩ := h
  obtain ⟨rfl, -⟩ := hends₁.unique hends₁'
  obtain ⟨rfl, -⟩ := hends₂.unique hends₂'
  rw [← hcells₁, ← hcells₂]
  refine ⟨?_, httl type id⟩
  have hmem₁ : id ∈ members o type s₁.cells := by
    rw [members, hcells₁, (putChunks_members mode hmembers _).2, flatten_batches]
    exact .inr hid
  have hmem₂ : id ∈ members o type s₂.cells := by
    rw [members, hcells₂, putEach, (putChunks_members mode hmembers _).2, flatten_map_singleton]
    exact .inr hid
  obtain ⟨reply, hreply₁, hreply₂⟩ := hreads type (some [id]) (some .none)
  exact attributes_of_readReply hmem₁ hmem₂
    ((hreply₁.unique (Backend.replies_read hhealthy₁ rfl)).symm.trans
      (hreply₂.unique (Backend.replies_read hhealthy₂ rfl)))

/-- If entities in one batch are always left as one by one, they are steady. -/
theorem steady_of_transparent (hW : Faithful o W) (hhashing : o.hashing) (ht : Plain type)
    (hitems : ∀ e ∈ items, e.id.isEmpty = false ∧ (e.attributes ≠ [] → W e.attributes))
    (hone : items.length ≤ max o.mergeBatch 1)
    (h : ∀ s, Reached o W s → Transparent o mode type items s) : Steady items := by
  intro id
  by_cases hcomparable : ∃ e ∈ versions id items, isComparable e
  · right
    obtain ⟨vs, last, hvs⟩ : ∃ vs last, versions id items = vs ++ [last] := by
      rcases List.eq_nil_or_concat (versions id items) with hnil | ⟨vs, last, hvs⟩
      · simp [hnil] at hcomparable
      · exact ⟨vs, last, hvs.trans List.concat_eq_append⟩
    have hversions : ∀ e ∈ vs ++ [last], W e.attributes := by
      rw [← hvs]
      exact fun e he => (hitems e (mem_versions.1 he).1).2 (mem_versions.1 he).2.2
    obtain ⟨hmem, rfl, hne⟩ := mem_versions.1 (show last ∈ versions id items by simp [hvs])
    -- With the digest of the last version there, versions with other attributes would stay.
    obtain ⟨s, hends, hhealthy, hdigest, hlasting, hmembers⟩ := endsIn_write_first hhashing type
      (hitems last hmem).1 (hversions last (by simp)) hne
    have hs : Reached o W s := ⟨"kv", _, _, Plan.asks_perform
      ⟨ht, List.forall_mem_singleton.2 fun _ => hversions last (by simp)⟩, hends⟩
    have hvalue : (s.cells (o.attributesKey type last.id)).value.isSome := by
      obtain ⟨a, -, -, hthere⟩ := hlasting _ hdigest
      rw [hthere]
      rfl
    obtain ⟨hattributes, httl⟩ := (h s hs).attributes hhealthy (fun e he => (hitems e he).1) hmembers
      (List.mem_map_of_mem hmem)
    rw [batches_eq_singleton (List.ne_nil_of_mem hmem) hone,
      putChunks_at_once hhashing hdigest hcomparable,
      putEach_last hW hhashing hlasting (fun e he => (hitems e he).2) hvs, hvs] at hattributes httl
    obtain ⟨hcontent, hexpires⟩ := same_of_foldl_settle hW hversions hvalue hattributes httl
    rw [hvs, List.getLast?_concat]
    refine ⟨fun e he e' he' => (hcontent e he).trans (hcontent e' he').symm, ?_⟩
    exact hexpires.imp_right fun hlast e he => Option.some.inj he ▸ hlast
  · left
    intro e he
    rw [Option.isSome_iff_ne_none]
    intro httl
    obtain ⟨-, -, hne⟩ := mem_versions.1 he
    exact hcomparable ⟨e, he, isComparable_iff.2 ⟨by simpa using hne, httl⟩⟩

/-- Entities written in one call are left as by one call for each of them, whatever was written before,
if there are no digests, if there is one entity to a batch, or if the entities are steady; and if they
fit in one batch, only then. -/
theorem batches_are_transparent (hW : Faithful o W) (ht : Plain type) (mode : WriteMode)
    (hitems : ∀ e ∈ items, e.id.isEmpty = false ∧ (e.attributes ≠ [] → W e.attributes)) :
    (o.hashing = false ∨ o.mergeBatch ≤ 1 ∨ Steady items →
      ∀ s, Reached o W s → Transparent o mode type items s) ∧
    (items.length ≤ o.mergeBatch → (∀ s, Reached o W s → Transparent o mode type items s) →
      o.hashing = false ∨ Steady items) := by
  refine ⟨fun hsteady s hs => transparent_of_steady hW ht hitems hsteady hs, fun hone h => ?_⟩
  have hone : items.length ≤ max o.mergeBatch 1 := Nat.le_trans hone (Nat.le_max_left _ _)
  cases hhashing : o.hashing with
  | false => exact .inl rfl
  | true => exact .inr (steady_of_transparent hW hhashing ht hitems hone h)

/-! ## Two versions -/

/-- A version of an entity. -/
def numberedEntity (n : Int) : Entity := { id := "a", attributes := numbered n }

/-- The second version of an entity, and then the first. -/
def secondAndFirst : List Entity := [numberedEntity 2, numberedEntity 1]

theorem secondAndFirst_fit : ∀ e ∈ secondAndFirst,
    e.id.isEmpty = false ∧ (e.attributes ≠ [] → OneOrTwo e.attributes) :=
  List.forall_mem_cons.2 ⟨⟨by decide, fun _ => .inr rfl⟩,
    List.forall_mem_singleton.2 ⟨by decide, fun _ => .inl rfl⟩⟩

theorem versions_secondAndFirst : versions "a" secondAndFirst = secondAndFirst :=
  versions_of_forall (List.forall_mem_cons.2 ⟨⟨rfl, by decide⟩,
    List.forall_mem_singleton.2 ⟨rfl, by decide⟩⟩)

theorem not_steady_secondAndFirst : ¬ Steady secondAndFirst := by
  intro h
  have hversions := h "a"
  rw [versions_secondAndFirst] at hversions
  rcases hversions with hexpire | ⟨hcontent, -⟩
  · exact absurd (hexpire (numberedEntity 2) List.mem_cons_self) (by decide)
  · have hsame := hcontent (numberedEntity 1) (List.mem_cons_of_mem _ List.mem_cons_self)
      (numberedEntity 2) List.mem_cons_self
    exact digest_one_ne_two (digest_congr hsame)

/-- Two versions of an entity are to be written in two batches. -/
theorem two_versions_in_batches :
    (∀ o, Faithful o OneOrTwo) ∧ Plain "t" ∧
      (∀ e ∈ secondAndFirst, e.id.isEmpty = false ∧ (e.attributes ≠ [] → OneOrTwo e.attributes)) ∧
      (∀ s, Reached { mergeBatch := 1 } OneOrTwo s →
        Transparent { mergeBatch := 1 } .union "t" secondAndFirst s) ∧
      ¬ ∀ s, Reached {} OneOrTwo s → Transparent {} .union "t" secondAndFirst s := by
  have ht : Plain "t" := by decide
  refine ⟨faithful_oneOrTwo, ht, secondAndFirst_fit, ?_, fun h => ?_⟩
  · exact (batches_are_transparent (faithful_oneOrTwo _) ht .union secondAndFirst_fit).1
      (.inr (.inl (Nat.le_refl 1)))
  · rcases (batches_are_transparent (faithful_oneOrTwo _) ht .union secondAndFirst_fit).2 (by decide) h
      with hoff | hsteady
    · contradiction
    · exact not_steady_secondAndFirst hsteady

/-- Where the first version is there, the second followed by the first leaves the second if both are
written at once, and the first if they are written one by one. -/
theorem batch_keeps_earlier_version : ∃ s s₁ s₂ : Store,
    (Backend.keyValue {}).EndsIn (.write .union "t" [numberedEntity 1])
      (.single { name := "kv" } : Store) s (.ok ()) ∧
    (Backend.keyValue {}).EndsIn (.write .union "t" secondAndFirst) s s₁ (.ok ()) ∧
    (Backend.keyValue {}).EndsIn (.inTurn (secondAndFirst.map fun e => .write .union "t" [e])) s s₂
      (.ok ()) ∧
    (s₁.cells (Options.attributesKey {} "t" "a")).attributes = .ok (numbered 2) ∧
    (s₂.cells (Options.attributesKey {} "t" "a")).attributes = .ok (numbered 1) ∧
    ¬ Transparent {} .union "t" secondAndFirst s := by
  have hW := faithful_oneOrTwo {}
  have hne : ∀ e ∈ secondAndFirst, e.id.isEmpty = false := fun e he => (secondAndFirst_fit e he).1
  obtain ⟨s, hends, hhealthy, hdigest, hlasting, hmembers⟩ :=
    endsIn_write_first (o := {}) (W := OneOrTwo) rfl "t" (by decide : "a".isEmpty = false)
      (.inl rfl : OneOrTwo (numbered 1)) (by decide)
  obtain ⟨s₁, s₂, hends₁, hends₂, -, -, hcells₁, hcells₂⟩ :=
    endsIn_both (o := {}) hhealthy .union "t" hne
  have hbatches : batches (Options.mergeBatch {}) secondAndFirst = [secondAndFirst] :=
    batches_eq_singleton (List.cons_ne_nil _ _) (by decide)
  have hcomparable : ∃ e ∈ versions "a" secondAndFirst, isComparable e := by
    rw [versions_secondAndFirst]
    exact ⟨numberedEntity 1, List.mem_cons_of_mem _ List.mem_cons_self, by decide⟩
  have hdiffers : some (Blob.digest (numbered 1)) ≠ some (Blob.digest (numbered 2)) := fun h =>
    digest_one_ne_two (Option.some.inj h)
  have hput : ∀ c, settle {} (some (Blob.digest (numbered 1))) c (numberedEntity 2) =
      ⟨some (.blob (blobOf {} (numberedEntity 2))), none⟩ := fun c => if_neg hdiffers
  have hskip : ∀ c, settle {} (some (Blob.digest (numbered 1))) c (numberedEntity 1) = c :=
    fun c => if_pos rfl
  have hsecond : (s₁.cells (Options.attributesKey {} "t" "a")).attributes = .ok (numbered 2) := by
    rw [hcells₁, hbatches, putChunks_at_once rfl hdigest hcomparable, versions_secondAndFirst,
      secondAndFirst, List.foldl_cons, List.foldl_cons, List.foldl_nil, hput, hskip]
    exact hW.decode _ (.inr rfl)
  have hfirst : (s₂.cells (Options.attributesKey {} "t" "a")).attributes = .ok (numbered 1) := by
    have hvs : versions "a" secondAndFirst = [numberedEntity 2] ++ [numberedEntity 1] :=
      versions_secondAndFirst
    rw [hcells₂, putEach_last hW rfl hlasting (fun e he => (secondAndFirst_fit e he).2) hvs]
    exact hW.decode _ (.inl rfl)
  refine ⟨s, s₁, s₂, hends, hends₁, hends₂, hsecond, hfirst, fun h => ?_⟩
  have hsame := (h.attributes hhealthy hne hmembers (by decide : "a" ∈ secondAndFirst.map Entity.id)).1
  rw [← hcells₁, ← hcells₂, hsecond, hfirst] at hsame
  have hnumber := Except.ok.inj hsame
  rw [hnumber] at hdiffers
  contradiction

end Inventory.KeyValue
