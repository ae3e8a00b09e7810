import Inventory.Cache.KeyValue.Write
import Inventory.Proofs.KeyValue.Keys
import Inventory.Proofs.Store.Cells

/-!
# Inventory.Proofs.KeyValue.Chunks

What writing entities makes of the cells of a store.

A write is one batch for each chunk (`putChunk`), so all that a store which refuses some keys keeps of
it are two states on the way to its end (`run_write_partly`). A chunk in turn is what it adds to the
index and to relationships, entity by entity (`frame`), and then its attributes, which alone depend on
the stored digests (`putChunk_eq`).
-/

namespace Inventory.KeyValue

variable (o : Options) (mode : WriteMode) (type : String)

/-! ## Looking up digests -/

/-- The digests with which a chunk is compared. -/
def fetched (m : Cells) (chunk : List Entity) : StringMap Bytes :=
  if o.hashing then
    .ofList (((chunk.filter isComparable).map Entity.id).filterMap fun id =>
      ((m (o.digestsKey type)).field? id).map (id, ·))
  else ∅

theorem getElem?_fetched (m : Cells) (chunk : List Entity) (id : String) :
    (fetched o type m chunk)[id]? =
      if o.hashing ∧ ∃ e ∈ chunk, isComparable e ∧ e.id = id then (m (o.digestsKey type)).field? id
      else none := by
  unfold fetched
  cases o.hashing with
  | false => simp
  | true =>
      have hdigest : ∀ p ∈ ((chunk.filter isComparable).map Entity.id).filterMap fun id =>
          ((m (o.digestsKey type)).field? id).map (id, ·),
          (m (o.digestsKey type)).field? p.1 = some p.2 := by
        intro p hp
        obtain ⟨id, -, hid⟩ := List.mem_filterMap.1 hp
        obtain ⟨d, hd, rfl⟩ := Option.map_eq_some_iff.1 hid
        exact hd
      rw [if_pos rfl, Std.ExtTreeMap.ofList_eq_insertMany_empty,
        StringMap.getElem?_insertMany_of_forall hdigest]
      cases hid : (m (o.digestsKey type)).field? id with
      | none => simp
      | some d =>
          refine if_congr ?_ rfl rfl
          simp only [true_and, List.mem_map, List.mem_filterMap, List.mem_filter, Prod.exists,
            Option.map_eq_some_iff, Prod.mk.injEq]
          constructor
          · rintro ⟨_, d', ⟨_, ⟨e, he, rfl⟩, _, _, rfl, rfl⟩, rfl⟩
            exact ⟨e, he.1, he.2, rfl⟩
          · rintro ⟨e, hmem, hcomparable, rfl⟩
            exact ⟨e.id, d, ⟨e.id, ⟨e, ⟨hmem, hcomparable⟩, rfl⟩, d, hid, rfl, rfl⟩, rfl⟩

variable (refuses : String → Bool) (reply : List Command → Except Error Unit)

theorem run_storedDigests (m : Cells) (chunk : List Entity) :
    (storedDigests o type chunk).run (Cells.respondPartly refuses reply) m =
      (m, .ok (fetched o type m chunk)) := by
  unfold storedDigests fetched
  cases o.hashing with
  | false => rfl
  | true =>
      by_cases hids : ((chunk.filter isComparable).map Entity.id).isEmpty
      · simp only [hids, Bool.not_true, Bool.and_false, Bool.false_eq_true, if_false, if_true]
        rw [List.isEmpty_iff.1 hids]
        rfl
      · simp only [hids, Bool.not_false, Bool.and_true, if_true]
        rw [Plan.run_bind]
        have hzip : ∀ (l : List String) (f : String → Option Bytes),
            (l.zip (l.map f)).filterMap (fun p => p.2.map (p.1, ·)) =
              l.filterMap fun id => (f id).map (id, ·) := by
          intro l f
          rw [← List.map_prod_left_eq_zip, List.filterMap_map]
          rfl
        exact congrArg (fun l => (m, Except.ok (Std.ExtTreeMap.ofList l))) (hzip _ _)

/-! ## Running a write -/

/-- The cells after a chunk. -/
def putChunk (m : Cells) (chunk : List Entity) : Cells :=
  m.applyAll (chunkBatch o mode type (fetched o type m chunk) chunk)

/-- The cells after some chunks. -/
def putChunks (m : Cells) (chunks : List (List Entity)) : Cells := chunks.foldl (putChunk o mode type) m

theorem run_writeChunk (m : Cells) (counts : MergeCounts) (chunk : List Entity) :
    ∃ counts', (writeChunk o mode type counts chunk).run (Cells.respondPartly refuses reply) m =
      (fun key => if refuses key then m key else putChunk o mode type m chunk key,
        (reply (chunkBatch o mode type (fetched o type m chunk) chunk)).map fun _ => counts') := by
  let batch := chunkBatch o mode type (fetched o type m chunk) chunk
  have hcommit : (commit batch).run (Cells.respondPartly refuses reply) m =
      (fun key => if refuses key then m key else putChunk o mode type m chunk key, reply batch) := rfl
  unfold writeChunk
  rw [Plan.run_bind, run_storedDigests]
  dsimp only
  rw [Plan.run_bind, hcommit]
  cases reply batch with
  | ok u => exact ⟨_, rfl⟩
  | error e => exact ⟨counts, rfl⟩

/-- A batch of which nothing is refused is carried out as a whole. -/
theorem putChunk_of_forall_not_refused {m : Cells} {chunk : List Entity}
    (h : ∀ c ∈ chunkBatch o mode type (fetched o type m chunk) chunk, refuses c.key = false) :
    (fun key => if refuses key then m key else putChunk o mode type m chunk key) =
      putChunk o mode type m chunk := by
  funext key
  by_cases hkey : refuses key
  · rw [if_pos hkey, putChunk, Cells.applyAll_of_forall_ne]
    rintro c hc rfl
    rw [h c hc] at hkey
    contradiction
  · rw [if_neg hkey]

/-- A write to cells that refuse no key puts all chunks there. -/
theorem run_write (m : Cells) {es : List Entity} (hes : ∀ e ∈ es, e.id.isEmpty = false) :
    (write o mode type es).run Cells.respond m =
      (putChunks o mode type m (batches o.mergeBatch es), .ok ()) := by
  have hchunks : ∀ (chunks : List (List Entity)) (m : Cells) (counts : MergeCounts), ∃ counts',
      (Plan.forEach chunks counts (writeChunk o mode type)).run Cells.respond m =
        (putChunks o mode type m chunks, .ok counts') := by
    intro chunks
    induction chunks with
    | nil => exact fun m counts => ⟨counts, rfl⟩
    | cons chunk chunks ih =>
        intro m counts
        obtain ⟨counts₁, hchunk⟩ :=
          run_writeChunk o mode type (fun _ => false) (fun _ => .ok ()) m counts chunk
        rw [Cells.respondPartly_none] at hchunk
        obtain ⟨counts₂, hrest⟩ := ih (putChunk o mode type m chunk) counts₁
        refine ⟨counts₂, ?_⟩
        rw [Plan.run_forEach_cons, hchunk]
        exact hrest
  have hnone : es.find? (fun e => e.id.isEmpty) = none := by simpa using hes
  obtain ⟨counts, hrun⟩ := hchunks (batches o.mergeBatch es) m { items := es.length }
  unfold write
  rw [hnone]
  dsimp only
  rw [Plan.run_bind, hrun]
  rfl

/-- What a write leaves behind if some keys are refused: under those keys less of the chunks than
under the others. -/
theorem run_write_partly
    (hreply : ∀ batch, reply batch = .ok () → ∀ c ∈ batch, refuses c.key = false) (m : Cells)
    {es : List Entity} (hes : ∀ e ∈ es, e.id.isEmpty = false) :
    ∃ less more, less <+: more ∧ more <+: batches o.mergeBatch es ∧
      ((write o mode type es).run (Cells.respondPartly refuses reply) m).1 = fun key =>
        if refuses key then putChunks o mode type m less key else putChunks o mode type m more key := by
  have hchunks : ∀ (chunks : List (List Entity)) (m : Cells) (counts : MergeCounts),
      ∃ less more, less <+: more ∧ more <+: chunks ∧
        ((Plan.forEach chunks counts (writeChunk o mode type)).run
          (Cells.respondPartly refuses reply) m).1 = fun key =>
          if refuses key then putChunks o mode type m less key
          else putChunks o mode type m more key := by
    intro chunks
    induction chunks with
    | nil =>
        exact fun m counts => ⟨[], [], List.prefix_rfl, List.prefix_rfl, by funext; simp [putChunks]⟩
    | cons chunk chunks ih =>
        intro m counts
        obtain ⟨counts₁, hchunk⟩ := run_writeChunk o mode type refuses reply m counts chunk
        cases hr : reply (chunkBatch o mode type (fetched o type m chunk) chunk) with
        | error e =>
            refine ⟨[], [chunk], List.nil_prefix, by simp, ?_⟩
            rw [Plan.run_forEach_cons, hchunk, hr]
            rfl
        | ok u =>
            obtain ⟨less, more, hless, hmore, hstate⟩ := ih (putChunk o mode type m chunk) counts₁
            refine ⟨chunk :: less, chunk :: more, by simpa, by simpa, ?_⟩
            rw [Plan.run_forEach_cons, hchunk, hr,
              putChunk_of_forall_not_refused o mode type refuses (hreply _ hr)]
            exact hstate
  have hnone : es.find? (fun e => e.id.isEmpty) = none := by simpa using hes
  obtain ⟨less, more, hless, hmore, hstate⟩ :=
    hchunks (batches o.mergeBatch es) m { items := es.length }
  refine ⟨less, more, hless, hmore, ?_⟩
  unfold write
  rw [hnone]
  dsimp only
  rw [Plan.run_bind, ← hstate]
  rcases Plan.run _ m (Plan.forEach _ _ _) with ⟨m', _ | _⟩ <;> rfl

/-! ## What a chunk consists of -/

theorem applyAll_expiry (m : Cells) (ttl : Option UInt64) (key key' : String) :
    m.applyAll (expiry ttl key) key' = if key = key' then (m key').expiring ttl else m key' := by
  cases ttl with
  | none => simp [expiry, Cell.expiring]
  | some seconds => rfl

section Keys

variable {o mode type} {e : Entity} {stored : StringMap Bytes} {c : Command}

theorem key_of_mem_attributeCommands (h : c ∈ attributeCommands o type stored e) :
    c.key = (Slot.attributes e.id).key o type ∨ c.key = Slot.digests.key o type := by
  unfold attributeCommands expiry digestCommands at h
  cases e.ttl <;> grind [Slot.key, Command.key]

theorem key_of_mem_relationshipCommands (h : c ∈ relationshipCommands o mode type e) :
    ∃ related ∈ e.relationships, c.key = (Slot.related e.id related).key o type := by
  obtain ⟨⟨related, ids⟩, hmem, h⟩ := List.mem_flatMap.1 h
  refine ⟨related, StringMap.mem_of_mem_toList hmem, ?_⟩
  unfold relatedCommands expiry at h
  cases e.ttl <;> grind [Slot.key, Command.key]

theorem isNoop_of_mem_attributeCommands (h : c ∈ attributeCommands o type stored e) :
    c.isNoop = false := by
  unfold attributeCommands expiry digestCommands at h
  cases e.ttl <;> grind [Command.isNoop]

theorem isNoop_of_mem_relationshipCommands (h : c ∈ relationshipCommands o mode type e) :
    c.isNoop = false := by
  obtain ⟨⟨related, ids⟩, -, h⟩ := List.mem_flatMap.1 h
  unfold relatedCommands expiry at h
  cases e.ttl <;> grind [Command.isNoop]

end Keys

/-- The commands that enter the entities of a chunk into the index. -/
def indexCommands (chunk : List Entity) : List Command :=
  Command.batch [.addMembers (o.membersKey type) (chunk.map Entity.id)] ++
    Command.batch [.addMembers (o.relatedTypesKey type) (chunkTypes chunk).toList]

/-- All commands that write an entity but those for its attributes. -/
def frame (e : Entity) : List Command :=
  indexCommands o type [e] ++ relationshipCommands o mode type e

/-- The cells after the frames of some entities. -/
def putFrames (m : Cells) (es : List Entity) : Cells :=
  es.foldl (fun m e => m.applyAll (frame o mode type e)) m

/-- The cells after the attributes of some entities, compared with the given digests. -/
def putAttributes (m : Cells) (stored : StringMap Bytes) (es : List Entity) : Cells :=
  es.foldl (fun m e => m.applyAll (attributeCommands o type stored e)) m

section Commute

variable {o mode type}

theorem key_of_mem_indexCommands {chunk : List Entity} {c : Command}
    (h : c ∈ indexCommands o type chunk) :
    c.key = Slot.members.key o type ∨ c.key = Slot.relatedTypes.key o type := by
  simp only [indexCommands, Command.batch, List.mem_append, List.mem_filter,
    List.mem_singleton] at h
  rcases h with ⟨rfl, -⟩ | ⟨rfl, -⟩
  · exact .inl rfl
  · exact .inr rfl

/-- The index, the relationships and the attributes are written under different keys. -/
theorem index_ne_attributes {e : Entity} {stored : StringMap Bytes} {chunk : List Entity}
    {c d : Command} (hc : c ∈ indexCommands o type chunk)
    (hd : d ∈ attributeCommands o type stored e) : c.key ≠ d.key := by
  intro h
  rcases key_of_mem_indexCommands hc with hc | hc <;>
    rcases key_of_mem_attributeCommands hd with hd | hd <;>
      exact Slot.key_ne _ _ (by simp [Slot.kind]) (hc.symm.trans (h.trans hd))

theorem index_ne_relationship {e : Entity} {chunk : List Entity} {c d : Command}
    (hc : c ∈ indexCommands o type chunk) (hd : d ∈ relationshipCommands o mode type e) :
    c.key ≠ d.key := by
  intro h
  obtain ⟨related, -, hd⟩ := key_of_mem_relationshipCommands hd
  rcases key_of_mem_indexCommands hc with hc | hc <;>
    exact Slot.key_ne _ _ (by simp [Slot.kind]) (hc.symm.trans (h.trans hd))

theorem attributes_ne_relationship {e e' : Entity} {stored : StringMap Bytes} {c d : Command}
    (hc : c ∈ attributeCommands o type stored e) (hd : d ∈ relationshipCommands o mode type e') :
    c.key ≠ d.key := by
  intro h
  obtain ⟨related, -, hd⟩ := key_of_mem_relationshipCommands hd
  rcases key_of_mem_attributeCommands hc with hc | hc <;>
    exact Slot.key_ne _ _ (by simp [Slot.kind]) (hc.symm.trans (h.trans hd))

end Commute

theorem applyAll_indexCommands (m : Cells) (chunk : List Entity) (key : String) :
    m.applyAll (indexCommands o type chunk) key =
      if key = o.membersKey type then (m key).add (chunk.map Entity.id)
      else if key = o.relatedTypesKey type then (m key).add (chunkTypes chunk).toList
      else m key := by
  have hne : o.membersKey type ≠ o.relatedTypesKey type := Slot.key_ne .members .relatedTypes
  rw [indexCommands, Cells.applyAll_append, Cells.applyAll_addMembers, Cells.applyAll_addMembers]
  grind

/-- The index of a chunk is entered entity by entity. -/
theorem applyAll_indexCommands_cons (m : Cells) (e : Entity) (chunk : List Entity) :
    m.applyAll (indexCommands o type (e :: chunk)) =
      (m.applyAll (indexCommands o type [e])).applyAll (indexCommands o type chunk) := by
  funext key
  simp only [applyAll_indexCommands]
  by_cases hm : key = o.membersKey type
  · simp only [if_pos hm, ← Cell.add_append]
    rfl
  · by_cases ht : key = o.relatedTypesKey type
    · simp only [if_neg hm, if_pos ht, ← Cell.add_append]
      refine Cell.add_congr fun x => ?_
      simp [chunkTypes]
    · simp only [if_neg hm, if_neg ht]

/-- The index and the relationships of a chunk are written entity by entity. -/
theorem applyAll_index_relationships (m : Cells) (chunk : List Entity) :
    m.applyAll (indexCommands o type chunk ++ chunk.flatMap (relationshipCommands o mode type)) =
      putFrames o mode type m chunk := by
  induction chunk generalizing m with
  | nil =>
      funext key
      rw [List.flatMap_nil, List.append_nil, applyAll_indexCommands]
      simp [Cell.add, chunkTypes, putFrames]
  | cons e chunk ih =>
      have hcomm : ∀ m : Cells,
          (m.applyAll (indexCommands o type chunk)).applyAll (relationshipCommands o mode type e) =
            (m.applyAll (relationshipCommands o mode type e)).applyAll (indexCommands o type chunk) :=
        fun m => Cells.applyAll_comm fun c hc d hd => index_ne_relationship hc hd
      calc m.applyAll (indexCommands o type (e :: chunk) ++
            (e :: chunk).flatMap (relationshipCommands o mode type))
          = (((m.applyAll (indexCommands o type [e])).applyAll (indexCommands o type chunk)).applyAll
              (relationshipCommands o mode type e)).applyAll
                (chunk.flatMap (relationshipCommands o mode type)) := by
            rw [Cells.applyAll_append, applyAll_indexCommands_cons, List.flatMap_cons,
              Cells.applyAll_append]
        _ = (m.applyAll (frame o mode type e)).applyAll (indexCommands o type chunk ++
              chunk.flatMap (relationshipCommands o mode type)) := by
            rw [hcomm, frame, Cells.applyAll_append, Cells.applyAll_append]
        _ = putFrames o mode type m (e :: chunk) := ih _

/-- The batch of a chunk enters it into the index and writes its entities. -/
theorem chunkBatch_eq (stored : StringMap Bytes) (chunk : List Entity) :
    chunkBatch o mode type stored chunk =
      Command.batch [.addMembers (o.membersKey type) (chunk.map Entity.id)] ++
        (chunk.flatMap (fun e =>
          attributeCommands o type stored e ++ relationshipCommands o mode type e) ++
        Command.batch [.addMembers (o.relatedTypesKey type) (chunkTypes chunk).toList]) := by
  have hitems : Command.batch (chunk.flatMap fun e =>
      attributeCommands o type stored e ++ relationshipCommands o mode type e) =
        chunk.flatMap fun e =>
          attributeCommands o type stored e ++ relationshipCommands o mode type e := by
    refine List.filter_eq_self.2 fun c hc => ?_
    obtain ⟨e, -, hc⟩ := List.mem_flatMap.1 hc
    rcases List.mem_append.1 hc with hc | hc
    · rw [isNoop_of_mem_attributeCommands hc, Bool.not_false]
    · rw [isNoop_of_mem_relationshipCommands hc, Bool.not_false]
  rw [← hitems]
  simp only [Command.batch, ← List.filter_append]
  rfl

/-- The batch of a chunk comes to the frames of its entities and then their attributes, whatever the digests
are that it has been compared with. -/
theorem applyAll_chunkBatch (m : Cells) (stored : StringMap Bytes) (chunk : List Entity) :
    m.applyAll (chunkBatch o mode type stored chunk) =
      putAttributes o type (putFrames o mode type m chunk) stored chunk := by
  let items := chunk.flatMap fun e =>
    attributeCommands o type stored e ++ relationshipCommands o mode type e
  let types := Command.batch [.addMembers (o.relatedTypesKey type) (chunkTypes chunk).toList]
  have htypes : ∀ c ∈ items, ∀ d ∈ types, c.key ≠ d.key := by
    intro c hc d hd
    obtain ⟨e, -, hc⟩ := List.mem_flatMap.1 hc
    have hindex : d ∈ indexCommands o type chunk := List.mem_append_right _ hd
    rcases List.mem_append.1 hc with hc | hc
    · exact (index_ne_attributes hindex hc).symm
    · exact (index_ne_relationship hindex hc).symm
  calc m.applyAll (chunkBatch o mode type stored chunk)
      = (m.applyAll (indexCommands o type chunk)).applyAll items := by
        rw [chunkBatch_eq, Cells.applyAll_append, Cells.applyAll_append,
          Cells.applyAll_comm htypes, ← Cells.applyAll_append m]
        rfl
    _ = (putFrames o mode type m chunk).applyAll (chunk.flatMap (attributeCommands o type stored)) := by
        rw [Cells.applyAll_flatMap_append _ _ _ _ fun _ _ _ hc _ hd =>
          attributes_ne_relationship hc hd, ← Cells.applyAll_append m,
          applyAll_index_relationships]
    _ = putAttributes o type (putFrames o mode type m chunk) stored chunk :=
        Cells.applyAll_flatMap _ _ _

/-- A chunk is the frames of its entities and then their attributes. -/
theorem putChunk_eq (m : Cells) (chunk : List Entity) :
    putChunk o mode type m chunk =
      putAttributes o type (putFrames o mode type m chunk) (fetched o type m chunk) chunk :=
  applyAll_chunkBatch o mode type m (fetched o type m chunk) chunk

/-! ## Several chunks -/

/-- The cells after the attributes of a chunk, compared with the digests that are there. -/
def putAttributeChunk (m : Cells) (chunk : List Entity) : Cells :=
  putAttributes o type m (fetched o type m chunk) chunk

theorem fetched_congr {m m' : Cells} (h : m (o.digestsKey type) = m' (o.digestsKey type))
    (chunk : List Entity) : fetched o type m chunk = fetched o type m' chunk := by
  rw [fetched, fetched, h]

theorem key_of_mem_frame {e : Entity} {c : Command} (h : c ∈ frame o mode type e) :
    c.key = Slot.members.key o type ∨ c.key = Slot.relatedTypes.key o type ∨
      ∃ related ∈ e.relationships, c.key = (Slot.related e.id related).key o type := by
  rcases List.mem_append.1 h with h | h
  · exact (key_of_mem_indexCommands h).imp_right .inl
  · exact .inr (.inr (key_of_mem_relationshipCommands h))

section Frames

variable {o mode type}

/-- A frame changes the index and the related ids of its entity only. -/
theorem applyAll_frame_other {m : Cells} {e : Entity} {key : String} (hmembers : key ≠ o.membersKey type)
    (hrelatedTypes : key ≠ o.relatedTypesKey type)
    (hrelated : ∀ related, key ≠ o.relationshipKey type e.id related) :
    m.applyAll (frame o mode type e) key = m key := by
  refine Cells.applyAll_of_forall_ne fun c hc hkey => ?_
  rcases key_of_mem_frame o mode type hc with h | h | ⟨related, -, h⟩
  · exact hmembers (hkey.symm.trans h)
  · exact hrelatedTypes (hkey.symm.trans h)
  · exact hrelated related (hkey.symm.trans h)

theorem putFrames_other {key : String} (hmembers : key ≠ o.membersKey type)
    (hrelatedTypes : key ≠ o.relatedTypesKey type)
    (hrelated : ∀ id related, key ≠ o.relationshipKey type id related) (m : Cells) (es : List Entity) :
    putFrames o mode type m es key = m key := by
  induction es generalizing m with
  | nil => rfl
  | cons e es ih => exact (ih _).trans (applyAll_frame_other hmembers hrelatedTypes (hrelated e.id))

/-- Frames keep the digests. -/
theorem putFrames_digests (m : Cells) (es : List Entity) :
    putFrames o mode type m es (o.digestsKey type) = m (o.digestsKey type) :=
  putFrames_other (Slot.key_ne .digests .members) (Slot.key_ne .digests .relatedTypes)
    (fun id related => Slot.key_ne .digests (.related id related)) m es

/-- Frames keep the attributes. -/
theorem putFrames_attributes (m : Cells) (es : List Entity) (id : String) :
    putFrames o mode type m es (o.attributesKey type id) = m (o.attributesKey type id) :=
  putFrames_other (Slot.key_ne (.attributes id) .members) (Slot.key_ne (.attributes id) .relatedTypes)
    (fun id' related => Slot.key_ne (.attributes id) (.related id' related)) m es

end Frames

theorem applyAll_frame_putAttributes (m : Cells) (stored : StringMap Bytes) (e : Entity)
    (es : List Entity) : (putAttributes o type m stored es).applyAll (frame o mode type e) =
      putAttributes o type (m.applyAll (frame o mode type e)) stored es := by
  rw [putAttributes, putAttributes, ← Cells.applyAll_flatMap, ← Cells.applyAll_flatMap]
  refine Cells.applyAll_comm fun c hc d hd => ?_
  obtain ⟨e', -, hc⟩ := List.mem_flatMap.1 hc
  rcases List.mem_append.1 hd with hd | hd
  · exact (index_ne_attributes hd hc).symm
  · exact attributes_ne_relationship hc hd

/-- Chunks are the frames of all their entities and then their attributes, chunk by chunk. -/
theorem putChunks_eq (m : Cells) (chunks : List (List Entity)) :
    putChunks o mode type m chunks =
      chunks.foldl (putAttributeChunk o type) (putFrames o mode type m chunks.flatten) := by
  have hcomm : ∀ (m : Cells) (e : Entity) (chunk : List Entity),
      (putAttributeChunk o type m chunk).applyAll (frame o mode type e) =
        putAttributeChunk o type (m.applyAll (frame o mode type e)) chunk := by
    intro m e chunk
    have hdigests : m.applyAll (frame o mode type e) (o.digestsKey type) = m (o.digestsKey type) :=
      putFrames_digests m [e]
    rw [putAttributeChunk, putAttributeChunk, applyAll_frame_putAttributes,
      fetched_congr o type hdigests]
  have hchunk : putChunk o mode type = fun m chunk =>
      putAttributeChunk o type (putFrames o mode type m chunk) chunk :=
    funext fun m => funext fun chunk => by
      rw [putChunk_eq, putAttributeChunk,
        fetched_congr o type (putFrames_digests m chunk)]
  rw [putChunks, hchunk]
  exact foldl_of_comm (f := fun m e => m.applyAll (frame o mode type e)) hcomm chunks m

end Inventory.KeyValue
