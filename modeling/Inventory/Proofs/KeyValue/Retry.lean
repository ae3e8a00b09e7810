import Inventory.Proofs.KeyValue.Requests
import Inventory.Proofs.KeyValue.Single

/-!
# Inventory.Proofs.KeyValue.Retry

Repeating a write of which some shards refused their part.

A write that failed has left two states on its way behind, one under the keys that were refused and
one under the others (`run_write_partly`). Written from the start again, all keys end as if nothing had
happened, except for attributes whose digest was stored without them: the digest lets the repeated
write skip them (`Stranded`). Those are what the repetition does not repair, and all that it does not
repair (`retry_after_refused_writes`).
-/

namespace Inventory

/-! ## Looking alike -/

/-- Two cells look the same to every read. -/
def Cell.LooksLike (c c' : Cell) : Prop := c.attributes = c'.attributes ∧ c.members = c'.members

namespace KeyValue

variable {o : Options} {mode : WriteMode} {type : String} {m m₁ : Cells} {es : List Entity} {e : Entity}

/-! ## One entity -/

/-- An entity that was written in part, with or without its digest, and is written again ends as if it
had been written once, unless it is skipped now and was not before. -/
theorem attributes_again
    (hattributes : m₁ (o.attributesKey type e.id) = m (o.attributesKey type e.id) ∨
      m₁ (o.attributesKey type e.id) = putAttributeChunk o type m [e] (o.attributesKey type e.id))
    (hdigest : (m₁ (o.digestsKey type)).field? e.id = (m (o.digestsKey type)).field? e.id ∨
      (m₁ (o.digestsKey type)).field? e.id =
        (putAttributeChunk o type m [e] (o.digestsKey type)).field? e.id) :
    putAttributeChunk o type m₁ [e] (o.attributesKey type e.id) =
        putAttributeChunk o type m [e] (o.attributesKey type e.id) ∨
      skips o ((m (o.digestsKey type)).field? e.id) e = false ∧
        skips o ((m₁ (o.digestsKey type)).field? e.id) e = true := by
  simp only [putAttributeChunk_attributes, putAttributeChunk_digest] at hattributes hdigest ⊢
  by_cases hempty : e.attributes.isEmpty
  · simp only [hempty, Bool.true_or, if_true, or_self] at hattributes ⊢
    exact .inl hattributes
  · cases hskips : skips o ((m (o.digestsKey type)).field? e.id) e with
    | true =>
        simp only [hskips, Bool.or_true, if_true, or_self, Bool.not_true, Bool.and_false,
          Bool.false_eq_true, if_false] at hattributes hdigest ⊢
        rw [hdigest, hskips, hattributes]
        simp
    | false =>
        cases hskips₁ : skips o ((m₁ (o.digestsKey type)).field? e.id) e with
        | true => exact .inr ⟨rfl, rfl⟩
        | false => simp [hempty]

/-! ## A part of a write -/

/-- What a part of a write makes of the attributes of an entity: nothing, or all. -/
theorem sameFor_putEach (hids : (es.map Entity.id).Nodup) (he : e ∈ es) {part : List Entity}
    (hpart : part <+: es) (m : Cells) :
    SameFor o type e.id (putEach o mode type m part) m ∨
      SameFor o type e.id (putEach o mode type m part) (putAttributeChunk o type m [e]) := by
  have hframes := sameFor_putFrames o type mode m part e.id
  rw [putEach_eq]
  by_cases hmem : e ∈ part
  · refine .inr ((sameFor_of_mem ?_ hmem _).trans (hframes.putAttributeChunk e))
    exact hids.sublist (hpart.sublist.map _)
  · refine .inl ((sameFor_of_not_mem ?_ _).trans hframes)
    intro hid
    obtain ⟨e', he', hid⟩ := List.mem_map.1 hid
    exact hmem (List.inj_on_of_nodup_map hids (hpart.subset he') he hid ▸ he')

/-- What a write left behind of which some keys were refused: under those keys less of it than under
the others. -/
structure Leftover (o : Options) (mode : WriteMode) (type : String) (es : List Entity) (m m₁ : Cells) :
    Prop where
  part : ∀ key, ∃ part, part <+: es ∧ m₁ key = putEach o mode type m part key

theorem Leftover.digests (h : Leftover o mode type es m m₁) :
    SameButFields (m₁ (o.digestsKey type)) (m (o.digestsKey type)) := by
  obtain ⟨part, -, hpart⟩ := h.part (o.digestsKey type)
  rw [hpart]
  exact sameButFields_putChunks o type mode m _

theorem SameButFields.looksLike {c c' : Cell} (h : SameButFields c c') : c.LooksLike c' :=
  ⟨by rw [Cell.attributes, Cell.attributes, h.blob], h.members⟩

/-- Written again, all but the attributes and the digests is as if it had been written once. -/
theorem Leftover.again_other (h : Leftover o mode type es m m₁) {key : String}
    (hattributes : ∀ e ∈ es, key ≠ o.attributesKey type e.id) (hdigests : key ≠ o.digestsKey type) :
    putEach o mode type m₁ es key = putEach o mode type m es key := by
  obtain ⟨part, hinit, hpart⟩ := h.part key
  rw [putEach_other (fun e he => hattributes e (hinit.subset he)) hdigests] at hpart
  rw [putEach_other hattributes hdigests, putEach_other hattributes hdigests]
  exact putFrames_again hinit hpart

/-- What was held for the attributes of an entity before, or what is held once it is written. -/
theorem Leftover.sameFor (h : Leftover o mode type es m m₁) (hids : (es.map Entity.id).Nodup)
    (he : e ∈ es) :
    (m₁ (o.attributesKey type e.id) = m (o.attributesKey type e.id) ∨
      m₁ (o.attributesKey type e.id) = putAttributeChunk o type m [e] (o.attributesKey type e.id)) ∧
    ((m₁ (o.digestsKey type)).field? e.id = (m (o.digestsKey type)).field? e.id ∨
      (m₁ (o.digestsKey type)).field? e.id =
        (putAttributeChunk o type m [e] (o.digestsKey type)).field? e.id) := by
  constructor
  · obtain ⟨part, hinit, hpart⟩ := h.part (o.attributesKey type e.id)
    rw [hpart]
    exact (sameFor_putEach hids he hinit m).imp SameFor.attributes SameFor.attributes
  · obtain ⟨part, hinit, hpart⟩ := h.part (o.digestsKey type)
    rw [hpart]
    exact (sameFor_putEach hids he hinit m).imp SameFor.digest SameFor.digest

/-- The attributes of an entity are lost: its digest was stored and something else stands in their
place, so that they are skipped from now on. -/
structure Stranded (o : Options) (type : String) (m m₁ : Cells) (e : Entity) : Prop where
  /-- They were not skipped before. -/
  fresh : skips o ((m (o.digestsKey type)).field? e.id) e = false
  /-- They are skipped now. -/
  skipped : skips o ((m₁ (o.digestsKey type)).field? e.id) e = true
  /-- They are not there. -/
  lost : ¬ (m₁ (o.attributesKey type e.id)).LooksLike ⟨some (.blob (blobOf o e)), none⟩

theorem putEach_attributes (hids : (es.map Entity.id).Nodup) (he : e ∈ es) (m : Cells) :
    putEach o mode type m es (o.attributesKey type e.id) =
      putAttributeChunk o type m [e] (o.attributesKey type e.id) := by
  have hframes := sameFor_putFrames o type mode m es e.id
  rw [putEach_eq]
  exact ((sameFor_of_mem hids he _).trans (hframes.putAttributeChunk e)).attributes

/-- The attributes of an entity that is skipped stay as they are, and those of one that is not are put
there. -/
theorem Leftover.again_attributes (h : Leftover o mode type es m m₁) (hids : (es.map Entity.id).Nodup)
    (he : e ∈ es) (hstranded : ¬ Stranded o type m m₁ e) :
    (putEach o mode type m₁ es (o.attributesKey type e.id)).LooksLike
      (putEach o mode type m es (o.attributesKey type e.id)) := by
  obtain ⟨hattributes, hdigest⟩ := h.sameFor hids he
  rw [putEach_attributes hids he, putEach_attributes hids he]
  rcases attributes_again hattributes hdigest with hsame | ⟨hfresh, hskipped⟩
  · rw [hsame]
    exact ⟨rfl, rfl⟩
  · have hempty := (isComparable_iff.1 (isComparable_of_skips hskipped)).1
    rw [putAttributeChunk_attributes, putAttributeChunk_attributes, hfresh, hskipped, hempty,
      ttl_of_skips hskipped]
    exact not_not.1 fun hlost => hstranded ⟨hfresh, hskipped, hlost⟩

/-- A repeated write repairs all but what is stranded. -/
theorem Leftover.again (h : Leftover o mode type es m m₁) (hids : (es.map Entity.id).Nodup)
    (hstranded : ∀ e ∈ es, ¬ Stranded o type m m₁ e) :
    (putEach o mode type m₁ es).SameReads (putEach o mode type m es) := by
  intro key
  by_cases hattributes : ∃ e ∈ es, key = o.attributesKey type e.id
  · obtain ⟨e, he, rfl⟩ := hattributes
    exact h.again_attributes hids he (hstranded e he)
  · have hattributes : ∀ e ∈ es, key ≠ o.attributesKey type e.id := fun e he hkey =>
      hattributes ⟨e, he, hkey⟩
    by_cases hdigests : key = o.digestsKey type
    · subst hdigests
      have hagain := (sameButFields_putChunks o type mode m₁
        (es.map fun e => [e])).looksLike
      have honce := (sameButFields_putChunks o type mode m
        (es.map fun e => [e])).looksLike
      have hleft := h.digests.looksLike
      exact ⟨(hagain.1.trans hleft.1).trans honce.1.symm, (hagain.2.trans hleft.2).trans honce.2.symm⟩
    · rw [h.again_other hattributes hdigests]
      exact ⟨rfl, rfl⟩

/-- What is stranded is seen by a read of its entity. -/
theorem Leftover.differs (h : Leftover o mode type es m m₁) (hids : (es.map Entity.id).Nodup)
    (he : e ∈ es) (hmembers : (m (o.membersKey type)).takesMembers)
    (hlegible : Blob.decode (blobOf o e) = .ok e.attributes) (hstranded : Stranded o type m m₁ e) :
    readReply o (putEach o mode type m₁ es) (.entities type (some [e.id]) (some .none)) ≠
      readReply o (putEach o mode type m es) (.entities type (some [e.id]) (some .none)) := by
  have hkey : ∀ e ∈ es, o.membersKey type ≠ o.attributesKey type e.id := fun e _ =>
    Slot.key_ne .members (.attributes e.id)
  have hkey' : o.membersKey type ≠ o.digestsKey type := Slot.key_ne .members .digests
  have honce : e.id ∈ members o type (putEach o mode type m es) := by
    rw [members, putEach_other hkey hkey']
    exact ((members_putFrames m es hmembers).2 e.id).2 (.inr (List.mem_map.2 ⟨e, he, rfl⟩))
  have hagain : e.id ∈ members o type (putEach o mode type m₁ es) := by
    rwa [members, h.again_other hkey hkey']
  have hempty := (isComparable_iff.1 (isComparable_of_skips hstranded.skipped)).1
  have hwritten : putEach o mode type m es (o.attributesKey type e.id) =
      ⟨some (.blob (blobOf o e)), none⟩ := by
    rw [putEach_attributes hids he, putAttributeChunk_attributes, hstranded.fresh, hempty,
      ttl_of_skips hstranded.skipped]
    rfl
  have hkept : putEach o mode type m₁ es (o.attributesKey type e.id) =
      m₁ (o.attributesKey type e.id) := by
    rw [putEach_attributes hids he, putAttributeChunk_attributes, hstranded.skipped, Bool.or_true,
      if_pos rfl]
  have hblob : Cell.attributes ⟨some (.blob (blobOf o e)), none⟩ = .ok e.attributes := hlegible
  intro hsame
  -- The attributes are not empty, so a cell that shows them holds a blob and no members.
  have hattributes := attributes_of_readReply hagain honce hsame
  rw [hwritten, hkept, hblob] at hattributes
  refine hstranded.lost ⟨hattributes.trans hblob.symm, ?_⟩
  have hne : e.attributes ≠ [] := by simpa using hempty
  rcases hv : (m₁ (o.attributesKey type e.id)).value with _ | _ | _ | _
  · simp [Cell.attributes, Cell.blob?, hv, hne.symm] at hattributes
  · simp [Cell.members, hv]
  · simp [Cell.attributes, Cell.blob?, hv, hne.symm] at hattributes
  · simp [Cell.members, hv]

/-! ## Over a store -/

/-- Two stores answer every read alike. -/
def SameAnswers (o : Options) (s t : Store) : Prop :=
  ∀ r : CacheRequest, r.isRead → ∃ reply,
    (Backend.keyValue o).Replies s r reply ∧ (Backend.keyValue o).Replies t r reply

theorem sameAnswers_iff {s t : Store} (hs : s.Healthy) (ht : t.Healthy) :
    SameAnswers o s t ↔
      ∀ r : CacheRequest, r.isRead → readReply o s.cells r = readReply o t.cells r := by
  constructor
  · intro h r hr
    obtain ⟨reply, hreply, hreply'⟩ := h r hr
    exact ((Backend.replies_read hs hr).unique hreply).trans
      (hreply'.unique (Backend.replies_read ht hr))
  · intro h r hr
    exact ⟨_, Backend.replies_read hs hr, h r hr ▸ Backend.replies_read ht hr⟩

/-- Over a healthy store a write puts entities of different ids there as one by one. -/
theorem endsIn_write (mode : WriteMode) (type : String) (hids : (es.map Entity.id).Nodup)
    (hne : ∀ e ∈ es, e.id ≠ "") {s : Store} (hs : s.Healthy) :
    ∃ s', (Backend.keyValue o).EndsIn (.write mode type es) s s' (.ok ()) ∧ s'.Healthy ∧
      s'.cells = putEach o mode type s.cells es := by
  have hrun : (CachePlan.write mode type es).run (Backend.respond o) s.cells =
      (putEach o mode type s.cells es, .ok ()) :=
    respond_write_of_nodup (fun e he => by simpa using hne e he) hids s.cells
  obtain ⟨s', hends, hhealthy, hcells⟩ :=
    Backend.keyValue_endsIn (o := o) hs (CachePlan.write mode type es)
  rw [hrun] at hends hcells
  exact ⟨s', hends, hhealthy, hcells⟩

/-- What a failed write leaves behind. -/
theorem leftover_of_endsIn (hids : (es.map Entity.id).Nodup) (hne : ∀ e ∈ es, e.id ≠ "")
    {s s₁ : Store} (hs : s.Healthy) (refused : Nat → Bool) {result : Except Error Unit}
    (hfailed : (Backend.keyValue o).EndsIn (.write mode type es) (s.refusing refused) s₁ result) :
    s₁.Answers ∧ Leftover o mode type es s.cells s₁.cells := by
  have hanswers := hs.toAnswers.refusing refused
  obtain ⟨s', hends, hshows⟩ :=
    Store.endsIn_of_answers hanswers ((Backend.keyValue o).work (.write mode type es))
  obtain ⟨rfl, -⟩ := Plan.EndsIn.unique hends hfailed
  refine ⟨hshows.answers, ⟨fun key => ?_⟩⟩
  have hreply : ∀ batch, (((s.refusing refused).write batch).2).getD (.ok ()) = .ok () →
      ∀ c ∈ batch, (s.refusing refused).refuses c.key = false := by
    intro batch hok
    obtain ⟨reply, hsome, hall⟩ := Store.exists_reply hanswers batch
    rw [hsome] at hok
    exact hall hok
  obtain ⟨less, more, hless, hmore, hrun⟩ := run_write_partly o mode type
    (s.refusing refused).refuses _ hreply s.cells fun e he => by simpa using hne e he
  have hpart : ∀ chunks, chunks <+: batches o.mergeBatch es → chunks.flatten <+: es ∧
      putChunks o mode type s.cells chunks = putEach o mode type s.cells chunks.flatten := by
    rintro chunks ⟨rest, hrest⟩
    have hinit : chunks.flatten <+: es :=
      ⟨rest.flatten, by rw [← List.flatten_append, hrest, flatten_batches]⟩
    exact ⟨hinit, putChunks_of_uniform o type s.cells
      ((uniform_of_nodup hids).of_subset hinit.subset)⟩
  have hcells : s'.cells = ((write o mode type es).run (s.refusing refused).respond s.cells).1 := by
    rw [hshows.cells_eq, Store.cells_refusing]
    exact congrArg Prod.fst (Plan.run_expand _ (plan o) s.cells (CachePlan.write mode type es))
  rw [hcells]
  change ∃ part, part <+: es ∧ ((write o mode type es).run (Cells.respondPartly
    (s.refusing refused).refuses _) s.cells).1 key = _
  rw [hrun]
  by_cases hrefused : (s.refusing refused).refuses key
  · obtain ⟨hinit, hput⟩ := hpart less (hless.trans hmore)
    exact ⟨_, hinit, (if_pos hrefused).trans (congrFun hput key)⟩
  · obtain ⟨hinit, hput⟩ := hpart more hmore
    exact ⟨_, hinit, (if_neg hrefused).trans (congrFun hput key)⟩

/-- A write of which some shards refused their part, repeated once they accept it, ends well. If no
entity is stranded, every read is answered as if the write had succeeded at once. Conversely, reads
that are answered so strand none, provided that nothing else stands under the key of the ids and that
the blobs written can be read. -/
theorem retry_after_refused_writes (hids : (es.map Entity.id).Nodup) (hne : ∀ e ∈ es, e.id ≠ "")
    {s s₁ : Store} (hs : s.Healthy) (refused : Nat → Bool) {error : Error}
    (hfailed : (Backend.keyValue o).EndsIn (.write mode type es) (s.refusing refused) s₁
      (.error error)) :
    ∃ s₂ s₃,
      (Backend.keyValue o).EndsIn (.write mode type es) (s₁.refusing fun _ => false) s₂ (.ok ()) ∧
      (Backend.keyValue o).EndsIn (.write mode type es) s s₃ (.ok ()) ∧
      ((∀ e ∈ es, ¬ Stranded o type s.cells s₁.cells e) → SameAnswers o s₂ s₃) ∧
      ((s.cells (o.membersKey type)).takesMembers →
        (∀ e ∈ es, Blob.decode (blobOf o e) = .ok e.attributes) →
        SameAnswers o s₂ s₃ → ∀ e ∈ es, ¬ Stranded o type s.cells s₁.cells e) := by
  obtain ⟨hanswers, hleft⟩ := leftover_of_endsIn hids hne hs refused hfailed
  obtain ⟨s₂, hagain, hhealthy₂, hcells₂⟩ := endsIn_write (o := o) mode type hids hne hanswers.healed
  obtain ⟨s₃, honce, hhealthy₃, hcells₃⟩ := endsIn_write (o := o) mode type hids hne hs
  rw [Store.cells_refusing] at hcells₂
  refine ⟨s₂, s₃, hagain, honce, fun hstranded => ?_, fun hmembers hlegible hsame e he hstranded => ?_⟩
  · rw [sameAnswers_iff hhealthy₂ hhealthy₃, hcells₂, hcells₃]
    exact fun r _ => readReply_congr (hleft.again hids hstranded) r
  · rw [sameAnswers_iff hhealthy₂ hhealthy₃, hcells₂, hcells₃] at hsame
    exact hleft.differs hids he hmembers (hlegible e he) hstranded (hsame _ rfl)

/-! ## Two shards -/

/-- Two shards without any content. -/
def twoShards : Store := .sharded [{ name := "kv0" }, { name := "kv1" }]

/-- An entity whose attributes and whose digest belong to different ones of two shards. -/
def oneEntity : Entity := { id := "e", attributes := numbered 1 }

/-- The two shards after one of them has refused its part of the entity. -/
def halfWritten (shard : Nat) : Store :=
  (((Backend.keyValue {}).work (.write .union "t" [oneEntity])).follow Store.answer
    (twoShards.refusing (· == shard))).state

theorem healthy_twoShards : twoShards.Healthy := ⟨⟨by decide, by decide, by decide⟩, by decide⟩

theorem endsIn_halfWritten :
    (Backend.keyValue {}).EndsIn (.write .union "t" [oneEntity]) (twoShards.refusing (· == 0))
      (halfWritten 0) (.error (.unavailable "kv0" .writesFail)) :=
  Plan.endsIn_error (by decide +kernel)

theorem legible_oneEntity : Blob.decode (blobOf {} oneEntity) = .ok oneEntity.attributes :=
  (faithful_oneOrTwo {}).decode _ (.inl rfl)

/-- The digest of the entity is on the second shard, and its attributes are on neither. -/
theorem stranded_halfWritten : Stranded {} "t" twoShards.cells (halfWritten 0).cells oneEntity where
  fresh := by decide +kernel
  skipped := by decide +kernel
  lost hlooks := by
    have hblob : ((halfWritten 0).cells (Options.attributesKey {} "t" "e")).blob? = none := by
      decide +kernel
    have hattributes : (.ok [] : Except Error Attributes) =
        Cell.attributes ⟨some (.blob (blobOf {} oneEntity)), none⟩ := by
      simpa [Cell.attributes, oneEntity, hblob] using hlooks.1
    exact absurd (hattributes.trans legible_oneEntity) (by simp [oneEntity, numbered])

/-- Two shards of which the second refused the digest of an entity answer as if nothing had been refused, once
the entity is written again. -/
theorem retry_on_two_shards :
    ([oneEntity].map Entity.id).Nodup ∧ (∀ e ∈ [oneEntity], e.id ≠ "") ∧ twoShards.Healthy ∧
      (Backend.keyValue {}).EndsIn (.write .union "t" [oneEntity]) (twoShards.refusing (· == 1))
        (halfWritten 1) (.error (.unavailable "kv1" .writesFail)) ∧
      ∃ s₂ s₃,
        (Backend.keyValue {}).EndsIn (.write .union "t" [oneEntity])
          ((halfWritten 1).refusing fun _ => false) s₂ (.ok ()) ∧
        (Backend.keyValue {}).EndsIn (.write .union "t" [oneEntity]) twoShards s₃ (.ok ()) ∧
        (∀ e ∈ [oneEntity], ¬ Stranded {} "t" twoShards.cells (halfWritten 1).cells e) ∧
        SameAnswers {} s₂ s₃ := by
  have hids : ([oneEntity].map Entity.id).Nodup := by decide
  have hne : ∀ e ∈ [oneEntity], e.id ≠ "" := by decide
  have hfailed : (Backend.keyValue {}).EndsIn (.write .union "t" [oneEntity]) (twoShards.refusing (· == 1))
      (halfWritten 1) (.error (.unavailable "kv1" .writesFail)) := Plan.endsIn_error (by decide +kernel)
  have hstranded : ∀ e ∈ [oneEntity], ¬ Stranded {} "t" twoShards.cells (halfWritten 1).cells e := by
    have hskips : skips {} (((halfWritten 1).cells (Options.digestsKey {} "t")).field? oneEntity.id)
        oneEntity = false := by decide +kernel
    refine List.forall_mem_singleton.2 fun hstranded => ?_
    rw [hstranded.skipped] at hskips
    contradiction
  obtain ⟨s₂, s₃, hagain, honce, hsame, -⟩ :=
    retry_after_refused_writes hids hne healthy_twoShards (· == 1) hfailed
  exact ⟨hids, hne, healthy_twoShards, hfailed, s₂, s₃, hagain, honce, hstranded, hsame hstranded⟩

/-- The entity written again is still without its attributes. -/
theorem retry_loses_attributes :
    (Backend.keyValue {}).EndsIn (.write .union "t" [oneEntity]) (twoShards.refusing (· == 0))
        (halfWritten 0) (.error (.unavailable "kv0" .writesFail)) ∧
      ∃ s₂ s₃,
        (Backend.keyValue {}).EndsIn (.write .union "t" [oneEntity])
          ((halfWritten 0).refusing fun _ => false) s₂ (.ok ()) ∧
        (Backend.keyValue {}).EndsIn (.write .union "t" [oneEntity]) twoShards s₃ (.ok ()) ∧
        ¬ SameAnswers {} s₂ s₃ := by
  have hids : ([oneEntity].map Entity.id).Nodup := by decide
  have hne : ∀ e ∈ [oneEntity], e.id ≠ "" := by decide
  obtain ⟨hanswers, hleft⟩ :=
    leftover_of_endsIn hids hne healthy_twoShards (· == 0) endsIn_halfWritten
  obtain ⟨s₂, hagain, hhealthy₂, hcells₂⟩ :=
    endsIn_write (o := {}) .union "t" hids hne hanswers.healed
  obtain ⟨s₃, honce, hhealthy₃, hcells₃⟩ :=
    endsIn_write (o := {}) .union "t" hids hne healthy_twoShards
  rw [Store.cells_refusing] at hcells₂
  refine ⟨endsIn_halfWritten, s₂, s₃, hagain, honce, fun hsame => ?_⟩
  rw [sameAnswers_iff hhealthy₂ hhealthy₃, hcells₂, hcells₃] at hsame
  exact hleft.differs hids List.mem_cons_self (by decide +kernel) legible_oneEntity
    stranded_halfWritten (hsame _ rfl)

end KeyValue

end Inventory
