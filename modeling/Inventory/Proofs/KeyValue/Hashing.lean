import Inventory.Proofs.KeyValue.Consistent
import Inventory.Proofs.Store.Sharding

/-!
# Inventory.Proofs.KeyValue.Hashing

Skipping attributes cannot be seen.

Attributes are skipped if their digest is stored. Then a digest is that of attributes that were written, and
their blob is still there and does not expire (`Trusted`), so writing the attributes would have put there
what is there. Two caches of which one keeps digests and the other does not therefore write the same entity
by entity, and their stores differ by the digests and by nothing else (`SameButDigests`).
-/

namespace Inventory

/-- The attributes of which blobs may be written by a request. -/
def CacheRequest.written : CacheRequest → List Attributes
  | write _ _ es => (es.map Entity.attributes).filter (! ·.isEmpty)
  | _ => []

namespace KeyValue

variable {o : Options} {hashing : Bool} {W : Attributes → Prop} {mode : WriteMode} {type : String}
  {m m' : Cells} {e : Entity} {es : List Entity}
  (hW : ∀ a b, W a → W b → Blob.digest a = Blob.digest b → Blob.content a = Blob.content b)

/-! ## Digests that can be trusted -/

/-- The digests of a type are those of attributes that were written, and come with blobs that are there and
stay. -/
structure Trusted (o : Options) (W : Attributes → Prop) (type : String) (m : Cells) : Prop where
  consistent : Consistent o type m
  attested : Attested o W type m

namespace Trusted

theorem empty (o : Options) (W : Attributes → Prop) (type : String) : Trusted o W type fun _ => {} :=
  ⟨Consistent.empty o type, Attested.empty o W type⟩

theorem blob_of_digest (h : Trusted o W type m) {id : String} {d : Bytes}
    (hd : (m (o.digestsKey type)).field? id = some d) : ∃ a, W a ∧ d = Blob.digest a ∧
      m (o.attributesKey type id) =
        ⟨some (.blob (Blob.encode o.compression (Blob.content a))), none⟩ := by
  obtain ⟨-, a, ha, hdigest, hvalue⟩ := h.attested id d hd
  obtain ⟨-, _, hcell, -⟩ := h.consistent.digest id d hd
  refine ⟨a, ha, hdigest, Cell.ext hvalue ?_⟩
  rw [hcell]

include hW in
/-- Writing an entity puts its attributes there, whether they are skipped or not. -/
theorem putChunk_attributes (h : Trusted o W type m)
    (he : e.attributes ≠ [] → W e.attributes) :
    putChunk o mode type m [e] (o.attributesKey type e.id) =
      if e.attributes.isEmpty then m (o.attributesKey type e.id)
      else ⟨some (.blob (blobOf o e)), e.ttl⟩ := by
  rw [putChunk_single_attributes]
  by_cases hempty : e.attributes.isEmpty
  · rw [if_pos hempty, if_neg (by simp [hempty])]
  · rw [if_neg hempty]
    by_cases hskips : skips o ((m (o.digestsKey type)).field? e.id) e
    · -- What is skipped is there already, and does not expire.
      have hstored : (m (o.digestsKey type)).field? e.id = some (Blob.digest e.attributes) := by
        simp only [skips, Bool.and_eq_true, beq_iff_eq] at hskips
        exact hskips.2
      obtain ⟨a, ha, hdigest, hcell⟩ := h.blob_of_digest hstored
      have hcontent := hW a e.attributes ha (he (by simpa using hempty)) hdigest.symm
      rw [if_neg (by simp [hskips]), hcell, hcontent, ttl_of_skips hskips, blobOf]
    · rw [if_pos (by simp [hempty, hskips])]

theorem put (h : Trusted o W type m) (hplain : ∀ related ∈ e.relationships, Plain related)
    (he : e.attributes ≠ [] → W e.attributes) : Trusted o W type (putChunk o mode type m [e]) where
  consistent := h.consistent.put hplain
  attested :=
    have hchunks : ∀ e' ∈ [[e]].flatten, e'.attributes ≠ [] → W e'.attributes := by simpa using he
    h.attested.putChunks hchunks

theorem respond (ht : Plain type) (h : Trusted o W type m) {r : CacheRequest} (hr : Regular r)
    (hwritten : Written W r) : Trusted o W type (Backend.respond o r m).1 :=
  ⟨h.consistent.respond ht hr, h.attested.respond ht hwritten⟩

end Trusted

/-! ## The same but for digests -/

/-- Cells are the same under all keys but those of the digests of some types. -/
def SameButDigests (o : Options) (types : String → Prop) (m m' : Cells) : Prop :=
  ∀ key, (∀ type, types type → key ≠ o.digestsKey type) → m key = m' key

namespace SameButDigests

variable {types : String → Prop}

theorem applyAll (h : SameButDigests o types m m') (commands : List Command) :
    SameButDigests o types (m.applyAll commands) (m'.applyAll commands) := by
  intro key hkey
  rw [Cells.applyAll_eq_foldl, Cells.applyAll_eq_foldl, h key hkey]

section Plain

variable (hplain : ∀ type, types type → Plain type) (htype : types type)
include hplain htype

theorem slot (h : SameButDigests o types m m') (slot : Slot)
    (hkind : slot.kind ≠ Slot.digests.kind := by simp [Slot.kind]) :
    m (slot.key o type) = m' (slot.key o type) := by
  refine h _ fun other hother hkey => ?_
  obtain rfl : type = other :=
    Slot.eq_of_key_eq_of_plain (b := .digests) (hplain _ htype) (hplain _ hother) hkey
  exact Slot.key_ne slot .digests hkind hkey

include hW in
/-- An entity is written the same with digests and without. -/
theorem put (h : SameButDigests o types m m') (hm : Trusted o W type m)
    (hm' : Trusted { o with hashing := hashing } W type m')
    (he : e.attributes ≠ [] → W e.attributes) :
    SameButDigests o types (putChunk o mode type m [e])
      (putChunk { o with hashing := hashing } mode type m' [e]) := by
  intro key hkey
  by_cases hattributes : key = o.attributesKey type e.id
  · have hsame : m (o.attributesKey type e.id) = m' (o.attributesKey type e.id) :=
      h.slot hplain htype (.attributes e.id)
    subst hattributes
    rw [hm.putChunk_attributes hW he, hsame]
    exact (hm'.putChunk_attributes hW he).symm
  · calc putChunk o mode type m [e] key = m.applyAll (frame o mode type e) key :=
          putChunk_single_other hattributes (hkey type htype) m
      _ = m'.applyAll (frame o mode type e) key := h.applyAll _ key hkey
      _ = putChunk { o with hashing := hashing } mode type m' [e] key :=
          (putChunk_single_other (o := { o with hashing := hashing }) hattributes (hkey type htype) m').symm

include hW in
theorem putEach (h : SameButDigests o types m m') (hm : Trusted o W type m)
    (hm' : Trusted { o with hashing := hashing } W type m')
    (hrelated : ∀ e ∈ es, ∀ related ∈ e.relationships, Plain related)
    (hes : ∀ e ∈ es, e.attributes ≠ [] → W e.attributes) :
    SameButDigests o types (putEach o mode type m es)
      (putEach { o with hashing := hashing } mode type m' es) := by
  induction es generalizing m m' with
  | nil => exact h
  | cons e es ih =>
      rw [List.forall_mem_cons] at hrelated hes
      exact ih (h.put hW hplain htype hm hm' hes.1) (hm.put hrelated.1 hes.1) (hm'.put hrelated.1 hes.1)
        hrelated.2 hes.2

end Plain

include hW in
/-- A request leads cells that are the same but for digests to such cells. -/
theorem respond {r : CacheRequest} (hplain : ∀ type, types type → Plain type) (htype : types r.type)
    (h : SameButDigests o types m m') (hm : Trusted o W r.type m)
    (hm' : Trusted { o with hashing := hashing } W r.type m')
    (hr : Regular r) (hwritten : Written W r) :
    SameButDigests o types (Backend.respond o r m).1
      (Backend.respond { o with hashing := hashing } r m').1 := by
  cases r with
  | write mode type es =>
      by_cases hempty : ∃ e ∈ es, e.id.isEmpty
      · obtain ⟨error, hwrite⟩ := respond_write_of_isEmpty o mode type hempty m
        obtain ⟨error', hwrite'⟩ :=
          respond_write_of_isEmpty { o with hashing := hashing } mode type hempty m'
        rwa [hwrite, hwrite']
      · have hne : ∀ e ∈ es, e.id.isEmpty = false := by simpa using hempty
        rw [respond_write_of_nodup hne hr.2.1, respond_write_of_nodup hne hr.2.1]
        exact h.putEach hW hplain htype hm hm' hr.2.2 hwritten.2
  | evict type ids =>
      have htypes : typesOf o type m = typesOf { o with hashing := hashing } type m' :=
        congrArg (fun c : Cell => c.members.toList) (h.slot hplain htype .relatedTypes)
      rw [respond_evict, respond_evict, ← htypes]
      exact h.applyAll _
  | unlink type ids related targets =>
      rw [respond_unlink, respond_unlink]
      exact h.applyAll _
  | _ => exact hr.elim

include hW in
/-- So do requests in turn. -/
theorem run_inTurn {calls : List CacheRequest} (hplain : ∀ type, types type → Plain type)
    (htypes : ∀ r ∈ calls, types r.type) (h : SameButDigests o types m m')
    (hm : ∀ type, Plain type → Trusted o W type m)
    (hm' : ∀ type, Plain type → Trusted { o with hashing := hashing } W type m')
    (hcalls : ∀ r ∈ calls, Regular r ∧ Written W r) :
    SameButDigests o types ((CachePlan.inTurn calls).run (Backend.respond o) m).1
      ((CachePlan.inTurn calls).run (Backend.respond { o with hashing := hashing }) m').1 := by
  induction calls generalizing m m' with
  | nil => exact h
  | cons r calls ih =>
      rw [List.forall_mem_cons] at htypes hcalls
      obtain ⟨⟨hr, hwritten⟩, hrest⟩ := hcalls
      rw [CachePlan.run_inTurn_cons, CachePlan.run_inTurn_cons]
      refine ih htypes.2 ?_ ?_ ?_ hrest
      · exact h.respond hW hplain htypes.1 (hm _ hr.plain) (hm' _ hr.plain) hr hwritten
      · exact fun type ht => (hm type ht).respond ht hr hwritten
      · exact fun type ht => (hm' type ht).respond ht hr hwritten

end SameButDigests

/-! ## Over two stores -/

theorem written_of_mem {calls : List CacheRequest} {r : CacheRequest} (hr : Regular r) (hmem : r ∈ calls) :
    Written (· ∈ calls.flatMap CacheRequest.written) r := by
  cases r with
  | write mode type es =>
      refine ⟨hr.1, fun e he hne => List.mem_flatMap.2 ⟨_, hmem, ?_⟩⟩
      exact List.mem_filter.2 ⟨List.mem_map_of_mem he, by simpa using hne⟩
  | _ => exact hr.plain

/-- Skipping attributes cannot be seen. Two caches whose settings differ in the hashing only, over stores of
their own in which nothing is at first, leave the same keys, values and times to live after the same
writes, evictions and removals of references, but for the digests of their types, unless digests take
different attributes for the same. -/
theorem skipping_unseen {calls : List CacheRequest} {s s' : Store} (hs : s.IsFresh) (hs' : s'.IsFresh)
    (hcalls : ∀ r ∈ calls, Regular r)
    (hdigests : ∀ a ∈ calls.flatMap CacheRequest.written, ∀ b ∈ calls.flatMap CacheRequest.written,
      Sha256.digest (Blob.content a) = Sha256.digest (Blob.content b) → Blob.content a = Blob.content b)
    (o : Options) (hashing : Bool) :
    ∃ t t' : Store, (Backend.keyValue o).EndsIn (.inTurn calls) s t (.ok ()) ∧
      (Backend.keyValue { o with hashing := hashing }).EndsIn (.inTurn calls) s' t' (.ok ()) ∧
      ∀ key, (∀ r ∈ calls, key ≠ o.digestsKey r.type) → t.cells key = t'.cells key := by
  obtain ⟨t, hends, -, hcells⟩ := Backend.keyValue_endsIn (o := o) hs.healthy (.inTurn calls)
  obtain ⟨t', hends', -, hcells'⟩ :=
    Backend.keyValue_endsIn (o := { o with hashing := hashing }) hs'.healthy (.inTurn calls)
  rw [CachePlan.run_inTurn_result] at hends hends'
  refine ⟨t, t', hends, hends', fun key hkey => ?_⟩
  have hsame : SameButDigests o (fun type => ∃ r ∈ calls, r.type = type) s.cells s'.cells := by
    intro key _
    rw [hs.cells_eq, hs'.cells_eq]
  have hplain : ∀ type, (∃ r ∈ calls, r.type = type) → Plain type := by
    rintro _ ⟨r, hr, rfl⟩
    exact (hcalls r hr).plain
  rw [hcells, hcells']
  refine hsame.run_inTurn (fun a b ha hb => hdigests a ha b hb) hplain (fun r hr => ⟨r, hr, rfl⟩)
    (fun type _ => ?_) (fun type _ => ?_) (fun r hr => ⟨hcalls r hr, written_of_mem (hcalls r hr) hr⟩) key ?_
  · rw [hs.cells_eq]
    exact Trusted.empty o _ type
  · rw [hs'.cells_eq]
    exact Trusted.empty _ _ type
  · rintro _ ⟨r, hr, rfl⟩
    exact hkey r hr

/-- Attributes that are written again, then with a time to live, then without, and others after an
eviction. -/
def againAndAgain : List CacheRequest :=
  [.write .union "t" [{ id := "e", attributes := numbered 1 }],
    .write .union "t" [{ id := "e", attributes := numbered 1 }, { id := "f" }],
    .write .replace "t" [{ id := "e", attributes := numbered 1, ttl := some 60 }],
    .write .union "t" [{ id := "e", attributes := numbered 1 }],
    .evict "t" ["e"], .unlink "t" ["f"] "u" ["x"],
    .write .union "t" [{ id := "e", attributes := numbered 2 }]]

theorem skipping_unseen_again : ∃ t t' : Store,
    (Backend.keyValue {}).EndsIn (.inTurn againAndAgain) (.single { name := "kv" } : Store) t (.ok ()) ∧
    (Backend.keyValue { hashing := false }).EndsIn (.inTurn againAndAgain)
      (.single { name := "other" } : Store) t' (.ok ()) ∧
    ∀ key, key ≠ Options.digestsKey {} "t" → t.cells key = t'.cells key := by
  have ht : Plain "t" := by decide
  have hregular : ∀ r ∈ againAndAgain, Regular r := by
    have hwrite : ∀ mode es, (es.map Entity.id).Nodup → (∀ e ∈ es, e.relationships = ∅) →
        Regular (.write mode "t" es) := fun mode es hids hes =>
      ⟨ht, hids, fun e he related hrelated => by simp [hes e he] at hrelated⟩
    simp only [againAndAgain, List.forall_mem_cons, List.not_mem_nil, false_imp_iff, forall_true_iff, and_true]
    refine ⟨hwrite _ _ ?_ ?_, hwrite _ _ ?_ ?_, hwrite _ _ ?_ ?_, hwrite _ _ ?_ ?_, ht, ⟨ht, by decide⟩,
      hwrite _ _ ?_ ?_⟩ <;> simp
  have hwritten : ∀ a ∈ againAndAgain.flatMap CacheRequest.written, OneOrTwo a := by
    simp [againAndAgain, CacheRequest.written, OneOrTwo, numbered]
  obtain ⟨t, t', hends, hends', hsame⟩ := skipping_unseen (.single "kv") (.single "other") hregular
    (fun a ha b hb hdigest => (faithful_oneOrTwo {}).content a b (hwritten a ha) (hwritten b hb) hdigest)
    {} false
  refine ⟨t, t', hends, hends', fun key hkey => hsame key ?_⟩
  simpa [againAndAgain, CacheRequest.type] using hkey

end KeyValue

end Inventory
