import Inventory.Proofs.KeyValue.Batching
import Inventory.Proofs.KeyValue.Overlapping
import Inventory.Proofs.Merge.Repeating

/-!
# Inventory.Proofs.KeyValue.Concurrent

Two clients that change the cache over one store at the same time.

A call that fits in one batch asks one question at most, so two such calls end as one after the other, but
for what the second was told before the first was carried out. An eviction may then miss related types, and
what it leaves behind is not read by anybody. A write, however, leaves out the attributes whose digest it
was told of, even if they have been replaced or evicted since (`Overtakes`). Unless that happens, whatever
the calls are and however their requests are interleaved, the cache is read as after one of them and then
the other (`serialisable_unless_overtaken`).
-/

namespace Inventory.KeyValue

variable {o : Options} {mode : WriteMode} {type t id : String} {m m₁ : Cells} {es : List Entity}
  {ids targets : List String} {related : String}

/-! ## Calls with one batch -/

/-- A call that changes the cache and fits in one batch. -/
def FitsInBatch (o : Options) : CacheRequest → Prop
  | .write _ _ es => es.length ≤ max o.mergeBatch 1
  | .evict _ ids => ids.length ≤ max o.evictBatch 1
  | .unlink _ ids _ _ => ids.length ≤ max o.mergeBatch 1
  | _ => False

/-- Digests are looked up with one question, if at all. -/
theorem brief_storedDigests {α : Type} (o : Options) (type : String) (chunk : List Entity)
    {f : StringMap Bytes → StorePlan α} (hf : ∀ stored, (f stored).Decided) :
    (storedDigests o type chunk >>= f).Brief ∧
      ∀ m, (storedDigests o type chunk >>= f).batch m = (f (fetched o type m chunk)).batch m := by
  have hfetched : ∀ m, (storedDigests o type chunk).run Cells.respond m =
      (m, .ok (fetched o type m chunk)) := by
    intro m
    rw [← Cells.respondPartly_none]
    exact run_storedDigests o type _ _ m chunk
  unfold storedDigests at hfetched ⊢
  dsimp only at hfetched ⊢
  by_cases hasks : (o.hashing && !((chunk.filter isComparable).map Entity.id).isEmpty) = true
  · rw [if_pos hasks] at hfetched ⊢
    refine ⟨?_, fun m => ?_⟩
    · rintro (_ | digests)
      · trivial
      · exact hf _
    · exact congrArg (fun stored => (f stored).batch m) (Except.ok.inj (congrArg Prod.snd (hfetched m)))
  · rw [if_neg hasks] at hfetched ⊢
    refine ⟨(hf ∅).brief, fun m => ?_⟩
    exact congrArg (fun stored => (f stored).batch m) (Except.ok.inj (congrArg Prod.snd (hfetched m)))

theorem brief_write (hne : ∀ e ∈ es, e.id.isEmpty = false) (hone : es.length ≤ max o.mergeBatch 1) :
    (plan o (.write mode type es)).Brief ∧
      ∀ m, (plan o (.write mode type es)).batch m = chunkBatch o mode type (fetched o type m es) es := by
  have hnone : es.find? (fun e => e.id.isEmpty) = none := by simpa using hne
  have hchunk : ∀ counts, (writeChunk o mode type counts es).Brief ∧
      ∀ m, (writeChunk o mode type counts es).batch m = chunkBatch o mode type (fetched o type m es) es :=
    fun counts => brief_storedDigests o type es fun stored => by rintro (_ | _) <;> trivial
  change (write o mode type es).Brief ∧ ∀ m, (write o mode type es).batch m = _
  unfold write
  rw [hnone]
  dsimp only
  rcases eq_or_ne es [] with rfl | hes
  · have hnothing : ∀ stored, chunkBatch o mode type stored [] = [] := fun stored => by
      simp [chunkBatch, Command.batch, Command.isNoop, chunkTypes]
    rw [batches_nil]
    exact ⟨trivial, fun m => (hnothing _).symm⟩
  · rw [batches_eq_singleton hes hone]
    have hall := (hchunk { items := es.length }).1.bind
      (f := fun counts => Plan.forEach [] counts (writeChunk o mode type)) fun _ => trivial
    have htold := hall.1.bind (f := fun counts => Plan.tell (.merged o.keyspace type counts))
      fun _ => trivial
    exact ⟨htold.1, fun m => (htold.2 m).trans ((hall.2 m).trans ((hchunk _).2 m))⟩

theorem brief_evict (hone : ids.length ≤ max o.evictBatch 1) :
    (plan o (.evict type ids)).Brief ∧
      ∀ m, (plan o (.evict type ids)).batch m = evictAll o type (typesOf o type m) ids := by
  change (evict o type ids).Brief ∧ ∀ m, (evict o type ids).batch m = _
  unfold evict evictAll
  by_cases hempty : ids.isEmpty
  · rw [if_pos hempty, List.isEmpty_iff.1 hempty, batches_nil]
    exact ⟨trivial, fun m => rfl⟩
  · rw [if_neg hempty, batches_eq_singleton (by simpa using hempty) hone]
    refine ⟨?_, fun m => (List.flatMap_singleton _ _).symm⟩
    rintro (_ | types)
    · trivial
    · rintro (_ | _) <;> trivial

theorem brief_unlink (hone : ids.length ≤ max o.mergeBatch 1) :
    (plan o (.unlink type ids related targets)).Brief ∧
      ∀ m, (plan o (.unlink type ids related targets)).batch m = unlinkAll o type ids related targets := by
  change (unlink o type ids related targets).Brief ∧ ∀ m, (unlink o type ids related targets).batch m = _
  unfold unlink
  by_cases hempty : ids.isEmpty || targets.isEmpty
  · rw [if_pos hempty]
    refine ⟨trivial, fun m => ?_⟩
    have hnothing : unlinkAll o type ids related targets = [] := by
      rcases Bool.or_eq_true_iff.1 hempty with hids | htargets
      · simp [unlinkAll, List.isEmpty_iff.1 hids]
      · exact if_pos htargets
    rw [hnothing]
    rfl
  · rw [if_neg hempty]
    simp only [Bool.or_eq_true, not_or, Bool.not_eq_true] at hempty
    rw [unlinkAll_of_not_isEmpty hempty.2, batches_eq_singleton (by simpa using hempty.1) hone]
    refine ⟨?_, fun m => (List.flatMap_singleton _ _).symm⟩
    rintro (_ | _) <;> trivial

/-- A call that fits in one batch asks one question at most. -/
theorem FitsInBatch.brief {q : CacheRequest} (h : FitsInBatch o q) : (plan o q).Brief := by
  cases q with
  | write mode type es =>
      by_cases hempty : ∃ e ∈ es, e.id.isEmpty
      · rw [plan_write_of_isEmpty o mode type hempty]
        trivial
      · exact (brief_write (by simpa using hempty) h).1
  | evict type ids => exact (brief_evict h).1
  | unlink type ids related targets => exact (brief_unlink h).1
  | _ => exact h.elim

/-! ## Digests that are out of date -/

/-- What a write leaves of the attributes of an id in some cells, if it was told of the digests in others. -/
def attributesLeft (o : Options) (type : String) (es : List Entity) (seen m : Cells) (id : String) :
    Except Error Attributes :=
  (versions id es).foldl (fun read e =>
      if compared o type seen id (versions id es) = some (Blob.digest e.attributes) then read
      else Blob.decode (blobOf o e))
    (m (o.attributesKey type id)).attributes

/-- A write that was told of the digests in some cells comes too late for others: it leaves attributes that
it would not leave if it were told again. -/
def TooLate (o : Options) (seen m : Cells) : CacheRequest → Prop
  | .write _ type es => (∀ e ∈ es, e.id.isEmpty = false) ∧
      ∃ id, attributesLeft o type es seen m id ≠ attributesLeft o type es m m id
  | _ => False

theorem attributes_foldl_settle (digest : Option Bytes) (vs : List Entity) (c : Cell) :
    (vs.foldl (settle o digest) c).attributes = vs.foldl (fun read e =>
      if digest = some (Blob.digest e.attributes) then read else Blob.decode (blobOf o e)) c.attributes := by
  induction vs generalizing c with
  | nil => rfl
  | cons e vs ih =>
      have hstep : (settle o digest c e).attributes =
          if digest = some (Blob.digest e.attributes) then c.attributes else Blob.decode (blobOf o e) := by
        unfold settle
        split
        · rw [Cell.attributes, Cell.attributes, Cell.blob?, Cell.blob?, Cell.value_expiring]
        · rfl
      rw [List.foldl_cons, List.foldl_cons, ih, hstep]

/-- The batch of a write leaves attributes that depend on what it was told. -/
theorem attributes_chunkBatch (mode : WriteMode) (type : String) (es : List Entity) (seen m : Cells)
    (id : String) : (m.applyAll (chunkBatch o mode type (fetched o type seen es) es)
      (o.attributesKey type id)).attributes = attributesLeft o type es seen m id := by
  have hversions := sameFor_putAttributes (sameFor_putFrames o type mode m es id)
    (rfl : (fetched o type seen es)[id]? = _) es
  rw [applyAll_chunkBatch, hversions.attributes,
    putAttributes_settle fun e he => (mem_versions.1 he).2, attributes_foldl_settle,
    getElem?_fetched_versions]
  rfl

/-- The batch of a write leaves the same of everything but attributes, whatever it was told. -/
theorem applyAll_chunkBatch_congr {key : String} (hattributes : ∀ id, key ≠ o.attributesKey type id)
    (hdigests : key ≠ o.digestsKey type) (m : Cells) (stored stored' : StringMap Bytes) :
    m.applyAll (chunkBatch o mode type stored es) key =
      m.applyAll (chunkBatch o mode type stored' es) key := by
  rw [applyAll_chunkBatch, applyAll_chunkBatch,
    putAttributes_other (fun e _ => hattributes e.id) hdigests,
    putAttributes_other (fun e _ => hattributes e.id) hdigests]

/-- A write that is not too late leaves what it would leave if it were told again. -/
theorem sameShown_chunkBatch (ht : Plain type) (ht' : Plain t) {seen : Cells}
    (hleft : ∀ id, attributesLeft o type es seen m id = attributesLeft o type es m m id) :
    SameShown o t (m.applyAll (chunkBatch o mode type (fetched o type m es) es))
      (m.applyAll (chunkBatch o mode type (fetched o type seen es) es)) := by
  by_cases htype : type = t
  · subst htype
    constructor
    case members =>
      exact congrArg Cell.members (applyAll_chunkBatch_congr
        (fun id => Slot.key_ne .members (.attributes id)) (Slot.key_ne .members .digests) m _ _)
    case types =>
      exact congrArg Cell.members (applyAll_chunkBatch_congr
        (fun id => Slot.key_ne .relatedTypes (.attributes id)) (Slot.key_ne .relatedTypes .digests) m _ _)
    case attributes =>
      intro id _
      rw [attributes_chunkBatch, attributes_chunkBatch, hleft]
    case related =>
      intro id _ related _
      exact congrArg Cell.members (applyAll_chunkBatch_congr
        (fun id' => Slot.key_ne (.related id related) (.attributes id'))
        (Slot.key_ne (.related id related) .digests) m _ _)
  · refine .of_slots fun slot => applyAll_chunkBatch_congr (fun id hkey => htype ?_)
      (fun hkey => htype ?_) m _ _
    · exact (Slot.eq_of_key_eq_of_plain (b := .attributes id) ht' ht hkey).symm
    · exact (Slot.eq_of_key_eq_of_plain (b := .digests) ht' ht hkey).symm

/-- An eviction that does not know of all related types leaves nothing behind that can be read. -/
theorem sameShown_evictAll (ht : Plain type) (ht' : Plain t) (hindexed : Indexed o type m)
    {types types' : List String} (htypes : ∀ t ∈ types, Plain t) (htypes' : ∀ t ∈ types', Plain t)
    (ids : List String) : SameShown o t (m.applyAll (evictAll o type types ids))
      (m.applyAll (evictAll o type types' ids)) := by
  by_cases htype : type = t
  · subst htype
    constructor
    case members =>
      exact Std.ExtTreeSet.ext_mem fun x =>
        ((evict_members m types' ids).2 x).trans ((evict_members m types ids).2 x).symm
    case types => rw [evict_relatedTypes, evict_relatedTypes]
    case attributes =>
      intro id _
      rw [evict_attributes, evict_attributes]
    case related =>
      intro id hid related hrelated
      have hleft : id ∉ ids := (((evict_members m types ids).2 id).1 hid).2
      rw [evict_relatedTypes] at hrelated
      rw [evict_related (hindexed.types related hrelated) htypes', if_neg fun hc => hleft hc.1,
        evict_related (hindexed.types related hrelated) htypes, if_neg fun hc => hleft hc.1]
  · have hother : ∀ (slot : Slot) (types : List String),
        m.applyAll (evictAll o type types ids) (slot.key o t) = m (slot.key o t) := fun slot types =>
      evict_other (fun _ hkey => htype (Slot.eq_of_key_eq_of_plain ht' ht hkey).symm) m types ids
    exact .of_slots fun slot => (hother slot types').trans (hother slot types).symm

/-! ## Calls that are carried out late -/

variable {p q : CacheRequest} {name : String} {seen : Cells}

/-- Unless it comes too late, a call that was told of what was there before shows what it would show if it
were told again. -/
theorem sameShown_late (hsuits : q.Suits Plain fun _ => True) (hfits : FitsInBatch o q)
    (hseen : (Medium.node o name).InOrder seen) (hm : (Medium.node o name).InOrder m)
    (hlate : ¬ TooLate o seen m q) : (Medium.node o name).Same (m.applyAll ((plan o q).batch m))
      (m.applyAll ((plan o q).batch seen)) := by
  intro t ht
  cases q with
  | write mode type es =>
      by_cases hempty : ∃ e ∈ es, e.id.isEmpty
      · rw [plan_write_of_isEmpty o mode type hempty]
        exact .refl o t _
      · have hne : ∀ e ∈ es, e.id.isEmpty = false := by simpa using hempty
        rw [(brief_write hne hfits).2, (brief_write hne hfits).2]
        refine sameShown_chunkBatch hsuits.1 ht fun id => ?_
        by_contra hleft
        exact hlate ⟨hne, id, hleft⟩
  | evict type ids =>
      rw [(brief_evict hfits).2, (brief_evict hfits).2]
      exact sameShown_evictAll hsuits ht (hm type hsuits).2 (forall_mem_typesOf.2 (hm type hsuits).2.types)
        (forall_mem_typesOf.2 (hseen type hsuits).2.types) ids
  | unlink type ids related targets =>
      rw [(brief_unlink hfits).2, (brief_unlink hfits).2]
      exact .refl o t _
  | _ => exact hfits.elim

/-- The attributes of ids that are not written do not depend on what a write was told. -/
theorem mem_of_attributesLeft_ne (h : attributesLeft o type es seen m id ≠ attributesLeft o type es m m id) :
    id ∈ es.map Entity.id := by
  by_contra hid
  have hnone : versions id es = [] := by
    refine List.filter_eq_nil_iff.2 fun e he hversion => hid (List.mem_map.2 ⟨e, he, ?_⟩)
    simp only [Bool.and_eq_true, decide_eq_true_eq] at hversion
    exact hversion.1
  rw [attributesLeft, attributesLeft, hnone] at h
  exact h rfl

/-- All that is written is there, whatever the write was told. -/
theorem mem_members_chunkBatch (hm : (m (o.membersKey type)).takesMembers) (stored : StringMap Bytes)
    (hid : id ∈ es.map Entity.id) :
    id ∈ members o type (m.applyAll (chunkBatch o mode type stored es)) := by
  have hframes : m.applyAll (chunkBatch o mode type stored es) (o.membersKey type) =
      putFrames o mode type m es (o.membersKey type) := by
    rw [applyAll_chunkBatch]
    exact putAttributes_other (fun e _ => Slot.key_ne .members (.attributes e.id))
      (Slot.key_ne .members .digests) _ stored
  rw [members, hframes]
  exact ((members_putFrames m es hm).2 id).2 (.inr hid)

/-- What comes too late can be told by its answers from what comes in time. -/
theorem not_same_reply_of_tooLate (hsuits : q.Suits Plain fun _ => True) (hfits : FitsInBatch o q)
    (hm : (Medium.node o name).InOrder m) (hlate : TooLate o seen m q) : ∃ r : CacheRequest,
      r.isRead ∧ Plain r.type ∧ readReply o (m.applyAll ((plan o q).batch m)) r ≠
        readReply o (m.applyAll ((plan o q).batch seen)) r := by
  cases q with
  | write mode type es =>
      obtain ⟨hne, id, hleft⟩ := hlate
      have hid := mem_of_attributesLeft_ne hleft
      have hmembers := (hm type hsuits.1).1
      refine ⟨.entities type (some [id]) (some .none), rfl, hsuits.1, fun hsame => hleft ?_⟩
      rw [(brief_write hne hfits).2, (brief_write hne hfits).2] at hsame
      have hattributes := attributes_of_readReply (mem_members_chunkBatch hmembers _ hid)
        (mem_members_chunkBatch hmembers _ hid) hsame
      rw [attributes_chunkBatch, attributes_chunkBatch] at hattributes
      exact hattributes.symm
  | _ => exact hlate.elim

/-- What a write leaves depends on what it was told of the digest, and without digests on nothing. -/
theorem attributesLeft_congr (h : o.hashing →
      (seen (o.digestsKey type)).field? id = (m (o.digestsKey type)).field? id) (es : List Entity) :
    attributesLeft o type es seen m id = attributesLeft o type es m m id := by
  have hcompared : compared o type seen id (versions id es) = compared o type m id (versions id es) := by
    unfold compared
    by_cases hcompares : o.hashing ∧ ∃ e ∈ versions id es, isComparable e
    · rw [if_pos hcompares, if_pos hcompares, h hcompares.1]
    · rw [if_neg hcompares, if_neg hcompares]
  rw [attributesLeft, attributesLeft, hcompared]

/-- Only for ids that have been evicted a write comes too late for an eviction. -/
theorem mem_of_tooLate_evict (ht : Plain t) (hsuits : q.Suits Plain fun _ => True)
    (h : TooLate o m (Backend.respond o (.evict t ids) m).1 q) : ∃ mode es, q = .write mode t es ∧
      (∀ e ∈ es, e.id.isEmpty = false) ∧ ∃ id ∈ ids, id ∈ es.map Entity.id := by
  cases q with
  | write mode type es =>
      obtain ⟨hne, id, hleft⟩ := h
      have hid := mem_of_attributesLeft_ne hleft
      by_cases htype : t = type
      · subst htype
        refine ⟨mode, es, rfl, hne, id, ?_, hid⟩
        by_contra hkept
        refine hleft (attributesLeft_congr (fun _ => Option.ext fun d => ?_) es)
        rw [respond_evict, (evict_digests m _ ids).2 id d]
        exact (and_iff_left hkept).symm
      · refine absurd (attributesLeft_congr (fun _ => ?_) es) hleft
        exact congrArg (Cell.field? · id)
          (Medium.slot_other (q := .evict t ids) hsuits.1 ht htype m .digests).symm
  | _ => exact h.elim

/-! ## Two clients -/

variable {s s' : Store}

/-- A write is told of digests, and then another call is carried out that it comes too late for. -/
def Overtakes (o : Options) (p q : CacheRequest) (s : Store) : Prop :=
  TooLate o s.cells (Backend.respond o p s.cells).1 q

/-- Where no digests are kept, no call overtakes another one. -/
theorem not_overtakes_of_not_hashing (h : o.hashing = false) : ¬ Overtakes o p q s := by
  intro hlate
  cases q with
  | write mode type es =>
      obtain ⟨-, id, hleft⟩ := hlate
      exact hleft (attributesLeft_congr (fun hhashing => by simp [h] at hhashing) es)
  | _ => exact hlate.elim

/-- Two calls are carried out, a request to the store of the one or of the other at a time. -/
def Beside (o : Options) (p q : CacheRequest) (s s' : Store) : Prop :=
  ∃ x y, Plan.Interleaved (Plan.Answered Store.answer) (plan o p) (plan o q) s s' x y

/-- The cache is read as after two calls, one after the other. -/
def ReadAsAfter (o : Options) (p q : CacheRequest) (s s' : Store) : Prop :=
  ∃ t, (Backend.keyValue o).EndsIn (.inTurn [p, q]) s t (.ok ()) ∧ (Medium.node o "").ReadAlike t s'

/-- Two calls one after the other. -/
theorem endsIn_inTurn (hs : s.Healthy) (p q : CacheRequest) : ∃ t : Store,
    (Backend.keyValue o).EndsIn (.inTurn [p, q]) s t (.ok ()) ∧ t.Healthy ∧
      t.cells = (Backend.respond o q (Backend.respond o p s.cells).1).1 := by
  obtain ⟨t, hends, hhealthy, hcells⟩ := Backend.keyValue_endsIn (o := o) hs (.inTurn [p, q])
  rw [CachePlan.run_inTurn_result] at hends
  rw [CachePlan.run_inTurn_cons, CachePlan.run_inTurn_cons] at hcells
  exact ⟨t, hends, hhealthy, hcells⟩

/-- What is read after two calls, one after the other. -/
theorem ReadAsAfter.reply (h : ReadAsAfter o p q s s') (hs : s.Healthy) (hs' : s'.Healthy)
    {r : CacheRequest} (hr : r.isRead) (ht : Plain r.type) :
    readReply o (Backend.respond o q (Backend.respond o p s.cells).1).1 r = readReply o s'.cells r := by
  obtain ⟨t, hends, hread⟩ := h
  obtain ⟨t', hends', hhealthy, hcells⟩ := endsIn_inTurn (o := o) hs p q
  obtain ⟨rfl, -⟩ := hends.unique hends'
  obtain ⟨reply, hreply, hreply'⟩ := hread r hr ht
  rw [← hcells, ← hreply.unique (Backend.replies_read hhealthy hr)]
  exact hreply'.unique (Backend.replies_read hs' hr)

section Serial

variable (hs : (Medium.node o name).Occurs s) (hq : q.Suits Plain fun _ => True)
  (hfits : FitsInBatch o p) (hfits' : FitsInBatch o q)

include hs hq hfits hfits'

/-- A call that does not come too late after another one is read as if it had been made after it. -/
theorem readAsAfter_of_followed (hp : p.Suits Plain fun _ => True) (hs' : s'.Healthy)
    (h : Plan.Followed (plan o p) (plan o q) s.cells s'.cells) (hlate : ¬ Overtakes o p q s) :
    ReadAsAfter o p q s s' := by
  obtain ⟨hhealthy, hm⟩ := hs.inOrder
  have hm₁ : (Medium.node o name).InOrder (Backend.respond o p s.cells).1 := hm.respond hp
  obtain ⟨t, hends, hhealthy', hcells⟩ := endsIn_inTurn (o := o) hhealthy p q
  refine ⟨t, hends, Medium.readAlike_of_same hhealthy' hs' ?_⟩
  obtain ⟨seen, hseen, hcells'⟩ := h
  have hfirst : (Backend.respond o p s.cells).1 = s.cells.applyAll ((plan o p).batch s.cells) :=
    hfits.brief.run_fst s.cells
  have hsecond : (Backend.respond o q (Backend.respond o p s.cells).1).1 =
      (Backend.respond o p s.cells).1.applyAll ((plan o q).batch (Backend.respond o p s.cells).1) :=
    hfits'.brief.run_fst _
  change (Medium.node o name).Same t.cells s'.cells
  rw [← hfirst] at hseen hcells'
  rw [hcells, hcells', hsecond]
  rcases hseen with rfl | rfl
  · exact sameShown_late hq hfits' hm hm₁ hlate
  · exact Medium.Same.refl _ _

/-- What comes too late is not read as if it had been made in time, nor, after an eviction, before it. -/
theorem not_readAsAfter_of_overtakes (hp : p.Suits Plain fun _ => True) (hs' : s'.Healthy)
    (hcells : s'.cells = (Backend.respond o p s.cells).1.applyAll ((plan o q).batch s.cells))
    (hlate : Overtakes o p q s) : ¬ ReadAsAfter o p q s s' ∧
      ∀ type ids, p = .evict type ids → ¬ ReadAsAfter o q p s s' := by
  obtain ⟨hhealthy, hm⟩ := hs.inOrder
  have hm₁ : (Medium.node o name).InOrder (Backend.respond o p s.cells).1 := hm.respond hp
  have hsecond : ∀ m, (Backend.respond o q m).1 = m.applyAll ((plan o q).batch m) := hfits'.brief.run_fst
  refine ⟨fun hafter => ?_, ?_⟩
  · obtain ⟨r, hr, ht, hne⟩ := not_same_reply_of_tooLate hq hfits' hm₁ hlate
    refine hne ?_
    rw [← hsecond, ← hcells]
    exact hafter.reply hhealthy hs' hr ht
  · rintro type ids rfl hafter
    obtain ⟨mode, es, rfl, hne, id, hevicted, hwritten⟩ := mem_of_tooLate_evict hp hq hlate
    have hthere : id ∈ members o type s'.cells := by
      rw [hcells, (brief_write hne hfits').2]
      exact mem_members_chunkBatch (hm₁ type hp).1 _ hwritten
    have hsame := hafter.reply hhealthy hs' (r := .identifiers type) rfl hp
    rw [respond_evict] at hsame
    have hgone : id ∈ members o type (((Backend.respond o (.write mode type es) s.cells).1).applyAll
        (evictAll o type (typesOf o type (Backend.respond o (.write mode type es) s.cells).1) ids)) :=
      Except.ok.inj hsame ▸ hthere
    exact ((evict_members _ _ ids).2 id).1 hgone |>.2 hevicted

end Serial

/-- In every state that a cache over one store can be in, two calls that fit in one batch are read as after
one of them and then the other, however their requests to the store are interleaved, unless one may
overtake the other. If the first overtakes the second, then their requests can be interleaved so that the
cache is not read as after the first and then the second; and if the first is an eviction, neither as after
the second and then the first. -/
theorem serialisable_unless_overtaken (hs : (Medium.node o name).Occurs s)
    (hp : p.Suits Plain fun _ => True) (hq : q.Suits Plain fun _ => True) (hfits : FitsInBatch o p)
    (hfits' : FitsInBatch o q) :
    (¬ Overtakes o p q s → ¬ Overtakes o q p s → ∀ s', Beside o p q s s' →
      ReadAsAfter o p q s s' ∨ ReadAsAfter o q p s s') ∧
    ∃ s', Beside o p q s s' ∧ (ReadAsAfter o p q s s' ↔ ¬ Overtakes o p q s) ∧
      (Overtakes o p q s → ∀ type ids, p = .evict type ids → ¬ ReadAsAfter o q p s s') := by
  have hhealthy : s.Healthy := hs.inOrder.1
  refine ⟨fun hpq hqp s' hbeside => ?_, ?_⟩
  · obtain ⟨x, y, hinterleaved⟩ := hbeside
    obtain ⟨hs', hends⟩ := hinterleaved.eitherOrder hfits.brief hfits'.brief hhealthy
    exact hends.imp (fun h => readAsAfter_of_followed hs hq hfits hfits' hp hs' h hpq)
      fun h => readAsAfter_of_followed hs hp hfits' hfits hq hs' h hqp
  · obtain ⟨s', x, y, hinterleaved, hs', hcells⟩ :=
      Plan.exists_interleaved_overtaken hfits.brief hfits'.brief hhealthy
    have hfirst : (Backend.respond o p s.cells).1 = s.cells.applyAll ((plan o p).batch s.cells) :=
      hfits.brief.run_fst s.cells
    have hovertaken := not_readAsAfter_of_overtakes hs hq hfits hfits' hp hs' (hfirst ▸ hcells)
    refine ⟨s', ⟨x, y, hinterleaved⟩, ⟨fun h hlate => (hovertaken hlate).1 h, fun hlate => ?_⟩,
      fun hlate => (hovertaken hlate).2⟩
    exact readAsAfter_of_followed hs hq hfits hfits' hp hs' ⟨s.cells, .inl rfl, hcells⟩ hlate

/-! ## An example -/

/-- What a write leaves of the attributes of its only entity. -/
theorem attributesLeft_singleton (hhashing : o.hashing) {e : Entity} (he : isComparable e) (seen m : Cells) :
    attributesLeft o type [e] seen m e.id =
      if (seen (o.digestsKey type)).field? e.id = some (Blob.digest e.attributes) then
        (m (o.attributesKey type e.id)).attributes
      else Blob.decode (blobOf o e) := by
  have hne : e.attributes ≠ [] := by simpa using (isComparable_iff.1 he).1
  have hversions : versions e.id [e] = [e] := versions_of_forall (List.forall_mem_singleton.2 ⟨rfl, hne⟩)
  rw [attributesLeft, hversions, compared, if_pos ⟨hhashing, e, List.mem_singleton_self e, he⟩]
  rfl

/-- A call that evicts an entity. -/
def evictA : CacheRequest := .evict "t" ["a"]

/-- A call that writes a version of the entity. -/
def writeA (n : Int) : CacheRequest := .write .union "t" [numberedEntity n]

theorem suits_evictA : evictA.Suits Plain fun _ => True := (by decide : Plain "t")

theorem suits_writeA (n : Int) : (writeA n).Suits Plain fun _ => True :=
  ⟨by decide, List.forall_mem_singleton.2 ⟨fun _ => trivial, fun t ht => by simp [numberedEntity] at ht⟩⟩

theorem fits_evictA : FitsInBatch {} evictA := Nat.le_max_right _ 1

theorem fits_writeA (n : Int) : FitsInBatch {} (writeA n) := Nat.le_max_right _ 1

theorem attributesLeft_writeA (n : Int) (seen m : Cells) :
    attributesLeft {} "t" [numberedEntity n] seen m "a" =
      if (seen (Options.digestsKey {} "t")).field? "a" = some (Blob.digest (numbered n)) then
        (m (Options.attributesKey {} "t" "a")).attributes
      else Blob.decode (blobOf {} (numberedEntity n)) :=
  attributesLeft_singleton (e := numberedEntity n) rfl rfl seen m

/-- After the eviction there are neither attributes nor a digest. -/
theorem respond_evictA (m : Cells) :
    ((Backend.respond {} evictA m).1 (Options.digestsKey {} "t")).field? "a" = none ∧
      ((Backend.respond {} evictA m).1 (Options.attributesKey {} "t" "a")).attributes = .ok [] := by
  have hrespond : (Backend.respond {} evictA m).1 =
      m.applyAll (evictAll {} "t" (typesOf {} "t" m) ["a"]) := congrArg Prod.fst (respond_evict m ["a"])
  rw [hrespond, evict_attributes, if_pos (List.mem_singleton_self "a")]
  refine ⟨Option.eq_none_iff_forall_ne_some.2 fun d hd => ?_, rfl⟩
  exact (((evict_digests m _ ["a"]).2 "a" d).1 hd).2 (List.mem_singleton_self "a")

/-- The first version may be there, with its digest. -/
theorem exists_first : ∃ s : Store, (Medium.node {} "kv").Occurs s ∧
    (s.cells (Options.digestsKey {} "t")).field? "a" = some (Blob.digest (numbered 1)) := by
  obtain ⟨s, hends, -, hdigest, -⟩ := endsIn_write_first (o := {}) (W := OneOrTwo) rfl "t"
    (by decide : "a".isEmpty = false) (.inl rfl : OneOrTwo (numbered 1)) (by decide)
  exact ⟨s, ⟨_, .single "kv", _, _, Plan.asks_perform (suits_writeA 1), hends⟩, hdigest⟩

/-- A client writes the second version where the first one is there, and another client evicts the
entity. -/
theorem eviction_beside_second_version : ∃ s : Store, (Medium.node {} "kv").Occurs s ∧
    (evictA.Suits Plain fun _ => True) ∧ ((writeA 2).Suits Plain fun _ => True) ∧
    FitsInBatch {} evictA ∧ FitsInBatch {} (writeA 2) ∧
    ¬ Overtakes {} evictA (writeA 2) s ∧ ¬ Overtakes {} (writeA 2) evictA s ∧
    ∀ s', Beside {} evictA (writeA 2) s s' →
      ReadAsAfter {} evictA (writeA 2) s s' ∨ ReadAsAfter {} (writeA 2) evictA s s' := by
  obtain ⟨s, hs, hdigest⟩ := exists_first
  have hpq : ¬ Overtakes {} evictA (writeA 2) s := by
    rintro ⟨-, id, hleft⟩
    obtain rfl : id = "a" := by simpa [numberedEntity] using mem_of_attributesLeft_ne hleft
    have hdiffers : some (Blob.digest (numbered 1)) ≠ some (Blob.digest (numbered 2)) := fun h =>
      digest_one_ne_two (Option.some.inj h)
    rw [attributesLeft_writeA, attributesLeft_writeA, hdigest, (respond_evictA _).1, if_neg hdiffers] at hleft
    exact hleft rfl
  have hqp : ¬ Overtakes {} (writeA 2) evictA s := id
  exact ⟨s, hs, suits_evictA, suits_writeA 2, fits_evictA, fits_writeA 2, hpq, hqp,
    (serialisable_unless_overtaken hs suits_evictA (suits_writeA 2) fits_evictA (fits_writeA 2)).1 hpq hqp⟩

/-- A client writes the first version again, and another client evicts the entity. It may be left without
attributes, though one call after the other it has them or is not there. -/
theorem rewritten_entity_loses_attributes : ∃ s s' : Store, (Medium.node {} "kv").Occurs s ∧
    Beside {} evictA (writeA 1) s s' ∧
    (Backend.keyValue {}).Replies s' (.entities "t" (some ["a"]) (some .none)) (.ok [{ id := "a" }]) ∧
    ¬ ReadAsAfter {} evictA (writeA 1) s s' ∧ ¬ ReadAsAfter {} (writeA 1) evictA s s' := by
  obtain ⟨s, hs, hdigest⟩ := exists_first
  obtain ⟨hhealthy, hm⟩ := hs.inOrder
  obtain ⟨s', x, y, hinterleaved, hs', hcells⟩ :=
    Plan.exists_interleaved_overtaken fits_evictA.brief (fits_writeA 1).brief hhealthy
  have hfirst : (Backend.respond {} evictA s.cells).1 =
      s.cells.applyAll ((plan {} evictA).batch s.cells) := fits_evictA.brief.run_fst s.cells
  rw [← hfirst] at hcells
  -- The digest that the write was told of is gone, and so are the attributes.
  have hleft : ∀ m, attributesLeft {} "t" [numberedEntity 1] s.cells m "a" =
      (m (Options.attributesKey {} "t" "a")).attributes := fun m => by
    rw [attributesLeft_writeA, hdigest, if_pos rfl]
  have hdecode : Blob.decode (blobOf {} (numberedEntity 1)) = .ok (numbered 1) :=
    (faithful_oneOrTwo {}).decode _ (.inl rfl)
  have hlate : Overtakes {} evictA (writeA 1) s := by
    refine ⟨List.forall_mem_singleton.2 (by decide), "a", ?_⟩
    rw [hleft, attributesLeft_writeA, (respond_evictA _).1, (respond_evictA _).2,
      if_neg (Option.some_ne_none _).symm, hdecode]
    exact fun h => absurd (Except.ok.inj h) (by decide)
  obtain ⟨hpq, hqp⟩ := not_readAsAfter_of_overtakes hs (suits_writeA 1) fits_evictA (fits_writeA 1)
    suits_evictA hs' hcells hlate
  refine ⟨s, s', hs, ⟨x, y, hinterleaved⟩, ?_, hpq, hqp "t" ["a"] rfl⟩
  have hbatch : (plan {} (writeA 1)).batch s.cells = chunkBatch {} .union "t"
      (fetched {} "t" s.cells [numberedEntity 1]) [numberedEntity 1] :=
    (brief_write (List.forall_mem_singleton.2 (by decide)) (fits_writeA 1)).2 s.cells
  have hreply := Backend.replies_read (o := {}) hs' (r := .entities "t" (some ["a"]) (some .none)) rfl
  rw [hcells, hbatch, readReply_entity, attributes_chunkBatch, hleft, (respond_evictA _).2] at hreply
  · exact hreply
  · exact mem_members_chunkBatch (hm.respond suits_evictA "t" suits_evictA).1 _
      (List.mem_singleton_self _)

end Inventory.KeyValue
