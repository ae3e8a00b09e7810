import Inventory.Merge.Engine
import Inventory.Proofs.KeyValue.Listed
import Inventory.Proofs.Plan.Terms
import Inventory.Proofs.Store.Sharding

/-!
# Inventory.Proofs.KeyValue.Footprint

Which keys of a store a request to the cache reads and changes.

Names are joined by colons to make a key, so keys can be told apart as long as no type and no
relationship has a colon in its name (`Slot.key_eq_key_iff_of_plain`); the ids may have as many as they
like. Under that condition a request reads and changes the keys that it has to and no others, whatever the
store answers (`keepsTo_footprint`). So what it does depends on these keys alone, and it leaves the keys
of other entities, relationships and types as they are (`requests_keep_apart`).
-/

namespace Inventory

/-! ## Keys of requests to a store -/

/-- The keys that a question is about. -/
def Query.keys : Query → List String
  | blobs keys | sets keys => keys
  | hashFields key _ | scan key _ | contains key _ => [key]

/-- The keys that a request to a store is about. -/
def StoreRequest.keys : StoreRequest → List String
  | read q => q.keys
  | write batch => batch.map Command.key

namespace Cells

variable {r : StoreRequest} {m m' : Cells} {key : String}

theorem lookup_congr {q : Query} (h : ∀ key ∈ q.keys, m key = m' key) : m.lookup q = m'.lookup q := by
  cases q with
  | blobs keys => exact congrArg Except.ok (List.map_congr_left fun key hkey => by rw [h key hkey])
  | sets keys => exact congrArg Except.ok (List.map_congr_left fun key hkey => by rw [h key hkey])
  | hashFields key fields => rw [lookup, lookup, h key List.mem_cons_self]
  | scan key glob =>
      have hkey := h key List.mem_cons_self
      cases glob <;> rw [lookup, lookup, hkey]
  | contains key texts => rw [lookup, lookup, h key List.mem_cons_self]

/-- The answer to a request depends on its keys only. -/
theorem respond_reply_congr (h : ∀ key ∈ r.keys, m key = m' key) :
    (respond r m).2 = (respond r m').2 := by
  cases r with
  | read q => exact lookup_congr h
  | write batch => rfl

/-- What a request makes of a key depends on what is there. -/
theorem respond_key_congr (r : StoreRequest) (h : m key = m' key) :
    (respond r m).1 key = (respond r m').1 key := by
  cases r with
  | read q => exact h
  | write batch =>
      change m.applyAll batch key = m'.applyAll batch key
      rw [applyAll_eq_foldl, applyAll_eq_foldl, h]

/-- A request leaves all but its keys as they are. -/
theorem respond_key_other (h : key ∉ r.keys) : (respond r m).1 key = m key := by
  cases r with
  | read q => rfl
  | write batch =>
      exact applyAll_of_forall_ne fun c hc hkey => h (List.mem_map.2 ⟨c, hc, hkey⟩)

end Cells

/-! ## Slots -/

namespace KeyValue.Slot

/-- The relationship that a slot is for, if any, has no colon in its name. -/
def Plainly : Slot → Prop
  | related _ relationship => Plain relationship
  | _ => True

instance (slot : Slot) : Decidable slot.Plainly := by
  cases slot <;> unfold Plainly <;> infer_instance

variable {o : Options} {type type' : String} {a b : Slot}

/-- Two slots of one type share a key only if both are for related ids, and an id and a relationship are
spelt alike when they are joined. -/
theorem key_eq_key_iff : a.key o type = b.key o type ↔ a = b ∨ ∃ id relationship id' relationship',
    a = related id relationship ∧ b = related id' relationship' ∧
      id ++ ":" ++ relationship = id' ++ ":" ++ relationship' := by
  constructor
  · intro h
    by_cases ha : ∀ id relationship, a ≠ related id relationship
    · exact .inl (eq_of_key_eq ha h)
    · simp only [not_forall, not_not] at ha
      obtain ⟨id, relationship, rfl⟩ := ha
      by_cases hb : ∀ id relationship, b ≠ related id relationship
      · exact .inl (eq_of_key_eq hb h.symm).symm
      · simp only [not_forall, not_not] at hb
        obtain ⟨id', relationship', rfl⟩ := hb
        refine .inr ⟨id, relationship, id', relationship', rfl, rfl, ?_⟩
        rw [key_eq_iff, ← String.toList_inj] at h
        rw [← String.toList_inj]
        simpa using h
  · rintro (rfl | ⟨id, relationship, id', relationship', rfl, rfl, h⟩)
    · rfl
    · rw [key_eq_iff, ← String.toList_inj]
      rw [← String.toList_inj] at h
      simpa using h

/-- Without colons in the names of types and relationships every slot has a key of its own. -/
theorem key_eq_key_iff_of_plain (ht : Plain type) (ht' : Plain type') (ha : a.Plainly) (hb : b.Plainly) :
    a.key o type = b.key o type' ↔ type = type' ∧ a = b := by
  constructor
  · intro h
    obtain rfl := eq_of_key_eq_of_plain ht ht' h
    refine ⟨rfl, ?_⟩
    rcases key_eq_key_iff.1 h with hsame | ⟨id, relationship, id', relationship', rfl, rfl, -⟩
    · exact hsame
    · obtain ⟨rfl, rfl⟩ := eq_of_related_key_eq o type ha hb h
      rfl
  · rintro ⟨rfl, rfl⟩
    rfl

end KeyValue.Slot

/-! ## Footprints -/

open KeyValue

namespace CacheRequest

/-- What is looked at to carry out a request, of what is kept of its type. -/
def Reads : CacheRequest → Slot → Prop
  | entities .., .members | entities .., .relatedTypes => True
  | entities _ ids _, .attributes id => ids.all (·.contains id)
  | entities _ ids filter, .related id relationship =>
    ids.all (·.contains id) ∧ ∀ f ∈ filter, f.MayKeep relationship
  | identifiers _, .members | matching .., .members | existing .., .members => True
  | write .., .digests | evict .., .relatedTypes => True
  | _, _ => False

/-- What is changed to carry out a request, of what is kept of its type. -/
def Changes : CacheRequest → Slot → Prop
  | write .., .members | write .., .relatedTypes | write .., .digests => True
  | write _ _ es, .attributes id => ∃ e ∈ es, e.id = id
  | write _ _ es, .related id relationship => ∃ e ∈ es, e.id = id ∧ relationship ∈ e.relationships
  | evict .., .members | evict .., .digests => True
  | evict _ ids, .attributes id | evict _ ids, .related id _ => id ∈ ids
  | unlink _ ids relationship _, .related id relationship' => id ∈ ids ∧ relationship' = relationship
  | _, _ => False

/-- The set of related types is not changed by a request that looks at it. -/
theorem not_changes_of_reads {r : CacheRequest} (h : r.Reads .relatedTypes) :
    ¬ r.Changes .relatedTypes := by
  cases r <;> simp [Reads, Changes] at h ⊢

end CacheRequest

namespace KeyValue

variable (o : Options) (r : CacheRequest)

/-- A key that is looked at to carry out a request. -/
def Readable (key : String) : Prop :=
  ∃ slot : Slot, slot.Plainly ∧ r.Reads slot ∧ key = slot.key o r.type

/-- A key that is changed to carry out a request. -/
def Changeable (key : String) : Prop :=
  ∃ slot : Slot, slot.Plainly ∧ r.Changes slot ∧ key = slot.key o r.type

/-- A request to the cache keeps to its keys if it does not hear of related types with a colon. -/
def footprint : Plan.Terms StoreRequest StoreRequest.Reply where
  asks
    | .read q => ∀ key ∈ q.keys, Readable o r key
    | .write batch => ∀ c ∈ batch, Changeable o r c.key
  hears
    | .read (.scan key _), .ok found =>
      key = o.relatedTypesKey r.type → ∀ related ∈ found, Plain related
    | _, _ => True
  blur _ reply := reply

variable {o r}

theorem keepsTo_inquire {q : Query} (h : ∀ key ∈ q.keys, Readable o r key) :
    (inquire q).KeepsTo (footprint o r) fun _ => True :=
  Plan.keepsTo_perform h fun _ _ => rfl

theorem keepsTo_commit {batch : List Command} (h : ∀ c ∈ batch, Changeable o r c.key) :
    (commit batch).KeepsTo (footprint o r) fun _ => True :=
  Plan.keepsTo_perform h fun _ _ => rfl

theorem keepsTo_relatedTypes (h : r.Reads .relatedTypes) :
    (inquire (.scan (o.relatedTypesKey r.type) none)).KeepsTo (footprint o r)
      fun found => ∀ related ∈ found, Plain related := by
  have hkey : Readable o r (o.relatedTypesKey r.type) := ⟨.relatedTypes, trivial, h, rfl⟩
  refine ⟨fun key hmem => List.mem_singleton.1 hmem ▸ hkey, fun reply hhears => ⟨rfl, ?_⟩⟩
  cases reply with
  | ok found => exact hhears rfl
  | error e => trivial

theorem keepsTo_tell (a : Activity) : (Plan.tell a : StorePlan Unit).KeepsTo (footprint o r) fun _ => True :=
  trivial

/-! ### Reads -/

section Reads

variable {ids : List String}

theorem keepsTo_members (h : r.Reads .members) :
    (identifiers o r.type).KeepsTo (footprint o r) fun _ => True :=
  keepsTo_inquire fun _ hkey => List.mem_singleton.1 hkey ▸ ⟨.members, trivial, h, rfl⟩

theorem keepsTo_existing (h : r.Reads .members) :
    (existing o r.type ids).KeepsTo (footprint o r) fun _ => True := by
  refine Plan.keepsTo_forEach (fun found chunk _ _ => ?_) trivial
  refine Plan.keepsTo_bind (keepsTo_inquire fun key hkey => ?_) fun _ _ => trivial
  exact ⟨.members, trivial, h, List.mem_singleton.1 hkey⟩

theorem keepsTo_matching {type glob : String} : (matching o type glob).KeepsTo
    (footprint o (.matching type glob)) fun _ => True := by
  unfold matching
  cases Glob.compile glob with
  | error e => trivial
  | ok pattern =>
      refine Plan.keepsTo_bind (keepsTo_inquire fun key hkey => ?_) fun _ _ => trivial
      exact ⟨.members, trivial, trivial, List.mem_singleton.1 hkey⟩

theorem keepsTo_readSets {keys : List String} (h : ∀ key ∈ keys, Readable o r key) :
    (readSets o keys).KeepsTo (footprint o r) fun _ => True := by
  refine Plan.keepsTo_forEach (fun state chunk hchunk _ => ?_) trivial
  refine Plan.keepsTo_bind (keepsTo_inquire fun key hkey => h key ?_) fun _ _ => trivial
  rw [← flatten_batches o.getBatch keys]
  exact List.mem_flatten_of_mem hchunk hkey

variable {type : String} {asked : Option (List String)} {filter : Option NameFilter}

theorem keepsTo_readChunk {types chunk : List String} (hchunk : ∀ id ∈ chunk, asked.all (·.contains id))
    (htypes : ∀ related ∈ types, Plain related ∧ ∀ f ∈ filter, f.MayKeep related)
    (state : List Entity × GetCounts) : (readChunk o type types state chunk).KeepsTo
      (footprint o (.entities type asked filter)) fun _ => True := by
  unfold readChunk
  refine Plan.keepsTo_bind (keepsTo_inquire fun key hkey => ?_) fun blobs _ => ?_
  · obtain ⟨id, hid, rfl⟩ := List.mem_map.1 hkey
    exact ⟨.attributes id, trivial, hchunk id hid, rfl⟩
  · refine Plan.keepsTo_bind (keepsTo_readSets fun key hkey => ?_) fun sets _ => ?_
    · obtain ⟨id, hid, hkey⟩ := List.mem_flatMap.1 hkey
      obtain ⟨related, hrelated, rfl⟩ := List.mem_map.1 hkey
      obtain ⟨hplain, hkeeps⟩ := htypes related hrelated
      exact ⟨.related id related, hplain, ⟨hchunk id hid, hkeeps⟩, rfl⟩
    · obtain ⟨found, requests⟩ := sets
      dsimp only
      cases assemble types chunk blobs found <;> trivial

theorem keepsTo_locate (o : Options) (type : String) (asked : Option (List String))
    (filter : Option NameFilter) :
    (locate o type asked).KeepsTo (footprint o (.entities type asked filter))
      fun found => ∀ id ∈ found.2, asked.all (·.contains id) := by
  cases asked with
  | none =>
      refine Plan.keepsTo_bind (keepsTo_members (r := .entities type none filter) trivial) fun all _ => ?_
      exact fun id _ => rfl
  | some ids =>
      refine Plan.keepsTo_bind (keepsTo_existing (r := .entities type (some ids) filter) trivial)
        fun there _ id hid => ?_
      simpa using mem_firstOccurrences.1 (List.mem_filter.1 hid).1

theorem keepsTo_hydrate {ids : List String} (hids : ∀ id ∈ ids, asked.all (·.contains id)) :
    (hydrate o type ids filter).KeepsTo (footprint o (.entities type asked filter)) fun _ => True := by
  refine Plan.keepsTo_bind (keepsTo_relatedTypes (r := .entities type asked filter) trivial)
    fun all hall => ?_
  refine Plan.keepsTo_forEach (fun state chunk hchunk _ => ?_) trivial
  refine keepsTo_readChunk (fun id hid => hids id ?_) (fun related hrelated => ?_) state
  · rw [← flatten_batches o.getBatch ids]
    exact List.mem_flatten_of_mem hchunk hid
  · have hmem := Std.ExtTreeSet.mem_toList.1 (NameFilter.mem_of_mem_select hrelated)
    exact ⟨hall related hmem, NameFilter.mayKeep_of_mem_select hrelated⟩

theorem keepsTo_entities (o : Options) (type : String) (asked : Option (List String))
    (filter : Option NameFilter) : (entities o type asked filter).KeepsTo
      (footprint o (.entities type asked filter)) fun _ => True := by
  unfold entities
  refine Plan.keepsTo_bind (keepsTo_locate o type asked filter) fun found hfound => ?_
  obtain ⟨requested, present⟩ := found
  dsimp only at hfound ⊢
  split
  · trivial
  · exact Plan.keepsTo_bind (keepsTo_hydrate hfound) fun _ _ => trivial

end Reads

/-! ### Changes -/

theorem keepsTo_writeChunk {mode : WriteMode} {type : String} {es chunk : List Entity}
    (hplain : ∀ e ∈ es, ∀ related ∈ e.relationships, Plain related) (hchunk : ∀ e ∈ chunk, e ∈ es)
    (counts : MergeCounts) : (writeChunk o mode type counts chunk).KeepsTo
      (footprint o (.write mode type es)) fun _ => True := by
  unfold writeChunk
  refine Plan.keepsTo_bind (?_ : Plan.KeepsTo _ (fun _ => True) _) fun stored _ => ?_
  · unfold storedDigests
    dsimp only
    split
    · refine Plan.keepsTo_bind (keepsTo_inquire fun key hkey => ?_) fun _ _ => trivial
      exact ⟨.digests, trivial, trivial, List.mem_singleton.1 hkey⟩
    · trivial
  · refine Plan.keepsTo_bind (keepsTo_commit fun c hc => ?_) fun _ _ => trivial
    have hmem := (List.mem_filter.1 hc).1
    rcases List.mem_append.1 hmem with hmem | hmem
    · rcases List.mem_cons.1 hmem with rfl | hmem
      · exact ⟨.members, trivial, trivial, rfl⟩
      · obtain ⟨e, he, hmem⟩ := List.mem_flatMap.1 hmem
        rcases List.mem_append.1 hmem with hmem | hmem
        · rcases key_of_mem_attributeCommands hmem with hkey | hkey
          · exact ⟨.attributes e.id, trivial, ⟨e, hchunk e he, rfl⟩, hkey⟩
          · exact ⟨.digests, trivial, trivial, hkey⟩
        · obtain ⟨related, hrelated, hkey⟩ := key_of_mem_relationshipCommands hmem
          exact ⟨.related e.id related, hplain e (hchunk e he) related hrelated,
            ⟨e, hchunk e he, rfl, hrelated⟩, hkey⟩
    · rw [List.mem_singleton.1 hmem]
      exact ⟨.relatedTypes, trivial, trivial, rfl⟩

theorem keepsTo_write {mode : WriteMode} {type : String} {es : List Entity}
    (hplain : ∀ e ∈ es, ∀ related ∈ e.relationships, Plain related) :
    (write o mode type es).KeepsTo (footprint o (.write mode type es)) fun _ => True := by
  unfold write
  split
  · trivial
  · refine Plan.keepsTo_bind (?_ : Plan.KeepsTo _ (fun _ => True) _) fun _ _ => keepsTo_tell _
    refine Plan.keepsTo_forEach (fun counts chunk hchunk _ => ?_) trivial
    refine keepsTo_writeChunk hplain (fun e he => ?_) counts
    rw [← flatten_batches o.mergeBatch es]
    exact List.mem_flatten_of_mem hchunk he

theorem keepsTo_evict (o : Options) (type : String) (ids : List String) :
    (evict o type ids).KeepsTo (footprint o (.evict type ids)) fun _ => True := by
  unfold evict
  split
  · trivial
  · refine Plan.keepsTo_bind (keepsTo_relatedTypes (r := .evict type ids) trivial) fun found hfound => ?_
    refine Plan.keepsTo_bind (?_ : Plan.KeepsTo _ (fun _ => True) _) fun _ _ => keepsTo_tell _
    refine Plan.keepsTo_forEach (fun counts chunk hchunk _ => ?_) trivial
    refine Plan.keepsTo_bind (keepsTo_commit fun c hc => ?_) fun _ _ => trivial
    have hall : c ∈ evictAll o type found.toList ids := List.mem_flatMap.2 ⟨chunk, hchunk, hc⟩
    rcases shape_of_mem_evictAll hall with
      ⟨_, -, rfl⟩ | ⟨_, -, rfl⟩ | ⟨id, hid, rfl | ⟨related, hrelated, rfl⟩⟩
    · exact ⟨.members, trivial, trivial, rfl⟩
    · exact ⟨.digests, trivial, trivial, rfl⟩
    · exact ⟨.attributes id, trivial, hid, rfl⟩
    · exact ⟨.related id related, hfound related (Std.ExtTreeSet.mem_toList.1 hrelated), hid, rfl⟩

theorem keepsTo_unlink (o : Options) {type relationship : String} (hplain : Plain relationship)
    (ids targets : List String) : (unlink o type ids relationship targets).KeepsTo
      (footprint o (.unlink type ids relationship targets)) fun _ => True := by
  unfold unlink
  split
  · trivial
  · refine Plan.keepsTo_forEach (fun _ chunk hchunk _ => keepsTo_commit fun c hc => ?_) trivial
    obtain ⟨id, hid, rfl⟩ := List.mem_map.1 hc
    refine ⟨.related id relationship, hplain, ⟨?_, rfl⟩, rfl⟩
    rw [← flatten_batches o.mergeBatch ids]
    exact List.mem_flatten_of_mem hchunk hid

variable {stores : Attributes → Prop}

/-- Whatever a store answers, as long as it names no related type with a colon, a request reads and changes
its own keys only. -/
theorem keepsTo_footprint (h : r.Suits Plain stores) :
    (plan o r).KeepsTo (footprint o r) fun _ => True := by
  cases r with
  | entities type ids filter => exact keepsTo_entities o type ids filter
  | identifiers type => exact keepsTo_members (r := .identifiers type) trivial
  | matching type glob => exact keepsTo_matching
  | existing type ids => exact keepsTo_existing (r := .existing type ids) trivial
  | write mode type es => exact keepsTo_write fun e he => (h.2 e he).related
  | evict type ids => exact keepsTo_evict o type ids
  | unlink type ids relationship targets => exact keepsTo_unlink o h.2 ids targets

/-! ## What a request depends on and what it leaves -/

variable {m m' m₀ : Cells}

/-- Cells that agree on the keys of a request, of which the first have only changed there since some time,
and where no related type that the request looks at has a colon. -/
structure AgreesSince (o : Options) (r : CacheRequest) (m₀ m m' : Cells) : Prop where
  same : ∀ key, Readable o r key ∨ Changeable o r key → m key = m' key
  kept : ∀ key, ¬ Changeable o r key → m key = m₀ key
  plain : r.Reads .relatedTypes → ∀ related ∈ (m (o.relatedTypesKey r.type)).members, Plain related

/-- The set of related types is looked at by requests about it only. -/
theorem reads_relatedTypes (h : Readable o r (o.relatedTypesKey r.type)) : r.Reads .relatedTypes := by
  obtain ⟨slot, -, hreads, hkey⟩ := h
  exact Slot.eq_of_key_eq (a := .relatedTypes) (fun _ _ => Slot.noConfusion) hkey ▸ hreads

theorem not_changeable_relatedTypes (h : r.Reads .relatedTypes) :
    ¬ Changeable o r (o.relatedTypesKey r.type) := by
  rintro ⟨slot, -, hchanges, hkey⟩
  have hslot := Slot.eq_of_key_eq (a := .relatedTypes) (fun _ _ => Slot.noConfusion) hkey
  exact CacheRequest.not_changes_of_reads h (hslot ▸ hchanges)

theorem AgreesSince.hears (h : AgreesSince o r m₀ m m') {q : StoreRequest} (hq : (footprint o r).asks q) :
    (footprint o r).hears q (Cells.respond q m).2 := by
  match q with
  | .read (.scan key glob) =>
      have hreads : key = o.relatedTypesKey r.type → ∀ related ∈ (m key).members, Plain related := by
        rintro rfl
        exact h.plain (reads_relatedTypes (hq _ List.mem_cons_self))
      cases glob with
      | none => exact hreads
      | some glob =>
          have hlookup : (Cells.respond (.read (.scan key (some glob))) m).2 =
              (do return (m key).members.filter (Glob.isMatch (← Glob.compile glob))) := rfl
          rw [hlookup]
          cases Glob.compile glob with
          | error e => trivial
          | ok pattern =>
              exact fun hkey related hrelated =>
                hreads hkey related (Std.ExtTreeSet.mem_of_mem_filter hrelated)
  | .read (.blobs _) | .read (.hashFields ..) | .read (.sets _) | .read (.contains ..) | .write _ => trivial

theorem readable_or_changeable {q : StoreRequest} (hq : (footprint o r).asks q) {key : String}
    (hkey : key ∈ q.keys) : Readable o r key ∨ Changeable o r key := by
  cases q with
  | read q => exact .inl (hq key hkey)
  | write batch =>
      obtain ⟨c, hc, rfl⟩ := List.mem_map.1 hkey
      exact .inr (hq c hc)

/-- One request to the store. -/
theorem AgreesSince.respond (h : AgreesSince o r m₀ m m') {q : StoreRequest}
    (hq : (footprint o r).asks q) : (Cells.respond q m').2 = (Cells.respond q m).2 ∧
      AgreesSince o r m₀ (Cells.respond q m).1 (Cells.respond q m').1 := by
  have hother : ∀ key, ¬ Changeable o r key → (Cells.respond q m).1 key = m key := by
    intro key hkey
    cases q with
    | read q => rfl
    | write batch =>
        refine Cells.respond_key_other fun hmem => hkey ?_
        obtain ⟨c, hc, rfl⟩ := List.mem_map.1 hmem
        exact hq c hc
  refine ⟨(Cells.respond_reply_congr fun key hkey => h.same key (readable_or_changeable hq hkey)).symm,
    fun key hkey => Cells.respond_key_congr q (h.same key hkey),
    fun key hkey => (hother key hkey).trans (h.kept key hkey), fun hreads => ?_⟩
  rw [hother _ (not_changeable_relatedTypes hreads)]
  exact h.plain hreads

/-- A request to the cache is answered from its keys, and it leaves all others as they are. -/
theorem agreesSince_respond (hr : r.Suits Plain stores) (h : AgreesSince o r m m m') :
    (Backend.respond o r m').2 = (Backend.respond o r m).2 ∧
      AgreesSince o r m (Backend.respond o r m).1 (Backend.respond o r m').1 :=
  Plan.run_of_keepsTo (AgreesSince o r m) (fun _ _ _ hq h => ⟨h.hears hq, h.respond hq⟩)
    (keepsTo_footprint hr) h

/-- Where requests with plain names lead, no related type of a plain type has a colon. -/
theorem plain_relatedTypes {c s : Store} (hc : c.IsFresh)
    (hs : (Backend.keyValue o).Reaches (CacheRequest.Suits Plain stores) c s) {type : String}
    (ht : Plain type) :
    s.Healthy ∧ ∀ related ∈ (s.cells (o.relatedTypesKey type)).members, Plain related := by
  obtain ⟨p, result, hasks, hends⟩ := hs
  obtain ⟨hhealthy, hrun⟩ := hends.keyValue hc.healthy
  have hfresh : Indexed o type c.cells := hc.cells_eq ▸ .empty o type
  have hstep : ∀ r m, CacheRequest.Suits Plain stores r → Indexed o type m →
      Indexed o type (Backend.respond o r m).1 := fun r m hr h => h.respond ht hr
  have hindexed := Plan.run_of_asks (Indexed o type) hstep hasks hfresh
  rw [hrun] at hindexed
  exact ⟨hhealthy, hindexed.types⟩

/-- A slot that a request does not change is not under a key that it changes. -/
theorem not_changeable {type : String} {slot : Slot} (ht : Plain type) (hr : Plain r.type)
    (hslot : slot.Plainly) (h : ¬ (type = r.type ∧ r.Changes slot)) :
    ¬ Changeable o r (slot.key o type) := by
  rintro ⟨slot', hslot', hchanges, hkey⟩
  obtain ⟨hsame, rfl⟩ := (Slot.key_eq_key_iff_of_plain ht hr hslot hslot').1 hkey
  exact h ⟨hsame, hchanges⟩

variable (o) in
/-- Two keys of one type are the same only for two related sets whose id and relationship are spelt alike
when joined; if no type and no relationship has a colon in its name, different slots have different keys,
whatever the ids are. A request with such names then asks for the keys of what it reads and changes and for
no others, whatever the store answers. In every state that such requests lead to, it leaves the keys of
all else as they are, and a store with the same under its own keys answers alike and comes to the same
there, whatever else it holds. -/
theorem requests_keep_apart :
    (∀ type (a b : Slot), a.key o type = b.key o type ↔
      a = b ∨ ∃ id relationship id' relationship', a = .related id relationship ∧
        b = .related id' relationship' ∧ id ++ ":" ++ relationship = id' ++ ":" ++ relationship') ∧
    (∀ type type' (a b : Slot), Plain type → Plain type' → a.Plainly → b.Plainly →
      (a.key o type = b.key o type' ↔ type = type' ∧ a = b)) ∧
    ∀ r : CacheRequest, Plain r.type → r.Suits Plain (fun _ => True) →
      (plan o r).KeepsTo (footprint o r) (fun _ => True) ∧
      ∀ c s : Store, c.IsFresh →
        (Backend.keyValue o).Reaches (CacheRequest.Suits Plain fun _ => True) c s →
        ∃ s' reply, (Backend.keyValue o).EndsIn (.perform r) s s' reply ∧
          (∀ type (slot : Slot), Plain type → slot.Plainly → ¬ (type = r.type ∧ r.Changes slot) →
            s'.cells (slot.key o type) = s.cells (slot.key o type)) ∧
          ∀ t : Store, t.Healthy →
            (∀ slot : Slot, slot.Plainly → r.Reads slot ∨ r.Changes slot →
              t.cells (slot.key o r.type) = s.cells (slot.key o r.type)) →
            ∃ t', (Backend.keyValue o).EndsIn (.perform r) t t' reply ∧
              ∀ slot : Slot, slot.Plainly → r.Reads slot ∨ r.Changes slot →
                t'.cells (slot.key o r.type) = s'.cells (slot.key o r.type) := by
  refine ⟨fun type a b => Slot.key_eq_key_iff,
    fun type type' a b => Slot.key_eq_key_iff_of_plain, fun r htype hr =>
    ⟨keepsTo_footprint hr, fun c s hc hs => ?_⟩⟩
  obtain ⟨hhealthy, hplain⟩ := plain_relatedTypes hc hs htype
  obtain ⟨s', hends, -, hcells⟩ := Backend.keyValue_endsIn (o := o) hhealthy (.perform r)
  have hself : AgreesSince o r s.cells s.cells s.cells :=
    ⟨fun _ _ => rfl, fun _ _ => rfl, fun _ => hplain⟩
  have hkept := (agreesSince_respond hr hself).2.kept
  refine ⟨s', _, hends, fun type slot ht hslot hnot => ?_, fun t ht hsame => ?_⟩
  · rw [hcells]
    exact hkept _ (not_changeable ht htype hslot hnot)
  · have hagrees : AgreesSince o r s.cells s.cells t.cells := by
      refine ⟨fun key hkey => ?_, fun _ _ => rfl, fun _ => hplain⟩
      rcases hkey with ⟨slot, hslot, hreads, rfl⟩ | ⟨slot, hslot, hchanges, rfl⟩
      · exact (hsame slot hslot (.inl hreads)).symm
      · exact (hsame slot hslot (.inr hchanges)).symm
    obtain ⟨hreply, hafter⟩ := agreesSince_respond hr hagrees
    obtain ⟨t', hends', -, hcells'⟩ := Backend.keyValue_endsIn (o := o) ht (.perform r)
    have hresult : ((Plan.perform r).run (Backend.respond o) t.cells).2 =
        ((Plan.perform r).run (Backend.respond o) s.cells).2 := hreply
    rw [hresult] at hends'
    refine ⟨t', hends', fun slot hslot hkey => ?_⟩
    rw [hcells, hcells']
    refine (hafter.same _ ?_).symm
    exact hkey.imp (fun h => ⟨slot, hslot, h, rfl⟩) fun h => ⟨slot, hslot, h, rfl⟩

/-! ## An example -/

/-- Two entities of which the one has an id that the other's begins with. -/
def nestedIds : List Entity :=
  [{ id := "a:b:c:d:e", relationships := Relationships.add ∅ "f" ["x"] },
    { id := "a:b:c:d:e:f", relationships := Relationships.add ∅ "g" ["y"] }]

theorem suits_nestedIds : (CacheRequest.write .union "t" nestedIds).Suits Plain fun _ => True := by
  have hplain : Plain "f" ∧ Plain "g" := by decide
  refine ⟨by decide, fun e he => ⟨fun _ => trivial, fun related hrelated => ?_⟩⟩
  rcases List.mem_cons.1 he with rfl | he
  · obtain rfl : "f" = related := by simpa [Relationships.add] using hrelated
    exact hplain.1
  · obtain rfl := List.mem_singleton.1 he
    obtain rfl : "g" = related := by simpa [Relationships.add] using hrelated
    exact hplain.2

/-- An eviction leaves all that is kept of an entity whose id goes on where the evicted one ends. -/
theorem longer_id_is_left : Plain "t" ∧
    (CacheRequest.evict "t" ["a:b:c:d:e"]).Suits Plain (fun _ => True) ∧ ∃ s s' reply,
      (Backend.keyValue {}).EndsIn (.write .union "t" nestedIds) (.single { name := "kv" } : Store) s
        (.ok ()) ∧
      (Backend.keyValue {}).EndsIn (.perform (.evict "t" ["a:b:c:d:e"])) s s' reply ∧
      ∀ slot : Slot, slot.Plainly → slot = .attributes "a:b:c:d:e:f" ∨
          (∃ relationship, slot = .related "a:b:c:d:e:f" relationship) →
        s'.cells (slot.key {} "t") = s.cells (slot.key {} "t") := by
  have ht : Plain "t" := by decide
  have hne : ∀ e ∈ nestedIds, e.id.isEmpty = false := by decide
  have hother : "a:b:c:d:e:f" ∉ ["a:b:c:d:e"] := by decide
  obtain ⟨s, hends, -, -⟩ := Backend.keyValue_endsIn (o := {}) (Store.healthy_fresh "kv")
    (.write .union "t" nestedIds)
  have hreply : ((CachePlan.write .union "t" nestedIds).run (Backend.respond {})
      (Store.single { name := "kv" }).cells).2 = .ok () := congrArg Prod.snd (respond_write hne _)
  rw [hreply] at hends
  obtain ⟨s', reply, hends', hkept, -⟩ := ((requests_keep_apart {}).2.2 (.evict "t" ["a:b:c:d:e"]) ht
    ht).2 _ s (.single "kv") ⟨_, _, Plan.asks_perform suits_nestedIds, hends⟩
  refine ⟨ht, ht, s, s', reply, hends, hends', fun slot hslot h => hkept "t" slot ht hslot ?_⟩
  rintro ⟨-, hchanges⟩
  rcases h with rfl | ⟨relationship, rfl⟩ <;> exact hother hchanges

/-- With a colon in a relationship two entities share a set of related ids, and with a colon in a type
entities of two types share their attributes, although all ids are accepted as keys. -/
theorem colons_share_keys :
    Engine.checkId {} "t" "a:b:c:d:e" = .ok () ∧ Engine.checkId {} "t" "a:b:c:d:e:f" = .ok () ∧
    Engine.checkId {} "t" "attributes:a:b:c:d:e" = .ok () ∧
    Options.relationshipKey {} "t" "a:b:c:d:e" "f:g" =
      Options.relationshipKey {} "t" "a:b:c:d:e:f" "g" ∧
    Options.attributesKey {} "t" "attributes:a:b:c:d:e" =
      Options.attributesKey {} "t:attributes" "a:b:c:d:e" := by
  exact ⟨by decide +kernel, by decide +kernel, by decide +kernel, by decide, by decide⟩

end KeyValue

end Inventory
