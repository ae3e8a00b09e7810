import Inventory.Proofs.Blob
import Inventory.Proofs.KeyValue.Batching
import Inventory.Proofs.KeyValue.Interrupted

/-!
# Inventory.Proofs.KeyValue.Consistent

What the keys of a type say of each other, whatever was interrupted.

A digest is that of a blob that is there and does not expire, all that is kept of an id is kept of a
member, and a related type of which there are ids is listed. Each of the three needs the others to be
preserved (`Consistent`): a digest lets a blob be skipped, and the list of related types is all that an
eviction goes by. A request that ends early is one about fewer ids, so it preserves them as well.
-/

namespace Inventory.KeyValue

variable {o : Options} {mode : WriteMode} {type : String} {m m' : Cells} {e : Entity}

/-- The keys of a type fit together. -/
structure Consistent (o : Options) (type : String) (m : Cells) : Prop where
  takesIds : (m (o.membersKey type)).takesMembers
  takesTypes : (m (o.relatedTypesKey type)).takesMembers
  types : ∀ related ∈ (m (o.relatedTypesKey type)).members, Plain related
  /-- Digests are kept of blobs that are there and stay. -/
  digest : ∀ id d, (m (o.digestsKey type)).field? id = some d → o.hashing ∧ ∃ a,
    m (o.attributesKey type id) =
      ⟨some (.blob (Blob.encode o.compression (Blob.content a))), none⟩ ∧ Blob.digest a = d
  attributes : ∀ id, m (o.attributesKey type id) ≠ {} → id ∈ members o type m
  related : ∀ id related, Plain related → m (o.relationshipKey type id related) ≠ {} →
    id ∈ members o type m ∧ related ∈ (m (o.relatedTypesKey type)).members

namespace Consistent

theorem empty (o : Options) (type : String) : Consistent o type fun _ => {} where
  takesIds := rfl
  takesTypes := rfl
  types related h := by simp [Cell.members] at h
  digest id d h := by simp [Cell.field?] at h
  attributes id h := absurd rfl h
  related id related _ h := absurd rfl h

/-- Keys of other types do not matter. -/
theorem congr (h : Consistent o type m) (hm : ∀ slot : Slot, m' (slot.key o type) = m (slot.key o type)) :
    Consistent o type m' := by
  have hmembers : m' (o.membersKey type) = m (o.membersKey type) := hm .members
  have htypes : m' (o.relatedTypesKey type) = m (o.relatedTypesKey type) := hm .relatedTypes
  have hdigests : m' (o.digestsKey type) = m (o.digestsKey type) := hm .digests
  have hattributes : ∀ id, m' (o.attributesKey type id) = m (o.attributesKey type id) :=
    fun id => hm (.attributes id)
  have hrelated : ∀ id related, m' (o.relationshipKey type id related) =
      m (o.relationshipKey type id related) := fun id related => hm (.related id related)
  obtain ⟨takesIds, takesTypes, types, digest, attributes, related⟩ := h
  constructor <;> simp only [members, hmembers, htypes, hdigests, hattributes, hrelated] <;> assumption

/-! ## Writes -/

theorem digest_put (h : Consistent o type m) (id : String) (d : Bytes)
    (hd : (putChunk o mode type m [e] (o.digestsKey type)).field? id = some d) :
    o.hashing ∧ ∃ a, putChunk o mode type m [e] (o.attributesKey type id) =
      ⟨some (.blob (Blob.encode o.compression (Blob.content a))), none⟩ ∧ Blob.digest a = d := by
  rw [putChunk_single_digest] at hd
  rw [putChunk_single_attributes]
  by_cases hchange : e.id = id ∧ (o.hashing && !e.attributes.isEmpty &&
      !skips o ((m (o.digestsKey type)).field? id) e) = true
  · -- The digest is new, and so is the blob.
    rw [if_pos hchange] at hd
    split at hd
    · next hkept =>
      simp only [Bool.and_eq_true, Bool.not_eq_true'] at hchange
      obtain ⟨hid, ⟨hhashing, hne⟩, hskips⟩ := hchange
      refine ⟨hhashing, e.attributes, ?_, Option.some.inj hd⟩
      rw [if_pos ⟨hid, by rw [hne, hskips]; rfl⟩, Option.isNone_iff_eq_none.1 hkept.1]
      rfl
    · contradiction
  · -- The digest is old, and the blob is left alone.
    rw [if_neg hchange] at hd
    obtain ⟨hhashing, a, hblob, hdigest⟩ := h.digest id d hd
    refine ⟨hhashing, a, ?_, hdigest⟩
    rw [if_neg fun hput => hchange ⟨hput.1, ?_⟩, hblob]
    obtain ⟨hne, hskips⟩ := Bool.or_eq_false_iff.1 hput.2
    rw [hhashing, hne, hskips]
    rfl

theorem relatedCell_eq_empty {ids : StringSet} (h : ids.isEmpty) (ttl : Option UInt64) :
    relatedCell mode ids ttl {} = {} := by
  unfold relatedCell
  simp [h]

/-- Writing an entity keeps the keys together. -/
theorem put (h : Consistent o type m) (hplain : ∀ related ∈ e.relationships, Plain related) :
    Consistent o type (putChunk o mode type m [e]) := by
  have hmembers : ∀ id, id ∈ members o type (putChunk o mode type m [e]) ↔
      id ∈ members o type m ∨ id = e.id := by
    intro id
    rw [members, putChunk_single_members, Cell.mem_members_add h.takesIds, List.mem_singleton]
    rfl
  have htypes : ∀ related, related ∈ (putChunk o mode type m [e] (o.relatedTypesKey type)).members ↔
      related ∈ (m (o.relatedTypesKey type)).members ∨
        ∃ ids, e.relationships[related]? = some ids ∧ ids.isEmpty = false := by
    intro related
    rw [putChunk_single_relatedTypes, Cell.mem_members_add h.takesTypes, mem_relatedTypes]
  constructor
  case takesIds => rw [putChunk_single_members, Cell.takesMembers_add]; exact h.takesIds
  case takesTypes => rw [putChunk_single_relatedTypes, Cell.takesMembers_add]; exact h.takesTypes
  case types =>
    intro related hrelated
    rcases (htypes related).1 hrelated with hold | ⟨ids, hids, -⟩
    · exact h.types related hold
    · exact hplain related (Std.ExtTreeMap.mem_iff_isSome_getElem?.2 (by rw [hids]; rfl))
  case digest => exact h.digest_put
  case attributes =>
    intro id hne
    rw [putChunk_single_attributes] at hne
    rw [hmembers]
    split at hne
    · next hput => exact .inr hput.1.symm
    · exact .inl (h.attributes id hne)
  case related =>
    intro id related hr hne
    rw [putChunk_single_related hplain m id hr] at hne
    rw [hmembers, htypes]
    split at hne
    · next ids hids =>
      split at hids
      · next hid =>
        by_cases hold : m (o.relationshipKey type id related) = {}
        · have hsome : ids.isEmpty = false := by
            rw [← Bool.not_eq_true]
            intro hempty
            rw [hold, relatedCell_eq_empty hempty] at hne
            exact hne rfl
          exact ⟨.inr hid.symm, .inr ⟨ids, hids, hsome⟩⟩
        · exact (h.related id related hr hold).imp .inl .inl
      · contradiction
    · exact (h.related id related hr hne).imp .inl .inl

/-- Writing entities one after the other keeps the keys together. -/
theorem putEach {es : List Entity} (h : Consistent o type m)
    (hplain : ∀ e ∈ es, ∀ related ∈ e.relationships, Plain related) :
    Consistent o type (putEach o mode type m es) := by
  induction es generalizing m with
  | nil => exact h
  | cons e es ih =>
      exact ih (h.put (hplain e List.mem_cons_self)) fun e' he' =>
        hplain e' (List.mem_cons_of_mem _ he')

/-! ## Removing -/

/-- Of an id evicted nothing is left. -/
theorem evict_eq_empty (h : Consistent o type m) {ids : List String} {id : String} (hid : id ∈ ids) :
    m.applyAll (evictAll o type (typesOf o type m) ids) (o.attributesKey type id) = {} ∧
      ∀ related, Plain related → m.applyAll (evictAll o type (typesOf o type m) ids)
        (o.relationshipKey type id related) = {} := by
  have htypes : ∀ t ∈ typesOf o type m, Plain t := forall_mem_typesOf.2 h.types
  refine ⟨by rw [evict_attributes, if_pos hid], fun related hr => ?_⟩
  rw [evict_related hr htypes]
  split
  · rfl
  · next hnot =>
    -- What is not listed was never there.
    have hunlisted : related ∉ (m (o.relatedTypesKey type)).members := fun hlisted =>
      hnot ⟨hid, Std.ExtTreeSet.mem_toList.2 hlisted⟩
    by_contra hne
    exact hunlisted (h.related id related hr hne).2

/-- An eviction keeps the keys together. -/
theorem evict (h : Consistent o type m) (ids : List String) :
    Consistent o type (m.applyAll (evictAll o type (typesOf o type m) ids)) := by
  have htypes : ∀ t ∈ typesOf o type m, Plain t := forall_mem_typesOf.2 h.types
  have hmembers : ∀ id, id ∈ members o type (m.applyAll (evictAll o type (typesOf o type m) ids)) ↔
      id ∈ members o type m ∧ id ∉ ids := (evict_members m _ ids).2
  constructor
  case takesIds => exact (evict_members m _ ids).1.trans h.takesIds
  case takesTypes => rw [evict_relatedTypes]; exact h.takesTypes
  case types => rw [evict_relatedTypes]; exact h.types
  case digest =>
    intro id d hd
    obtain ⟨hd, hid⟩ := ((evict_digests m _ ids).2 id d).1 hd
    rw [evict_attributes, if_neg hid]
    exact h.digest id d hd
  case attributes =>
    intro id hne
    by_cases hid : id ∈ ids
    · exact absurd (h.evict_eq_empty hid).1 hne
    · rw [evict_attributes, if_neg hid] at hne
      exact (hmembers id).2 ⟨h.attributes id hne, hid⟩
  case related =>
    intro id related hr hne
    by_cases hid : id ∈ ids
    · exact absurd ((h.evict_eq_empty hid).2 related hr) hne
    · rw [evict_related hr htypes, if_neg fun hc => hid hc.1] at hne
      rw [evict_relatedTypes, hmembers]
      exact (h.related id related hr hne).imp_left fun hmem => ⟨hmem, hid⟩

/-- The removal of references keeps the keys together. -/
theorem unlink (h : Consistent o type m) (ids : List String) (related : String)
    (targets : List String) :
    Consistent o type (m.applyAll (unlinkAll o type ids related targets)) := by
  have hmembers : m.applyAll (unlinkAll o type ids related targets) (o.membersKey type) =
      m (o.membersKey type) := unlink_slot .members m ids related targets
  have htypes : m.applyAll (unlinkAll o type ids related targets) (o.relatedTypesKey type) =
      m (o.relatedTypesKey type) := unlink_slot .relatedTypes m ids related targets
  have hdigests : m.applyAll (unlinkAll o type ids related targets) (o.digestsKey type) =
      m (o.digestsKey type) := unlink_slot .digests m ids related targets
  have hattributes : ∀ id, m.applyAll (unlinkAll o type ids related targets)
      (o.attributesKey type id) = m (o.attributesKey type id) :=
    fun id => unlink_slot (.attributes id) m ids related targets
  constructor
  case takesIds => rw [hmembers]; exact h.takesIds
  case takesTypes => rw [htypes]; exact h.takesTypes
  case types => rw [htypes]; exact h.types
  case digest =>
    intro id d hd
    rw [hdigests] at hd
    rw [hattributes]
    exact h.digest id d hd
  case attributes =>
    intro id hne
    rw [hattributes] at hne
    rw [members, hmembers]
    exact h.attributes id hne
  case related =>
    intro id related' hr hne
    rw [members, hmembers, htypes]
    refine h.related id related' hr fun hempty => hne (Cells.applyAll_eq_empty ?_ hempty)
    intro c hc hkey
    obtain ⟨id', -, rfl⟩ := shape_of_mem_unlinkAll hc
    exact ⟨targets, by rw [← hkey]; rfl⟩

end Consistent

/-! ## Requests that may be interrupted -/

/-- A write, an eviction or a removal of references by names without a colon, in which no entity is
written twice. -/
def Regular : CacheRequest → Prop
  | .write _ type es => Plain type ∧ (es.map Entity.id).Nodup ∧
      ∀ e ∈ es, ∀ related ∈ e.relationships, Plain related
  | .evict type _ => Plain type
  | .unlink type _ related _ => Plain type ∧ Plain related
  | _ => False

/-- A write without relationships is regular if the ids are distinct. -/
theorem regular_write {mode : WriteMode} {es : List Entity} (ht : Plain type) (hids : (es.map Entity.id).Nodup)
    (hes : ∀ e ∈ es, e.relationships = ∅) : Regular (.write mode type es) :=
  ⟨ht, hids, fun e he related hrelated => by simp [hes e he] at hrelated⟩

theorem Regular.isRead {r : CacheRequest} (h : Regular r) : r.isRead = false := by
  cases r <;> first | rfl | exact h.elim

theorem Regular.plain {r : CacheRequest} (h : Regular r) : Plain r.type := by
  cases r with
  | write mode type es => exact h.1
  | evict type ids => exact h
  | unlink type ids related targets => exact h.1
  | _ => exact h.elim

theorem Regular.of_begins {r r' : CacheRequest} (hr : Regular r) (h : r'.Begins r) : Regular r' := by
  cases h with
  | write hpart =>
      exact ⟨hr.1, (hpart.map Entity.id).sublist.nodup hr.2.1, fun e he => hr.2.2 e (hpart.subset he)⟩
  | evict hpart => exact hr
  | unlink hpart => exact hr

/-- A request keeps the keys of every type together. -/
theorem Consistent.respond (ht : Plain type) (h : Consistent o type m) {r : CacheRequest}
    (hr : Regular r) : Consistent o type (Backend.respond o r m).1 := by
  by_cases htype : r.type = type
  · subst htype
    cases r with
    | write mode type es =>
        by_cases hempty : ∃ e ∈ es, e.id.isEmpty
        · obtain ⟨error, hwrite⟩ := respond_write_of_isEmpty o mode type hempty m
          rwa [hwrite]
        · rw [respond_write_of_nodup (by simpa using hempty) hr.2.1]
          exact h.putEach hr.2.2
    | evict type ids =>
        rw [respond_evict]
        exact h.evict ids
    | unlink type ids related targets =>
        rw [respond_unlink]
        exact h.unlink ids related targets
    | _ => exact hr.elim
  · exact h.congr fun slot => respond_other
      (fun slot' hkey => htype (Slot.eq_of_key_eq_of_plain ht hr.plain hkey).symm) m

/-- A request that may end early keeps the keys of every type together. -/
theorem Consistent.leads (ht : Plain type) (h : Consistent o type m) {r : CacheRequest}
    (hr : Regular r) {out : Except Error r.Reply}
    (hleads : (plan o r).Leads Cells.faltering m m' out) : Consistent o type m' := by
  obtain ⟨r', hbegins, rfl, -⟩ := leads_plan hr.isRead hleads
  exact h.respond ht (hr.of_begins hbegins)

/-! ## Stores -/

/-- The stores that come about from an empty node by regular requests, of which each may have been
ended by a request to the store that failed. -/
inductive Attained (o : Options) (name : String) : Store → Prop
  | fresh : Attained o name (.single { name })
  | request {s s' : Store} {r : CacheRequest} {out : Except Error r.Reply} (hs : Attained o name s)
    (hr : Regular r) (h : (plan o r).Leads Store.faltering s s' out) : Attained o name s'

variable {name : String} {s s' : Store}

/-- A request that ends by itself is one that may end so. -/
theorem leads_of_endsIn {r : CacheRequest} {out : Except Error r.Reply}
    (h : (Backend.keyValue o).EndsIn (.perform r) s s' out) :
    (plan o r).Leads Store.faltering s s' out := by
  have hwork : (Backend.keyValue o).work (.perform r) = plan o r := Plan.andThen_eq_self (plan o r)
  unfold Backend.EndsIn at h
  rw [hwork] at h
  exact h.leads

theorem Attained.consistent (h : Attained o name s) (ht : Plain type) :
    s.Healthy ∧ Consistent o type s.cells := by
  induction h with
  | fresh =>
      refine ⟨Store.healthy_fresh name, ?_⟩
      rw [Store.cells_fresh]
      exact Consistent.empty o type
  | request hs hr hleads ih =>
      obtain ⟨hhealthy, hcells⟩ := Store.leads_cells ih.1 hleads
      exact ⟨hhealthy, ih.2.leads ht hr hcells⟩

/-- A regular request that is not interrupted. -/
theorem Attained.follow (h : Attained o name s) {r : CacheRequest} (hr : Regular r) :
    Attained o name (((Backend.keyValue o).work (.perform r)).follow Store.answer s).state := by
  obtain ⟨s', hends, -⟩ := Backend.keyValue_endsIn (h.consistent hr.plain).1 (.perform r)
  obtain rfl : _ = s' := hends.1
  exact .request h hr (leads_of_endsIn hends)

/-- Nothing is kept of an id: it is no member, has no digest, and its keys are empty. -/
structure Vanished (o : Options) (type id : String) (m : Cells) : Prop where
  members : id ∉ members o type m
  digest : (m (o.digestsKey type)).field? id = none
  attributes : m (o.attributesKey type id) = {}
  related : ∀ related, Plain related → m (o.relationshipKey type id related) = {}

theorem Consistent.vanished (h : Consistent o type m) {id : String} (hid : id ∉ KeyValue.members o type m) :
    Vanished o type id m where
  members := hid
  digest := by
    rw [Option.eq_none_iff_forall_ne_some]
    intro d hd
    obtain ⟨-, a, hblob, -⟩ := h.digest id d hd
    exact hid (h.attributes id (by rw [hblob]; simp [Cell.ext_iff]))
  attributes := by
    by_contra hne
    exact hid (h.attributes id hne)
  related related hr := by
    by_contra hne
    exact hid (h.related id related hr hne).1

/-- Whatever was interrupted: a digest is that of the JSON text in a blob that is there and does not
expire, of an id that is no member nothing is kept, and the related types of which there are ids are
listed. So nothing is left of ids whose eviction succeeded. -/
theorem keys_fit_together (hs : Attained o name s) (ht : Plain type) :
    (∀ id d, (s.cells (o.digestsKey type)).field? id = some d → ∃ blob a,
      s.cells (o.attributesKey type id) = ⟨some (.blob blob), none⟩ ∧
        Blob.content? blob = .ok (Blob.content a) ∧ Sha256.digest (Blob.content a) = d) ∧
    (∀ id, id ∉ members o type s.cells → Vanished o type id s.cells) ∧
    (∀ id related, Plain related →
      (s.cells (o.relationshipKey type id related)).members.isEmpty = false →
        related ∈ (s.cells (o.relatedTypesKey type)).members) ∧
    ∀ ids s', (plan o (.evict type ids)).Leads Store.faltering s s' (.ok ()) →
      ∀ id ∈ ids, Vanished o type id s'.cells := by
  obtain ⟨hhealthy, hfits⟩ := hs.consistent ht
  refine ⟨fun id d hd => ?_, fun id hid => hfits.vanished hid, fun id related hr hne => ?_,
    fun ids s' hevict id hid => ?_⟩
  · obtain ⟨-, a, hblob, hdigest⟩ := hfits.digest id d hd
    exact ⟨_, a, hblob, Blob.content?_encode o.compression a, hdigest⟩
  · refine (hfits.related id related hr fun hempty => ?_).2
    rw [hempty] at hne
    contradiction
  · have hleads := (Store.leads_cells hhealthy hevict).2
    have hr : Regular (.evict type ids) := ht
    have hfits' : Consistent o type s'.cells := hfits.leads ht hr hleads
    refine hfits'.vanished fun hmember => ?_
    obtain ⟨r', -, hstate, hall⟩ := leads_plan rfl hleads
    obtain rfl := hall rfl
    rw [hstate, respond_evict] at hmember
    exact ((evict_members s.cells _ ids).2 id |>.1 hmember).2 hid

/-- An entity that was written and one that was evicted afterwards. -/
theorem keys_of_one_entity : ∃ s s' : Store, Attained {} "kv" s ∧ Plain "t" ∧
    (s.cells (Options.digestsKey {} "t")).field? "e" = some (Blob.digest (numbered 1)) ∧
    (∃ blob a, s.cells (Options.attributesKey {} "t" "e") = ⟨some (.blob blob), none⟩ ∧
      Blob.content? blob = .ok (Blob.content a) ∧
      Sha256.digest (Blob.content a) = Blob.digest (numbered 1)) ∧
    (plan {} (.evict "t" ["e"])).Leads Store.faltering s s' (.ok ()) ∧
    Vanished {} "t" "e" s'.cells := by
  have ht : Plain "t" := by decide
  obtain ⟨s, hwrite, hhealthy, hdigest, -⟩ := endsIn_write_first (o := {}) (W := OneOrTwo) rfl "t"
    (by decide : "e".isEmpty = false) (.inl rfl : OneOrTwo (numbered 1)) (by decide)
  have hregular : Regular (.write .union "t" [{ id := "e", attributes := numbered 1 }]) :=
    ⟨ht, List.nodup_singleton _, List.forall_mem_singleton.2 fun related h => by simp at h⟩
  have hs : Attained {} "kv" s := .request .fresh hregular (leads_of_endsIn hwrite)
  obtain ⟨s', hevict, -⟩ := Backend.keyValue_endsIn (o := {}) hhealthy (.perform (.evict "t" ["e"]))
  have hgone : (plan {} (.evict "t" ["e"])).Leads Store.faltering s s' (.ok ()) := by
    have hleads := leads_of_endsIn hevict
    rwa [Plan.run_perform, respond_evict] at hleads
  obtain ⟨hblobs, -, -, hevicted⟩ := keys_fit_together hs ht
  exact ⟨s, s', hs, ht, hdigest, hblobs "e" _ hdigest, hgone,
    hevicted ["e"] s' hgone "e" List.mem_cons_self⟩

end Inventory.KeyValue
