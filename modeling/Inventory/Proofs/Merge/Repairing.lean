import Inventory.Proofs.Merge.Entries
import Inventory.Proofs.Merge.Refusal

/-!
# Inventory.Proofs.Merge.Repairing

Merges over a store that fails, and their repetition.

However a merge is cut off, of each id the store keeps what it kept before or what the whole merge is to
make of it (`Underway`): each request takes some ids from the one to the other (`Underway.respond`). The
repeated merge finds other ids stale than the first, since some are evicted already, but it makes the same
of each id, so the store ends up with the same ids and attributes as if nothing had failed
(`merge_after_failed_merge`).
-/

namespace Inventory

open KeyValue Engine

variable {o : Options} {type id : String} {m₀ m m' : Cells} {authoritative : StringSet} {r : Report}
  {gone todo : String → String → Prop}

namespace Engine

/-! ## Each id -/

/-- What a merge is to make of an id: its entity is written, or it is evicted. -/
inductive Settled (o : Options) (authoritative : StringSet) (r : Report) (gone : String → String → Prop)
    (type id : String) (m₀ m : Cells) : Prop
  | written (e : Entity) (he : e ∈ r.entitiesOf type) (hid : e.id = id) (member : id ∈ members o type m)
    (kept : SameFor o type id m (putAttributeChunk o type m₀ [partOf authoritative type e]))
  | evicted (h : gone type id) (absent : id ∉ members o type m)

theorem Settled.trans (h : Settled o authoritative r gone type id m₀ m) (hm : SameEntry o type id m m') :
    Settled o authoritative r gone type id m₀ m' := by
  cases h with
  | written e he hid member kept => exact .written e he hid (hm.member.2 member) (hm.kept.trans kept)
  | evicted h absent => exact .evicted h fun hmember => absent (hm.member.1 hmember)

/-- A merge of which some ids are still to do: they are as they were before, and so are those that it is
to leave alone. -/
structure Underway (o : Options) (authoritative : StringSet) (r : Report)
    (gone todo : String → String → Prop) (m₀ m : Cells) : Prop where
  consistent : ∀ type, Plain type → Consistent o type m
  each : ∀ type id, Plain type → Settled o authoritative r gone type id m₀ m ∨
    SameEntry o type id m₀ m ∧ (id ∈ r.ids type ∨ gone type id → todo type id)

/-- A request that a merge may ask: a write of some of its entities, an eviction of some of the ids that
are to go, or a removal of references. -/
inductive Belongs (authoritative : StringSet) (r : Report) (gone : String → String → Prop) :
    CacheRequest → Prop
  | write {type : String} {es : List Entity} (ht : Plain type)
    (h : es <+: (r.entitiesOf type).map (partOf authoritative type)) :
    Belongs authoritative r gone (.write (modeOf authoritative type) type es)
  | evict {type : String} {ids : List String} (ht : Plain type) (h : ∀ id ∈ ids, gone type id) :
    Belongs authoritative r gone (.evict type ids)
  | unlink {type related : String} {ids targets : List String} (ht : Plain type) (hr : Plain related) :
    Belongs authoritative r gone (.unlink type ids related targets)

theorem Belongs.of_begins {q q' : CacheRequest} (h : Belongs authoritative r gone q) (hq : q'.Begins q) :
    Belongs authoritative r gone q' := by
  cases hq with
  | write hpart => cases h with | write ht h => exact .write ht (hpart.trans h)
  | evict hpart => cases h with | evict ht h => exact .evict ht fun id hid => h id (hpart.subset hid)
  | unlink hpart => cases h with | unlink ht hr => exact .unlink ht hr

namespace Underway

theorem mono {todo' : String → String → Prop} (h : Underway o authoritative r gone todo m₀ m)
    (htodo : ∀ type id, todo type id → todo' type id) :
    Underway o authoritative r gone todo' m₀ m where
  consistent := h.consistent
  each type id ht := (h.each type id ht).imp_right (And.imp_right fun hrest haimed =>
    htodo type id (hrest haimed))

/-- Before the first request all is still to do. -/
theorem start (h : ∀ type, Plain type → Consistent o type m₀) :
    Underway o authoritative r gone (fun type id => id ∈ r.ids type ∨ gone type id) m₀ m₀ where
  consistent := h
  each type id _ := .inr ⟨.refl o type id m₀, fun haimed => haimed⟩

variable {engine : Engine} (haccepts : engine.Accepts r) (hr : r.Suits Plain fun _ => True)
  (hids : ∀ type, ((r.entitiesOf type).map Entity.id).Nodup)
  (hgone : ∀ type id, gone type id → id ∉ r.ids type)

include hr hids in
theorem regular {q : CacheRequest} (hq : Belongs authoritative r gone q) : Regular q := by
  cases hq with
  | @write type es ht h =>
      refine ⟨ht, ?_, fun e' he' => ?_⟩
      · refine (h.map Entity.id).sublist.nodup ?_
        rw [map_id_partOf]
        exact hids type
      · obtain ⟨e, he, rfl⟩ := List.mem_map.1 (h.subset he')
        exact (suits_partOf authoritative hr he).related
  | evict ht h => exact ht
  | unlink ht hr => exact ⟨ht, hr⟩

include hids hgone in
/-- Written before or not, the attributes of an entity become what one write makes of them. -/
theorem put_again (h : Underway o authoritative r gone todo m₀ m) (ht : Plain type) {e : Entity}
    (he : e ∈ r.entitiesOf type) : SameFor o type (partOf authoritative type e).id
      (putAttributeChunk o type m [partOf authoritative type e])
      (putAttributeChunk o type m₀ [partOf authoritative type e]) := by
  have hid := id_partOf authoritative type e
  rcases h.each type (partOf authoritative type e).id ht with hsettled | ⟨hsame, -⟩
  · cases hsettled with
    | written e' he' hid' member kept =>
        obtain rfl : e' = e := List.inj_on_of_nodup_map (hids type) he' he (hid'.trans hid)
        exact (kept.putAttributeChunk _).trans (putAttributeChunk_twice m₀ _)
    | evicted hgone' absent =>
        exact absurd (mem_ids_of_mem_entitiesOf he) (hgone type _ (hid ▸ hgone'))
  · exact hsame.kept.putAttributeChunk _

include haccepts hids hgone in
/-- A request of the merge settles the ids that it names. -/
theorem settled_of_names (h : Underway o authoritative r gone todo m₀ m) {q : CacheRequest}
    (hq : Belongs authoritative r gone q) (hid : q.Names type id) :
    Settled o authoritative r gone type id m₀ (Backend.respond o q m).1 := by
  cases hq with
  | @write t es ht hpart =>
      obtain ⟨rfl, hid⟩ := hid
      obtain ⟨e', he', rfl⟩ := List.mem_map.1 hid
      obtain ⟨e, he, rfl⟩ := List.mem_map.1 (hpart.subset he')
      have hnodup : (es.map Entity.id).Nodup := by
        refine (hpart.map Entity.id).sublist.nodup ?_
        rw [map_id_partOf]
        exact hids t
      obtain ⟨hmember, hkept⟩ :
          _ ∈ members o t (Backend.respond o (.write (modeOf authoritative t) t es) m).1 ∧ _ :=
        respond_write_entry (h.consistent t ht).takesIds
          (fun e he => isEmpty_of_mem_partOf haccepts (hpart.subset he)) hnodup he'
      exact .written e he (id_partOf authoritative t e).symm hmember (hkept.trans
        (h.put_again hids hgone ht he))
  | evict ht hall =>
      obtain ⟨rfl, hid⟩ := hid
      exact .evicted (hall id hid) (respond_evict_entry hid)
  | unlink => exact hid.elim

include haccepts hr hids hgone in
/-- A request of the merge brings it forward by the ids that it names. -/
theorem respond (h : Underway o authoritative r gone todo m₀ m) {q : CacheRequest}
    (hq : Belongs authoritative r gone q) :
    Underway o authoritative r gone (fun type id => todo type id ∧ ¬ q.Names type id) m₀
      (Backend.respond o q m).1 where
  consistent type ht := (h.consistent type ht).respond ht (regular hr hids hq)
  each type id ht := by
    by_cases hid : q.Names type id
    · exact .inl (h.settled_of_names haccepts hids hgone hq hid)
    · have hsame := sameEntry_respond (o := o) ht (h.consistent type ht).takesIds (regular hr hids hq) hid
      rcases h.each type id ht with hsettled | ⟨hbefore, htodo⟩
      · exact .inl (hsettled.trans hsame)
      · exact .inr ⟨hbefore.trans hsame, fun haimed => ⟨htodo haimed, hid⟩⟩

include haccepts hr hids hgone in
/-- A request that may fail brings the merge forward if it succeeds, and takes nothing back if it fails. -/
theorem leads (h : Underway o authoritative r gone todo m₀ m) {q : CacheRequest}
    (hq : Belongs authoritative r gone q) {out : Except Error q.Reply} (hleads : partway o q m m' out) :
    Underway o authoritative r gone todo m₀ m' ∧ (out.isOk →
      Underway o authoritative r gone (fun type id => todo type id ∧ ¬ q.Names type id) m₀ m') := by
  obtain ⟨q', hbegins, rfl, hall⟩ := leads_plan (regular hr hids hq).isRead hleads
  refine ⟨(h.respond haccepts hr hids hgone (hq.of_begins hbegins)).mono fun _ _ htodo => htodo.1,
    fun hok => ?_⟩
  obtain rfl := hall hok
  exact h.respond haccepts hr hids hgone hq

end Underway

/-! ## Phases -/

section Phases

open Plan (Secures)

variable {engine : Engine} (haccepts : engine.Accepts r) (hr : r.Suits Plain fun _ => True)
  (hids : ∀ type, ((r.entitiesOf type).map Entity.id).Nodup)
  (hgone : ∀ type id, gone type id → id ∉ r.ids type)

/-- Anything may still be to do. -/
abbrev Begun (o : Options) (authoritative : StringSet) (r : Report) (gone : String → String → Prop)
    (m₀ m : Cells) : Prop :=
  Underway o authoritative r gone (fun _ _ => True) m₀ m

include haccepts hr hids hgone

theorem secures_request {q : CacheRequest} (hq : Belongs authoritative r gone q) :
    Secures (partway o) (Underway o authoritative r gone todo m₀) (Plan.perform q)
      (fun _ => Underway o authoritative r gone (fun type id => todo type id ∧ ¬ q.Names type id) m₀)
      fun _ => Underway o authoritative r gone todo m₀ := by
  refine Plan.secures_perform fun m m' out h hleads => ?_
  obtain ⟨hbegun, hdone⟩ := h.leads haccepts hr hids hgone hq hleads
  cases out with
  | ok a => exact hdone rfl
  | error e => exact hbegun

theorem secures_writeAll :
    Secures (partway o)
      (Underway o authoritative r gone (fun type id => id ∈ r.ids type ∨ gone type id) m₀)
      (writeAll authoritative r) (fun _ => Underway o authoritative r gone gone m₀)
      fun _ => Begun o authoritative r gone m₀ := by
  let inv := fun (rest : List (String × List Entity)) => Underway o authoritative r gone
    (fun type id => gone type id ∨ ∃ es, (type, es) ∈ rest ∧ id ∈ es.map Entity.id) m₀
  refine (Plan.secures_forEach (fun rest (_ : MergeStats) => inv rest) ?_ {}).mono (fun m h => ?_)
    (fun _ m h => h.mono ?_) fun _ _ h => h
  · rintro ⟨t, es⟩ rest hsuffix stats
    have hmem : (t, es) ∈ r.entities.toList := hsuffix.subset List.mem_cons_self
    obtain rfl : r.entitiesOf t = es := StringMap.find_of_mem_toList hmem
    have hrest : ∀ m, Underway o authoritative r gone (fun type id => (gone type id ∨
        ∃ es, (type, es) ∈ (t, r.entitiesOf t) :: rest ∧ id ∈ es.map Entity.id) ∧
          ¬ (t = type ∧ id ∈ (r.entitiesOf t).map Entity.id)) m₀ m → inv rest m := by
      refine fun m h => h.mono fun type id htodo => htodo.1.imp_right ?_
      rintro ⟨es, hes, hid⟩
      rcases List.mem_cons.1 hes with heq | hes
      · obtain ⟨rfl, rfl⟩ := Prod.mk.inj heq
        exact absurd ⟨rfl, hid⟩ htodo.2
      · exact ⟨es, hes, hid⟩
    dsimp only
    by_cases hempty : (r.entitiesOf t).isEmpty
    · rw [if_pos hempty]
      refine Plan.secures_give fun m h => hrest m (h.mono fun type id htodo => ⟨htodo, ?_⟩)
      rw [List.isEmpty_iff.1 hempty]
      exact fun hid => List.not_mem_nil hid.2
    · rw [if_neg hempty, writeType_eq]
      have ht : Plain t := hr.types t (StringMap.mem_of_mem_toList hmem)
      refine Plan.secures_bind (fun _ => inv rest) ?_ fun _ => Plan.secures_give fun _ h => h
      refine (secures_request haccepts hr hids hgone
        (.write ht (List.prefix_refl ((r.entitiesOf t).map (partOf authoritative t))))).mono
        (fun _ h => h) (fun _ m h => hrest m ?_) fun _ _ h => h.mono fun _ _ _ => trivial
      simpa only [CacheRequest.Names, map_id_partOf] using h
  · exact h.mono fun type id htodo => htodo.symm.imp_right (KeepsIds.mem_ids r).1
  · rintro type id (h | ⟨es, hes, -⟩)
    · exact h
    · exact absurd hes List.not_mem_nil

theorem secures_unlinkType {t related : String} (ht : Plain t) (hrelated : Plain related)
    (byId : StringMap StringSet) (stats : MergeStats) :
    Secures (partway o) (Underway o authoritative r gone todo m₀) (unlinkType t stats related byId)
      (fun _ => Underway o authoritative r gone todo m₀)
      fun _ => Underway o authoritative r gone todo m₀ := by
  unfold unlinkType
  dsimp only
  refine Plan.secures_bind (fun _ => Underway o authoritative r gone todo m₀)
    (Plan.secures_attempt (Plan.secures_perform fun m m' out h hleads => ?_)) fun result => ?_
  · obtain ⟨rfl, -⟩ := leads_read rfl hleads
    cases out <;> exact h
  · cases result with
    | error e => exact Plan.secures_give fun _ h => h
    | ok holders =>
        refine Plan.secures_forEach (fun _ (_ : MergeStats) => Underway o authoritative r gone todo m₀)
          (fun p rest _ stats => ?_) stats
        dsimp only [unlinkOne]
        split
        · exact Plan.secures_give fun _ h => h
        · refine Plan.secures_bind (fun _ => Underway o authoritative r gone todo m₀)
            (Plan.secures_attempt ((secures_request haccepts hr hids hgone (.unlink hrelated ht)).mono
              (fun _ h => h) (fun _ m h => h.mono fun _ _ htodo => htodo.1) fun _ _ h => h))
            fun result => ?_
          cases result <;> exact Plan.secures_give fun _ h => h

/-- However the removal of references ends, it takes the merge neither forward nor back. -/
theorem secures_cascade {t : String} (ht : Plain t) (l : List String) (stats : MergeStats) :
    Secures (partway o) (Underway o authoritative r gone todo m₀) (cascade t l stats)
      (fun _ => Underway o authoritative r gone todo m₀)
      fun _ => Underway o authoritative r gone todo m₀ := by
  refine Plan.secures_bind (fun es m => Underway o authoritative r gone todo m₀ m ∧
    ∀ e ∈ es, ∀ related ∈ e.relationships, Plain related)
    (Plan.secures_perform fun m m' out h hleads => ?_) fun evicted m m' out hpre hleads => ?_
  · obtain ⟨rfl, hok⟩ := leads_read rfl hleads
    cases out with
    | error e => exact h
    | ok es =>
        refine ⟨h, fun e he related hrelated => ?_⟩
        obtain ⟨-, hrelationships⟩ := exists_of_mem_entities (hok es rfl) he
        rw [hrelationships] at hrelated
        have hlisted := NameFilter.mem_of_mem_select (mem_of_mem_relationshipsAt hrelated)
        exact (h.consistent t ht).types related (Std.ExtTreeSet.mem_toList.1 hlisted)
  · obtain ⟨h, hplain⟩ := hpre
    refine Plan.secures_forEach (fun _ (_ : MergeStats) => Underway o authoritative r gone todo m₀)
      ?_ stats m m' out h hleads
    rintro ⟨related, byId⟩ rest hsuffix stats
    have hmem : (related, byId) ∈ (references evicted).toList := hsuffix.subset List.mem_cons_self
    obtain ⟨e, he, hrelated⟩ := mem_references (StringMap.mem_of_mem_toList hmem)
    exact secures_unlinkType haccepts hr hids hgone ht (hplain e he related hrelated) byId stats

theorem secures_evictAll {evicted : StringMap StringSet} (htypes : ∀ t ∈ evicted, Plain t)
    (hfind : ∀ t x, x ∈ StringMap.find evicted t ↔ gone t x) (stats : MergeStats) :
    Secures (partway o) (Underway o authoritative r gone gone m₀) (evictAll evicted stats)
      (fun _ => Underway o authoritative r gone (fun _ _ => False) m₀)
      fun _ => Begun o authoritative r gone m₀ := by
  let inv := fun (rest : List (String × StringSet)) =>
    Underway o authoritative r gone (fun type id => ∃ ids, (type, ids) ∈ rest ∧ id ∈ ids) m₀
  refine (Plan.secures_forEach (fun rest (_ : MergeStats) => inv rest) ?_ stats).mono
    (fun m h => h.mono fun t x hx => ?_) (fun _ m h => h.mono ?_) fun _ _ h => h
  · rintro ⟨t, ids⟩ rest hsuffix stats
    have hmem : (t, ids) ∈ evicted.toList := hsuffix.subset List.mem_cons_self
    obtain rfl : StringMap.find evicted t = ids := StringMap.find_of_mem_toList hmem
    have ht : Plain t := htypes t (StringMap.mem_of_mem_toList hmem)
    have hrest : ∀ m, Underway o authoritative r gone (fun type id => (∃ ids,
        (type, ids) ∈ (t, StringMap.find evicted t) :: rest ∧ id ∈ ids) ∧
          ¬ (t = type ∧ id ∈ StringMap.find evicted t)) m₀ m → inv rest m := by
      refine fun m h => h.mono ?_
      rintro type id ⟨⟨ids, hmem, hid⟩, hnot⟩
      rcases List.mem_cons.1 hmem with heq | hmem
      · obtain ⟨rfl, rfl⟩ := Prod.mk.inj heq
        exact absurd ⟨rfl, hid⟩ hnot
      · exact ⟨ids, hmem, hid⟩
    dsimp only [evictType]
    by_cases hempty : (StringMap.find evicted t).isEmpty
    · rw [if_pos hempty]
      refine Plan.secures_give fun m h => hrest m (h.mono fun type id htodo => ⟨htodo, ?_⟩)
      rw [Std.ExtTreeSet.isEmpty_iff.1 hempty]
      exact fun hid => Std.ExtTreeSet.not_mem_empty hid.2
    · rw [if_neg hempty]
      have hlast : ∀ stats : MergeStats, Secures (partway o) (inv ((t, StringMap.find evicted t) :: rest))
          (do
            CachePlan.evict t (StringMap.find evicted t).toList
            return stats.hasEvicted t (StringMap.find evicted t).size)
          (fun _ => inv rest) fun _ => Begun o authoritative r gone m₀ := by
        intro stats
        refine Plan.secures_bind (fun _ => inv rest) ?_ fun _ => Plan.secures_give fun _ h => h
        refine (secures_request haccepts hr hids hgone (.evict ht fun id hid =>
          (hfind t id).1 (Std.ExtTreeSet.mem_toList.1 hid))).mono (fun _ h => h)
          (fun _ m h => hrest m ?_) fun _ _ h => h.mono fun _ _ _ => trivial
        simpa only [CacheRequest.Names, Std.ExtTreeSet.mem_toList] using h
      refine Plan.secures_bind (fun _ => inv ((t, StringMap.find evicted t) :: rest))
        (Plan.secures_attempt (secures_cascade haccepts hr hids hgone ht _ stats)) fun result => ?_
      cases result with
      | ok stats => exact hlast stats
      | error e => exact hlast stats.hasFailed
  · have hx' := (hfind t x).2 hx
    refine ⟨StringMap.find evicted t, StringMap.mem_toList_of_find_ne_empty fun hempty => ?_, hx'⟩
    rw [hempty] at hx'
    exact Std.ExtTreeSet.not_mem_empty hx'
  · rintro type id ⟨ids, hmem, -⟩
    exact absurd hmem List.not_mem_nil

end Phases

/-! ## Merging -/

section Merging

open Plan (Secures)

variable (engine : Engine) (source : Source) (authoritative : StringSet) (r : Report)

theorem strict_checkAll (l : List (String × String)) :
    (checkAll engine source l).Strict fun q => q.isRead := by
  induction l with
  | nil => trivial
  | cons p l ih =>
      unfold checkAll
      split
      · exact ih
      · trivial

theorem strict_scopedIds (type : String) (scope : Scope) :
    (scopedIds engine type scope).Strict fun q => q.isRead := by
  cases scope with
  | ids members => exact Plan.strict_perform rfl
  | everything => exact Plan.strict_bind (Plan.strict_perform rfl) fun _ => trivial
  | account provider name region => exact Plan.strict_bind (Plan.strict_perform rfl) fun _ => trivial

theorem strict_staleIds : (staleIds engine source authoritative r).Strict fun q => q.isRead :=
  Plan.strict_forEach (fun _ type => Plan.strict_bind (strict_scopedIds engine type source.scope)
    fun _ => Plan.strict_pure) _

variable (o) in
/-- The ids that a merge evicts from a store: those that it finds stale, and those that the report names. -/
def Evicts (m : Cells) (type id : String) : Prop :=
  id ∈ staleOf engine source authoritative r type (members o type m) ∨ id ∈ explicitIds r type

variable {engine source authoritative r}

theorem not_mem_ids_of_evicts (h : Evicts o engine source authoritative r m type id) : id ∉ r.ids type :=
  h.elim (KeepsIds.not_mem_ids_of_mem_staleOf engine source authoritative r) not_mem_ids_of_explicit

/-- A merge that fails has either changed nothing or gone some of the way. -/
theorem secures_mergeSnapshot (hauth : ∀ t ∈ authoritative, Plain t)
    (hr : r.Suits Plain fun _ => True) (hids : ∀ type, ((r.entitiesOf type).map Entity.id).Nodup)
    (h₀ : ∀ type, Plain type → Consistent o type m₀) :
    Secures (partway o) (fun m => m = m₀) (mergeSnapshot engine source authoritative r)
      (fun _ => Underway o authoritative r (Evicts o engine source authoritative r m₀)
        (fun _ _ => False) m₀)
      fun _ m => m = m₀ ∨
        engine.Accepts r ∧ Begun o authoritative r (Evicts o engine source authoritative r m₀) m₀ m := by
  refine Plan.secures_bind (fun _ m => m = m₀ ∧ engine.Accepts r) ?_ fun _ => ?_
  · rintro m m' out rfl hleads
    obtain ⟨rfl, hok⟩ := leads_reads (strict_checkAll engine source (namedIds r)) hleads
    cases out with
    | error e => exact .inl rfl
    | ok u =>
        have hcheck : Plan.Fulfils (Backend.respond o) (.alone _) (fun _ => True)
          (checkAll engine source (namedIds r)) _ _ := engine.fulfils_checkAll source (namedIds r)
        exact (hcheck.run trivial (hok u rfl)).imp_left fun _ => rfl
  refine Plan.secures_bind (fun stale m => m = m₀ ∧ engine.Accepts r ∧
    (∀ t, StringMap.find stale t = staleOf engine source authoritative r t (members o t m₀)) ∧
    ∀ t ∈ stale, t ∈ authoritative) ?_ fun stale => ?_
  · rintro m m' out ⟨rfl, haccepts⟩ hleads
    obtain ⟨rfl, hok⟩ := leads_reads (strict_staleIds engine source authoritative r) hleads
    cases out with
    | error e => exact .inl rfl
    | ok stale =>
        have hlists : ∀ t ∈ authoritative, Lists (Backend.respond o) (fun m => m = m') t (members o t) :=
          fun t _ => Medium.lists (.node o "") _ t
        have hstale : Plan.Fulfils (Backend.respond o) (.alone _) (fun m => m = m')
            (staleIds engine source authoritative r) _ fun _ _ => True :=
          engine.fulfils_staleIds source authoritative r (Plan.Conduct.stable_alone fun m => m = m')
            (fun _ => trivial) hlists fun t _ m m' hm _ => by rw [hm]
        obtain ⟨-, hfind, htypes⟩ := hstale.run rfl (hok stale rfl)
        exact ⟨rfl, haccepts, hfind, htypes⟩
  · rintro m m' out ⟨rfl, haccepts, hfind, htypes⟩ hleads
    have hnot : ∀ t x, Evicts o engine source authoritative r m t x → x ∉ r.ids t :=
      fun _ _ => not_mem_ids_of_evicts
    have hevictions : ∀ t x, x ∈ StringMap.find (evictions stale r) t ↔
        Evicts o engine source authoritative r m t x := by
      intro t x
      rw [KeepsIds.mem_evictions, hfind, Evicts]
    have happly : Secures (partway o) (Underway o authoritative r
        (Evicts o engine source authoritative r m) (fun t x => x ∈ r.ids t ∨
          Evicts o engine source authoritative r m t x) m) (apply authoritative r stale)
        (fun _ => Underway o authoritative r (Evicts o engine source authoritative r m)
          (fun _ _ => False) m)
        fun _ => Begun o authoritative r (Evicts o engine source authoritative r m) m :=
      Plan.secures_bind _ (secures_writeAll haccepts hr hids hnot) fun stats =>
        secures_evictAll haccepts hr hids hnot
          (fun t ht => tells_of_mem_evictions hr (fun t ht => hauth t (htypes t ht)) ht) hevictions stats
    exact happly.mono (fun _ h => h) (fun _ _ h => h) (fun _ _ h => .inr ⟨haccepts, h⟩) m m' out
      (.start h₀) hleads

/-! ## The repeated merge -/

variable {m₁ m₂ : Cells}

/-- Whether an id is evicted depends on nothing but whether it is there. -/
theorem evicts_congr (h : id ∈ members o type m' ↔ id ∈ members o type m) :
    Evicts o engine source authoritative r m' type id ↔ Evicts o engine source authoritative r m type id := by
  refine or_congr_left ?_
  unfold staleOf
  split
  · rw [staleIn, staleIn, StringSet.mem_filter, StringSet.mem_filter, h]
  · exact Iff.rfl

section Done

variable (h : Underway o authoritative r (Evicts o engine source authoritative r m₀) (fun _ _ => False) m₀ m)
  (ht : Plain type)

include h ht

/-- After a merge its entities are written. -/
theorem kept_of_done (hids : ∀ type, ((r.entitiesOf type).map Entity.id).Nodup) {e : Entity}
    (he : e ∈ r.entitiesOf type) : e.id ∈ members o type m ∧
      SameFor o type e.id m (putAttributeChunk o type m₀ [partOf authoritative type e]) := by
  have hid := mem_ids_of_mem_entitiesOf he
  rcases h.each type e.id ht with hsettled | ⟨-, htodo⟩
  · cases hsettled with
    | written e' he' hid' member kept =>
        obtain rfl : e' = e := List.inj_on_of_nodup_map (hids type) he' he hid'
        exact ⟨member, kept⟩
    | evicted hgone absent => exact absurd hid (not_mem_ids_of_evicts hgone)
  · exact (htodo (.inl hid)).elim

/-- After a merge its evictions are gone, and all else is as it was. -/
theorem sameEntry_of_done (hid : id ∉ r.ids type) :
    (Evicts o engine source authoritative r m₀ type id → id ∉ members o type m) ∧
      (¬ Evicts o engine source authoritative r m₀ type id → SameEntry o type id m₀ m) := by
  rcases h.each type id ht with hsettled | ⟨hsame, htodo⟩
  · cases hsettled with
    | written e he hid' member kept => exact absurd (hid' ▸ mem_ids_of_mem_entitiesOf he) hid
    | evicted hgone absent => exact ⟨fun _ => absent, fun hnot => absurd hgone hnot⟩
  · exact ⟨fun hgone => (htodo (.inr hgone)).elim, fun _ => hsame⟩

end Done

/-- A merge that was underway and is repeated leaves the same ids and attributes as one that was not cut
off. -/
theorem sameEntries_of_repeated (hids : ∀ type, ((r.entitiesOf type).map Entity.id).Nodup)
    (hcut : Begun o authoritative r (Evicts o engine source authoritative r m₀) m₀ m)
    (honce : Underway o authoritative r (Evicts o engine source authoritative r m₀)
      (fun _ _ => False) m₀ m₁)
    (hagain : Underway o authoritative r (Evicts o engine source authoritative r m)
      (fun _ _ => False) m m₂) (ht : Plain type) : SameEntries o type m₁ m₂ := by
  suffices heach : ∀ id, (id ∈ members o type m₂ ↔ id ∈ members o type m₁) ∧
      (id ∈ members o type m₁ → m₂ (o.attributesKey type id) = m₁ (o.attributesKey type id)) from
    ⟨Std.ExtTreeSet.ext_mem fun id => (heach id).1,
      fun id hid => congrArg Cell.attributes ((heach id).2 hid)⟩
  intro id
  by_cases hid : id ∈ r.ids type
  · obtain ⟨es, hes, hmem⟩ := (KeepsIds.mem_ids r).1 hid
    obtain rfl : r.entitiesOf type = es := StringMap.find_of_mem_toList hes
    obtain ⟨e, he, rfl⟩ := List.mem_map.1 hmem
    obtain ⟨hmember₁, hkept₁⟩ := kept_of_done honce ht hids he
    obtain ⟨hmember₂, hkept₂⟩ := kept_of_done hagain ht hids he
    refine ⟨iff_of_true hmember₂ hmember₁, fun _ => ?_⟩
    have hput := hcut.put_again hids (fun _ _ => not_mem_ids_of_evicts) ht he
    rw [id_partOf] at hput
    exact (hkept₂.trans (hput.trans hkept₁.symm)).attributes
  · obtain ⟨hgone₁, hsame₁⟩ := sameEntry_of_done honce ht hid
    obtain ⟨hgone₂, hsame₂⟩ := sameEntry_of_done hagain ht hid
    rcases hcut.each type id ht with hsettled | ⟨hsame, -⟩
    · cases hsettled with
      | written e he hid' member kept => exact absurd (hid' ▸ mem_ids_of_mem_entitiesOf he) hid
      | evicted hgone absent =>
          -- Evicted the first time, it is there after neither.
          have habsent₂ : id ∉ members o type m₂ := by
            by_cases hagain' : Evicts o engine source authoritative r m type id
            · exact hgone₂ hagain'
            · exact fun hmember => absent ((hsame₂ hagain').member.1 hmember)
          exact ⟨iff_of_false habsent₂ (hgone₁ hgone), fun hmember => absurd hmember (hgone₁ hgone)⟩
    · by_cases hgone : Evicts o engine source authoritative r m₀ type id
      · exact ⟨iff_of_false (hgone₂ ((evicts_congr hsame.member).2 hgone)) (hgone₁ hgone),
          fun hmember => absurd hmember (hgone₁ hgone)⟩
      · have hsame' := hsame₂ fun hagain' => hgone ((evicts_congr hsame.member).1 hagain')
        have hwhole := hsame.trans hsame'
        exact ⟨hwhole.member.trans (hsame₁ hgone).member.symm,
          fun _ => hwhole.kept.attributes.trans (hsame₁ hgone).kept.attributes.symm⟩

end Merging

end Engine

/-! ## Over a store -/

/-- Two stores show the same ids of a type, and the same attributes of each. -/
def ShowSame (o : Options) (type : String) (s s' : Store) : Prop :=
  (∃ ids, (Backend.keyValue o).Replies s (.identifiers type) (.ok ids) ∧
    (Backend.keyValue o).Replies s' (.identifiers type) (.ok ids)) ∧
  ∀ ids filter, ∃ read read', (Backend.keyValue o).Replies s (.entities type ids filter) read ∧
    (Backend.keyValue o).Replies s' (.entities type ids filter) read' ∧
    read'.map shown = read.map shown

theorem showSame_of_sameEntries {s s' : Store} (hs : s.Healthy) (hs' : s'.Healthy)
    (h : SameEntries o type s.cells s'.cells) : ShowSame o type s s' := by
  refine ⟨⟨members o type s.cells, Backend.replies_read hs rfl, ?_⟩, fun ids filter =>
    ⟨_, _, Backend.replies_read hs rfl, Backend.replies_read hs' rfl, h.shown_readReply ids filter⟩⟩
  rw [← h.members]
  exact Backend.replies_read hs' rfl

theorem isOk_iff_accepts {engine : Engine} {source : Source} {s s' : Store} (hs : s.Healthy)
    {out : Except Error MergeStats}
    (h : (Backend.keyValue o).EndsIn (engine.mergeSnapshot source authoritative r) s s' out) :
    out.isOk ↔ engine.Accepts r := by
  have hsound : (Medium.node o "").Sound s := hs
  constructor
  · intro hok
    obtain ⟨stats, rfl⟩ := Plan.exists_of_isOk hok
    exact Medium.accepts_of_endsIn hsound h
  · intro haccepts
    obtain ⟨s'', stats, hends, -⟩ : ∃ s'' stats, (Medium.node o "").backend.EndsIn
        (engine.mergeSnapshot source authoritative r) s s'' (.ok stats) ∧ _ :=
      Medium.endsIn_of_accepts hsound haccepts
    rw [(Backend.EndsIn.unique h hends).2]
    rfl

/-- A merge that ends by itself does all that it is to do. -/
theorem done_of_endsIn {engine : Engine} {source : Source} (hauth : ∀ t ∈ authoritative, Plain t)
    (hr : r.Suits Plain fun _ => True) (hids : ∀ type, ((r.entitiesOf type).map Entity.id).Nodup)
    {s s' : Store} (hs : s.Healthy) (hfits : ∀ type, Plain type → Consistent o type s.cells)
    (haccepts : engine.Accepts r) {out : Except Error MergeStats}
    (h : (Backend.keyValue o).EndsIn (engine.mergeSnapshot source authoritative r) s s' out) :
    Underway o authoritative r (Evicts o engine source authoritative r s.cells) (fun _ _ => False)
      s.cells s'.cells := by
  obtain ⟨stats, rfl⟩ := Plan.exists_of_isOk ((isOk_iff_accepts hs h).2 haccepts)
  exact secures_mergeSnapshot hauth hr hids hfits s.cells s'.cells (.ok stats) rfl
    (leads_work hs (Plan.EndsIn.leads h)).2

/-- A merge that failed because requests to the store did, and is repeated once the store answers, ends as
it would have ended at first: it is refused as before, or it succeeds and leaves the ids and attributes of
every type as if it had succeeded at once. -/
theorem merge_after_failed_merge {name : String} {s s' : Store} (hs : Attained o name s)
    (engine : Engine) (source : Source) {authoritative : StringSet} (hauth : ∀ t ∈ authoritative, Plain t)
    {r : Report} (hr : r.Suits Plain fun _ => True)
    (hids : ∀ type, ((r.entitiesOf type).map Entity.id).Nodup) {e : Error}
    (hfailed : ((Backend.keyValue o).work (engine.mergeSnapshot source authoritative r)).Leads
      Store.faltering s s' (.error e)) :
    ∃ s₁ s₂ once again,
      (Backend.keyValue o).EndsIn (engine.mergeSnapshot source authoritative r) s s₁ once ∧
      (Backend.keyValue o).EndsIn (engine.mergeSnapshot source authoritative r) s' s₂ again ∧
      (once.isOk ↔ engine.Accepts r) ∧ (again.isOk ↔ engine.Accepts r) ∧
      ∀ type, Plain type → ShowSame o type s₁ s₂ := by
  have hfits : ∀ type, Plain type → Consistent o type s.cells := fun type ht => (hs.consistent ht).2
  have hhealthy : s.Healthy := (hs.consistent (by decide : Plain "")).1
  obtain ⟨hhealthy', hleads⟩ := leads_work hhealthy hfailed
  let p := engine.mergeSnapshot source authoritative r
  obtain ⟨s₁, honce, hhealthy₁, hcells₁⟩ := Backend.keyValue_endsIn (o := o) hhealthy p
  obtain ⟨s₂, hagain, hhealthy₂, hcells₂⟩ := Backend.keyValue_endsIn (o := o) hhealthy' p
  refine ⟨s₁, s₂, _, _, honce, hagain, isOk_iff_accepts hhealthy honce, isOk_iff_accepts hhealthy' hagain,
    fun type ht => showSame_of_sameEntries hhealthy₁ hhealthy₂ ?_⟩
  rcases secures_mergeSnapshot hauth hr hids hfits s.cells s'.cells _ rfl hleads with
    hsame | ⟨haccepts, hcut⟩
  · rw [hcells₁, hcells₂, hsame]
    exact ⟨rfl, fun _ _ => rfl⟩
  · exact sameEntries_of_repeated hids hcut (done_of_endsIn hauth hr hids hhealthy hfits haccepts honce)
      (done_of_endsIn hauth hr hids hhealthy' hcut.consistent haccepts hagain) ht

/-! ## An example on one node -/

/-- A store that answers a number of requests and fails from then on. -/
def Store.failingAfter : Plan.Responder StoreRequest StoreRequest.Reply (Store × Nat) :=
  fun r (s, n) =>
    match n, s.answer r with
    | n + 1, (s', some reply) => ((s', n), reply)
    | _, _ => ((s, 0), .error (.unavailable s.name .writesFail))

/-- What happens over such a store may happen over one that fails now and then. -/
theorem Store.leads_failingAfter {α : Type} (p : StorePlan α) (s : Store) (n : Nat) :
    p.Leads faltering s (p.run failingAfter (s, n)).1.1 (p.run failingAfter (s, n)).2 := by
  have hanswer : ∀ (r : StoreRequest) (s : Store) (n : Nat),
      faltering r s (failingAfter r (s, n)).1.1 (failingAfter r (s, n)).2 := by
    intro r s n
    cases n with
    | zero => exact .inr ⟨rfl, _, rfl⟩
    | succ n =>
        unfold failingAfter
        rcases hs : s.answer r with ⟨s', _ | reply⟩ <;> dsimp only
        · exact .inr ⟨by rw [hs], _, by rw [hs]⟩
        · rw [hs]
          exact .inl hs
  induction p generalizing s n with
  | done result => exact ⟨rfl, rfl⟩
  | ask r next ih => exact ⟨_, _, hanswer r s n, ih _ _ _⟩
  | note a next ih => exact ih s n

/-- A node with three entities. -/
def threeOnNode : Store :=
  (((Backend.keyValue {}).work (CachePlan.write .union "t" threeIds)).follow Store.answer
    (.single { name := "kv" })).state

/-- A report that gives one of them attributes, and names a new one. -/
def twoNumbered : Report where
  entities := (∅ : StringMap (List Entity)).insert "t"
    [{ id := "b", attributes := numbered 1 }, { id := "d", attributes := numbered 2 }]

theorem entitiesOf_twoNumbered (type : String) : twoNumbered.entitiesOf type =
    if "t" = type then [{ id := "b", attributes := numbered 1 }, { id := "d", attributes := numbered 2 }]
    else [] := by
  rw [Report.entitiesOf, StringMap.find, twoNumbered, Std.ExtTreeMap.getElem?_insert]
  by_cases h : "t" = type <;> simp [h]

theorem suits_twoNumbered {tells : String → Prop} (ht : tells "t") :
    twoNumbered.Suits tells fun _ => True where
  types type h := by
    obtain rfl : "t" = type := by simpa [twoNumbered, StringMap.mem_insert_iff] using h
    exact ht
  evictedTypes type h := by simp [twoNumbered] at h
  entities type e he := by
    have hnone : e.relationships = ∅ := by
      rw [entitiesOf_twoNumbered] at he
      split at he
      · simp only [List.mem_cons, List.not_mem_nil, or_false] at he
        rcases he with rfl | rfl <;> rfl
      · exact absurd he List.not_mem_nil
    exact ⟨fun _ => trivial, fun t ht => by simp [hnone] at ht⟩

theorem nodup_twoNumbered (type : String) : ((twoNumbered.entitiesOf type).map Entity.id).Nodup := by
  rw [entitiesOf_twoNumbered]
  split <;> simp

/-- Merging the report, for a source that answers for two of the entities. -/
def mergeNumbered : CachePlan MergeStats := unchecked.mergeSnapshot ofTwo (.ofList ["t"]) twoNumbered

/-- The merge fails at its last request: the report has been written, and the entity that it does not name
has not yet been evicted. Then it is repeated. -/
theorem merge_again_on_node : ∃ s' e,
    Attained {} "kv" threeOnNode ∧ (∀ t ∈ (.ofList ["t"] : StringSet), Plain t) ∧
    twoNumbered.Suits Plain (fun _ => True) ∧
    (∀ type, ((twoNumbered.entitiesOf type).map Entity.id).Nodup) ∧
    ((Backend.keyValue {}).work mergeNumbered).Leads Store.faltering threeOnNode s' (.error e) ∧
    members {} "t" s'.cells = .ofList ["a", "b", "c", "d"] ∧
    ∃ s₁ s₂ once again,
      (Backend.keyValue {}).EndsIn mergeNumbered threeOnNode s₁ once ∧
      (Backend.keyValue {}).EndsIn mergeNumbered s' s₂ again ∧ once.isOk ∧ again.isOk ∧
      ShowSame {} "t" s₁ s₂ := by
  have ht : Plain "t" := by decide
  have hs : Attained {} "kv" threeOnNode :=
    Attained.fresh.follow (regular_write ht (by decide) (by simp [threeIds]))
  have hauth : ∀ t ∈ (.ofList ["t"] : StringSet), Plain t := by
    intro t hmem
    obtain rfl : "t" = t := by simpa using hmem
    exact ht
  have haccepts : unchecked.Accepts twoNumbered := by
    obtain ⟨s₁, honce, -⟩ := Backend.keyValue_endsIn (o := {}) (hs.consistent ht).1 mergeNumbered
    exact (isOk_iff_accepts (hs.consistent ht).1 honce).1 (by decide +kernel)
  let run := ((Backend.keyValue {}).work mergeNumbered).run Store.failingAfter (threeOnNode, 7)
  have hleads : ((Backend.keyValue {}).work mergeNumbered).Leads Store.faltering threeOnNode run.1.1
      run.2 := Store.leads_failingAfter _ threeOnNode 7
  obtain ⟨e, he⟩ : ∃ e, run.2 = .error e := Plan.exists_error_of_isOk (by decide +kernel)
  rw [he] at hleads
  obtain ⟨s₁, s₂, once, again, honce, hagain, hok₁, hok₂, hsame⟩ := merge_after_failed_merge hs unchecked
    ofTwo hauth (suits_twoNumbered ht) nodup_twoNumbered hleads
  exact ⟨run.1.1, e, hs, hauth, suits_twoNumbered ht, nodup_twoNumbered, hleads, by decide +kernel, s₁, s₂,
    once, again, honce, hagain, hok₁.2 haccepts, hok₂.2 haccepts, hsame "t" ht⟩

end Inventory
