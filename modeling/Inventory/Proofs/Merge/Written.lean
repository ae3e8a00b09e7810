import Inventory.Proofs.Cache.Written
import Inventory.Proofs.KeyValue.Written
import Inventory.Proofs.Merge.Refusal
import Inventory.Proofs.Merge.Sights

/-!
# Inventory.Proofs.Merge.Written

What a write leaves of its entities, in memory and over a key-value store.

In a cache that requests lead to (`Medium.InOrder`), a write leaves its entities written with all their
references (`Medium.holds_write`, `Medium.bound_write`). As long as no reference has been taken from
them, the same write changes nothing that can be read (`Medium.same_write`), and neither does an eviction
of entities that are not there (`Medium.same_evict`).
-/

namespace Inventory

open KeyValue Engine

namespace Medium

variable {medium : Medium} {mode : WriteMode} {type : String} {e : Entity} {es : List Entity}

/-! ## Caches in order -/

/-- What reads and writes rely on, whatever the attributes are. -/
def InOrder : (medium : Medium) → medium.View → Prop
  | memory _ => fun _ => True
  | node o _ => fun m : Cells => ∀ type, Plain type →
      (m (o.membersKey type)).takesMembers ∧ Indexed o type m

theorem inOrder_fresh (medium : Medium) : medium.InOrder (medium.view medium.fresh) := by
  cases medium with
  | memory name => trivial
  | node o name =>
      have hfresh : (node o name).view (node o name).fresh = fun _ => {} := Store.cells_fresh name
      rw [hfresh]
      exact fun type _ => ⟨rfl, .empty o type⟩

variable {m m' m'' : medium.View}

theorem InOrder.respond (h : medium.InOrder m) {q : CacheRequest}
    (hq : q.Suits medium.Tells fun _ => True) :
    medium.InOrder (medium.respond q m).1 := by
  cases medium with
  | memory name => trivial
  | node o name =>
      exact fun type ht => ⟨(keepsIds_keyValue o ht).stays q m (h type ht).1, (h type ht).2.respond ht hq⟩

theorem InOrder.takesIds (h : medium.InOrder m) (ht : medium.Tells type) : medium.TakesIds type m := by
  cases medium with
  | memory name => trivial
  | node o name => exact (h type ht).1

/-- What a write makes of the ids of any type. -/
theorem InOrder.mem_ids_write (h : medium.InOrder m) (ht : medium.Tells type) {t : String}
    (ht' : medium.Tells t) (hes : ∀ e ∈ es, e.id.isEmpty = false) {x : String} :
    x ∈ medium.ids t (medium.respond (.write mode type es) m).1 ↔
      x ∈ medium.ids t m ∨ type = t ∧ x ∈ es.map Entity.id := by
  by_cases htype : type = t
  · subst htype
    rw [(keepsIds ht).write m mode es (h.takesIds ht) (respond_write_snd mode type hes m), and_iff_right rfl]
  · rw [(keepsIds ht').other _ m (h.takesIds ht') (by simpa [CacheRequest.changesIdsOf] using htype)]
    exact (or_iff_left fun hc => htype hc.1).symm

/-- What an eviction makes of the ids of any type. -/
theorem InOrder.mem_ids_evict (h : medium.InOrder m) (ht : medium.Tells type) {t : String}
    (ht' : medium.Tells t) {ids : List String} {x : String} :
    x ∈ medium.ids t (medium.respond (.evict type ids) m).1 ↔
      x ∈ medium.ids t m ∧ ¬ (type = t ∧ x ∈ ids) := by
  by_cases htype : type = t
  · subst htype
    rw [(keepsIds ht).evict m ids (h.takesIds ht) (respond_evict_snd type ids m), and_iff_right rfl]
  · rw [(keepsIds ht').other _ m (h.takesIds ht') (by simpa [CacheRequest.changesIdsOf] using htype)]
    exact (and_iff_left fun hc => htype hc.1).symm

/-- Only names that can be told apart are read. -/
theorem InOrder.tells_of_entities (h : medium.InOrder m) (ht : medium.Tells type)
    {ids : Option (List String)} {filter : Option NameFilter}
    (hreply : (medium.respond (.entities type ids filter) m).2 = .ok es) (he : e ∈ es) {related : String}
    (hrelated : related ∈ e.relationships) : medium.Tells related := by
  cases medium with
  | memory name => trivial
  | node o name =>
      rw [(exists_of_mem_entities hreply he).2] at hrelated
      exact (h type ht).2.types related (Std.ExtTreeSet.mem_toList.1
        (NameFilter.mem_of_mem_select (mem_of_mem_relationshipsAt hrelated)))

/-! ## Caches that show the same -/

/-- Nothing that can be read tells one from the other. -/
def Same : (medium : Medium) → medium.View → medium.View → Prop
  | memory _ => fun m m' => m' = m
  | node o _ => fun m m' => ∀ type, Plain type → SameShown o type m m'

theorem Same.refl (medium : Medium) (m : medium.View) : medium.Same m m := by
  cases medium with
  | memory name => rfl
  | node o name => exact fun type _ => .refl o type m

theorem Same.trans (h : medium.Same m m') (h' : medium.Same m' m'') : medium.Same m m'' := by
  cases medium with
  | memory name => exact Eq.trans h' h
  | node o name => exact fun type ht => (h type ht).trans (h' type ht)

theorem Same.reply (h : medium.Same m m') {q : CacheRequest} (hq : q.isRead) (ht : medium.Tells q.type) :
    (medium.respond q m').2 = (medium.respond q m).2 := by
  cases medium with
  | memory name =>
      obtain rfl : m' = m := h
      rfl
  | node o name =>
      have hread : ∀ c : Cells, (Backend.respond o q c).2 = readReply o c q := fun c =>
        congrArg Prod.snd (Backend.respond_read hq c)
      exact (hread m').trans ((h q.type ht).readReply_congr.trans (hread m).symm)

/-! ## What a write leaves -/

/-- The entity has been written, and since then references at most have been taken from it. -/
def Holds : (medium : Medium) → WriteMode → String → Entity → medium.View → Prop
  | memory _, mode, type, e => Memory.Holds mode type e
  | node o _, mode, type, e => KeyValue.Holds o mode type e

/-- All references that the entity holds are there. -/
def Bound : (medium : Medium) → String → Entity → medium.View → Prop
  | memory _, type, e => Memory.Bound type e
  | node o _, type, e => KeyValue.Bound o type e

/-- A request about another type changes nothing of a type. -/
theorem recordsOf_other {q : CacheRequest} (ht : q.type ≠ type) (m : Memory) :
    (Backend.remember q m).1.recordsOf type = m.recordsOf type := by
  cases q with
  | write mode t es => exact (Memory.recordsOf_write m mode t es type).trans (if_neg ht)
  | evict t l => exact (Memory.recordsOf_evict m t l type).trans (if_neg ht)
  | unlink t l related targets =>
      exact (Memory.recordsOf_unlink m t l related targets type).trans (if_neg ht)
  | _ => rfl

theorem slot_other {o : Options} {q : CacheRequest} (ht : Plain type) (hq : Plain q.type)
    (hne : q.type ≠ type) (m : Cells) (slot : Slot) :
    (Backend.respond o q m).1 (slot.key o type) = m (slot.key o type) :=
  respond_other (fun _ hkey => hne (Slot.eq_of_key_eq_of_plain ht hq hkey).symm) m

theorem Holds.other (h : medium.Holds mode type e m) {q : CacheRequest} (ht : medium.Tells type)
    (hq : medium.Tells q.type) (hne : q.type ≠ type) :
    medium.Holds mode type e (medium.respond q m).1 := by
  cases medium with
  | memory name => exact Memory.Holds.of_recordsOf h (recordsOf_other hne m)
  | node o name => exact KeyValue.Holds.of_slots h (slot_other ht hq hne m)

theorem Bound.other (h : medium.Bound type e m) {q : CacheRequest} (ht : medium.Tells type)
    (hq : medium.Tells q.type) (hne : q.type ≠ type) :
    medium.Bound type e (medium.respond q m).1 := by
  cases medium with
  | memory name => exact Memory.Bound.of_recordsOf h (recordsOf_other hne m)
  | node o name => exact KeyValue.Bound.of_slots h (slot_other ht hq hne m)

section Write

variable (h : medium.InOrder m) (ht : medium.Tells type) (hids : (es.map Entity.id).Nodup)
  (hes : ∀ e ∈ es, e.id.isEmpty = false) (hplain : ∀ e ∈ es, ∀ t ∈ e.relationships, medium.Tells t)

include h ht hids hes hplain

theorem holds_write (he : e ∈ es) :
    medium.Holds mode type e (medium.respond (.write mode type es) m).1 := by
  cases medium with
  | memory name => exact Memory.holds_write hids hes he m
  | node o name =>
      have hcells : (Backend.respond o (.write mode type es) m).1 = put o mode type m es :=
        congrArg Prod.fst (respond_write hes m)
      exact hcells ▸ holds_put hplain hids (h type ht).1 (h type ht).2 he

theorem bound_write (he : e ∈ es) :
    medium.Bound type e (medium.respond (.write mode type es) m).1 := by
  cases medium with
  | memory name => exact Memory.bound_write hids hes he m
  | node o name =>
      have hcells : (Backend.respond o (.write mode type es) m).1 = put o mode type m es :=
        congrArg Prod.fst (respond_write hes m)
      exact hcells ▸ bound_put hplain hids (h type ht).2 he

/-- Entities that are there with all their references may be written again. -/
theorem same_write (hne : es ≠ []) (hwritten : ∀ e ∈ es, medium.Holds mode type e m)
    (hbound : ∀ e ∈ es, medium.Bound type e m) :
    medium.Same m (medium.respond (.write mode type es) m).1 := by
  cases medium with
  | memory name => exact Memory.answer_write_eq_self hne hes hwritten hbound
  | node o name =>
      intro type' ht'
      by_cases htype : type = type'
      · subst htype
        have hcells : (Backend.respond o (.write mode type es) m).1 = put o mode type m es :=
          congrArg Prod.fst (respond_write hes m)
        exact hcells ▸ sameShown_put hplain hids (h type ht).1 (h type ht).2 hwritten hbound
      · exact .of_slots (slot_other (q := .write mode type es) ht' ht htype m)

end Write

section Evict

variable (h : medium.InOrder m) (ht : medium.Tells type) {t : String} (ht' : medium.Tells t)
  {ids : List String}

include h ht ht'

theorem Holds.evict (hplain : ∀ t ∈ e.relationships, medium.Tells t)
    (hw : medium.Holds mode type e m) (hid : t = type → e.id ∉ ids) :
    medium.Holds mode type e (medium.respond (.evict t ids) m).1 := by
  by_cases htype : t = type
  · subst htype
    cases medium with
    | memory name => exact Memory.Holds.evict hw (hid rfl)
    | node o name =>
        have hcells : (Backend.respond o (.evict t ids) m).1 =
            Cells.applyAll m (evictAll o t (typesOf o t m) ids) := congrArg Prod.fst (respond_evict m ids)
        exact hcells ▸ KeyValue.Holds.evict hplain hw (h t ht).2 (hid rfl)
  · exact hw.other ht ht' htype

theorem Bound.evict (hplain : ∀ t ∈ e.relationships, medium.Tells t)
    (hb : medium.Bound type e m) (hid : t = type → e.id ∉ ids) :
    medium.Bound type e (medium.respond (.evict t ids) m).1 := by
  by_cases htype : t = type
  · subst htype
    cases medium with
    | memory name => exact Memory.Bound.evict hb (hid rfl)
    | node o name =>
        have hcells : (Backend.respond o (.evict t ids) m).1 =
            Cells.applyAll m (evictAll o t (typesOf o t m) ids) := congrArg Prod.fst (respond_evict m ids)
        exact hcells ▸ KeyValue.Bound.evict hplain hb (h t ht).2 (hid rfl)
  · exact hb.other ht ht' htype

omit ht in
/-- An eviction of entities that are not there. -/
theorem same_evict (habsent : ∀ id ∈ ids, id ∉ medium.ids t m) :
    medium.Same m (medium.respond (.evict t ids) m).1 := by
  cases medium with
  | memory name => exact Memory.answer_evict_eq_self habsent
  | node o name =>
      intro type' ht''
      by_cases htype : t = type'
      · subst htype
        have hcells : (Backend.respond o (.evict t ids) m).1 =
            Cells.applyAll m (evictAll o t (typesOf o t m) ids) := congrArg Prod.fst (respond_evict m ids)
        exact hcells ▸ sameShown_evict (h t ht').2 habsent
      · exact .of_slots (slot_other (q := .evict t ids) ht'' ht' htype m)

end Evict

theorem Holds.unlink (hplain : ∀ t ∈ e.relationships, medium.Tells t) (ht : medium.Tells type)
    (hw : medium.Holds mode type e m) {t : String} (ht' : medium.Tells t) (ids : List String)
    {related : String} (hr : medium.Tells related) (targets : List String) :
    medium.Holds mode type e (medium.respond (.unlink t ids related targets) m).1 := by
  by_cases htype : t = type
  · subst htype
    cases medium with
    | memory name => exact Memory.Holds.unlink hw ids related targets
    | node o name =>
        have hcells : (Backend.respond o (.unlink t ids related targets) m).1 =
            Cells.applyAll m (unlinkAll o t ids related targets) :=
          congrArg Prod.fst (respond_unlink m ids related targets)
        exact hcells ▸ KeyValue.Holds.unlink hplain hw ids hr targets
  · exact hw.other ht ht' htype

/-- References of an entity are there in caches that show the same. -/
theorem Bound.of_same (h : medium.InOrder m) (hplain : ∀ t ∈ e.relationships, medium.Tells t)
    (ht : medium.Tells type) (hb : medium.Bound type e m) (hw : medium.Holds mode type e m)
    (hsame : medium.Same m m') : medium.Bound type e m' := by
  cases medium with
  | memory name =>
      obtain rfl : m' = m := hsame
      exact hb
  | node o name => exact KeyValue.Bound.of_same hplain hb (h type ht).2 hw.member (hsame type ht)

/-! ## Entities that are not there -/

/-- None of some ids is there. -/
def Lacks (medium : Medium) (gone : StringMap StringSet) (m : medium.View) : Prop :=
  ∀ t, medium.Tells t → ∀ x ∈ StringMap.find gone t, x ∉ medium.ids t m

variable {gone : StringMap StringSet}

theorem Lacks.write (h : medium.Lacks gone m) (hm : medium.InOrder m) (ht : medium.Tells type)
    (hes : ∀ e ∈ es, e.id.isEmpty = false ∧ e.id ∉ StringMap.find gone type) :
    medium.Lacks gone (medium.respond (.write mode type es) m).1 := by
  intro t ht' x hx
  rw [hm.mem_ids_write ht ht' fun e he => (hes e he).1]
  rintro (hold | ⟨rfl, hnew⟩)
  · exact h t ht' x hx hold
  · obtain ⟨e, he, rfl⟩ := List.mem_map.1 hnew
    exact (hes e he).2 hx

theorem Lacks.evict (h : medium.Lacks gone m) (hm : medium.InOrder m) (ht : medium.Tells type)
    (ids : List String) : medium.Lacks gone (medium.respond (.evict type ids) m).1 := by
  intro t ht' x hx
  rw [hm.mem_ids_evict ht ht']
  exact fun hmem => h t ht' x hx hmem.1

/-- Of entities that are not there nothing is read. -/
theorem respond_entities_absent {ids : List String} (h : ∀ id ∈ ids, id ∉ medium.ids type m)
    (filter : Option NameFilter) :
    medium.respond (.entities type (some ids) filter) m = (m, .ok []) := by
  have hids : ∀ id ∈ firstOccurrences ids, id ∉ medium.ids type m := fun id hid =>
    h id (mem_firstOccurrences.1 hid)
  cases medium with
  | memory name =>
      refine congrArg (fun es => (m, Except.ok es)) (List.filterMap_eq_nil_iff.2 fun id hid => ?_)
      have hnone : id ∉ StringMap.keySet (Memory.recordsOf m type) := hids id hid
      rw [StringMap.mem_keySet] at hnone
      rw [Std.ExtTreeMap.getElem?_eq_none hnone]
      rfl
  | node o name =>
      have hpresent : presentIds o type m (some ids) = [] :=
        List.filter_eq_nil_iff.2 fun id hid => by
          rw [Std.ExtTreeSet.contains_iff_mem]
          exact hids id hid
      refine (Backend.respond_read rfl m).trans ?_
      simp only [readReply, hpresent, List.mapM_nil]
      rfl

end Medium

end Inventory
