import Inventory.Proofs.KeyValue.Versions
import Inventory.Proofs.Merge.Unlinking
import Inventory.Proofs.Merge.Written

/-!
# Inventory.Proofs.Merge.Attributes

The attributes of the entities that are there.

An entity that is written has the attributes it was written with, unless it was written without any, and
no other entity has others than before (`Medium.look_write`). Over a key-value store this rests on the
digests: attributes are skipped only if those that are there have the same digest, and digests tell
attributes apart.
-/

namespace Inventory

open KeyValue

/-! ## Under keys -/

theorem Entity.Suits.mono {tells : String → Prop} {stores stores' : Attributes → Prop} {e : Entity}
    (h : e.Suits tells stores) (hstores : ∀ a, stores a → stores' a) : e.Suits tells stores' :=
  ⟨fun hne => hstores _ (h.attributes hne), h.related⟩

theorem CacheRequest.Suits.mono {tells : String → Prop} {stores stores' : Attributes → Prop}
    {q : CacheRequest} (h : q.Suits tells stores) (hstores : ∀ a, stores a → stores' a) :
    q.Suits tells stores' := by
  cases q with
  | write mode type es => exact ⟨h.1, fun e he => (h.2 e he).mono hstores⟩
  | _ => exact h

namespace KeyValue

variable {o : Options} {W : Attributes → Prop} {mode : WriteMode} {type : String} {m : Cells}
  {e : Entity} {es : List Entity}

theorem Faithful.storable (h : Faithful o W) (a : Attributes) (ha : W a) : Storable o a := by
  rw [Storable, h.decode a ha]
  rfl

/-- What reads and writes of a type rely on, and that its digests are those of what is there. -/
structure Kept (o : Options) (W : Attributes → Prop) (type : String) (m : Cells) : Prop
    extends Listed o type m where
  takesIds : (m (o.membersKey type)).takesMembers
  attested : Attested o W type m

namespace Kept

theorem empty (o : Options) (W : Attributes → Prop) (type : String) : Kept o W type fun _ => {} where
  toListed := .empty o type
  takesIds := rfl
  attested := .empty o W type

/-- Every request keeps it so. -/
theorem respond (hW : Faithful o W) (ht : Plain type) (h : Kept o W type m) {q : CacheRequest}
    (hq : q.Suits Plain W) : Kept o W type (Backend.respond o q m).1 where
  toListed := h.toListed.respond ht (hq.mono hW.storable)
  takesIds := (keepsIds_keyValue o ht).stays q m h.takesIds
  attested := by
    cases q with
    | write mode t es => exact h.attested.respond ht ⟨hq.1, fun e he => (hq.2 e he).attributes⟩
    | evict t ids => exact h.attested.respond ht (r := .evict t ids) hq
    | unlink t ids related targets =>
        exact h.attested.respond ht (r := .unlink t ids related targets) hq.1
    | _ =>
        rw [Backend.respond_read rfl]
        exact h.attested

end Kept

/-! ### Writes -/

/-- Attributes that are written can be read, whether they are skipped or not. -/
theorem attributes_put_of_mem (hW : Faithful o W) (h : Attested o W type m)
    (hids : (es.map Entity.id).Nodup) (he : e ∈ es) (hne : e.attributes ≠ []) (ha : W e.attributes) :
    (put o mode type m es (o.attributesKey type e.id)).attributes = .ok e.attributes := by
  have hsame : SameFor o type e.id (put o mode type m es) (putAttributeChunk o type m [e]) :=
    sameFor_put_of_mem hids he m
  rw [hsame.attributes, putAttributeChunk_attributes]
  have hempty : e.attributes.isEmpty = false := by simpa using hne
  cases hskips : skips o ((m (o.digestsKey type)).field? e.id) e with
  | true =>
      rw [hempty, Bool.false_or, if_pos rfl]
      simp only [skips, Bool.and_eq_true, beq_iff_eq] at hskips
      obtain ⟨-, a, ha', hdigest, hvalue⟩ := h e.id _ hskips.2
      rw [Cell.attributes_of_value hvalue, hW.decode a ha', hW.eq_of_digest ha ha' hdigest]
  | false =>
      rw [hempty, Bool.false_or, if_neg (by simp)]
      exact hW.decode e.attributes ha

/-- The attributes of an entity that is there. -/
def look (o : Options) (m : Cells) (type id : String) : Option (Except Error Attributes) :=
  (sights o m type id).map Sight.attributes

theorem look_of_mem (ht : Plain type) {id : String} (hid : id ∈ members o type m) :
    look o m type id = some (m (o.attributesKey type id)).attributes := by
  rw [look, sights, if_pos ⟨ht, hid⟩, Option.map_some]

theorem look_of_not_mem {id : String} (hid : id ∉ members o type m) : look o m type id = none := by
  rw [look, sights, if_neg fun hc => hid hc.2, Option.map_none]

theorem exists_of_look (h : Plain type → Listed o type m) {id : String} {read : Except Error Attributes}
    (hlook : look o m type id = some read) : ∃ a, read = .ok a := by
  unfold look sights at hlook
  split at hlook
  · next hc =>
    obtain rfl := Option.some.inj hlook
    exact Plan.exists_of_isOk ((h hc.1).readable id)
  · contradiction

section Write

variable (ht : Plain type) (hids : (es.map Entity.id).Nodup)
  (hes : ∀ e ∈ es, e.id.isEmpty = false) (hm : (m (o.membersKey type)).takesMembers)

include ht hids hes hm

theorem look_write_of_not_mem {id : String} (hid : id ∉ es.map Entity.id) :
    look o (Backend.respond o (.write mode type es) m).1 type id = look o m type id := by
  have hsame : SameFor o type id (put o mode type m es) m := sameFor_put_of_not_mem hids hid m
  have hmember : id ∈ members o type (put o mode type m es) ↔ id ∈ members o type m := by
    rw [members, (putChunks_members mode hm (batches o.mergeBatch es)).2, flatten_batches]
    exact or_iff_left hid
  rw [respond_write hes]
  by_cases hc : id ∈ members o type m
  · rw [look_of_mem ht hc, look_of_mem ht (hmember.2 hc), hsame.attributes]
  · rw [look_of_not_mem hc, look_of_not_mem fun hc' => hc (hmember.1 hc')]

omit hids in
theorem look_write_of_mem (he : e ∈ es) :
    look o (Backend.respond o (.write mode type es) m).1 type e.id =
      some (put o mode type m es (o.attributesKey type e.id)).attributes := by
  have hmember : e.id ∈ members o type (put o mode type m es) := by
    rw [members, (putChunks_members mode hm (batches o.mergeBatch es)).2, flatten_batches]
    exact .inr (List.mem_map_of_mem he)
  rw [respond_write hes]
  exact look_of_mem ht hmember

end Write

end KeyValue

/-! ## In memory -/

namespace Memory

variable {mode : WriteMode} {type : String} {e : Entity} {es : List Entity}

/-- The attributes of an entity that is there. -/
def look (m : Memory) (type id : String) : Option (Except Error Attributes) :=
  (m.sights type id).map Sight.attributes

theorem look_eq (m : Memory) (type id : String) :
    m.look type id = ((m.recordsOf type)[id]?).map fun r => .ok r.attributes := by
  rw [look, sights, Option.map_map]
  rfl

variable (hes : ∀ e ∈ es, e.id.isEmpty = false) (m : Memory)

include hes

theorem look_write_of_not_mem {type' id : String} (hid : type' = type → id ∉ es.map Entity.id) :
    (m.answer (.write mode type es)).1.look type' id = m.look type' id := by
  rw [look_eq, look_eq, recordsOf_write]
  split
  · next ht =>
    subst ht
    rw [getElem?_writeAll_of_not_mem (hid rfl) hes]
  · rfl

theorem look_write_of_mem (hids : (es.map Entity.id).Nodup) (he : e ∈ es) :
    ∃ a, (m.answer (.write mode type es)).1.look type e.id = some (.ok a) ∧
      (e.attributes ≠ [] → a = e.attributes) := by
  obtain ⟨r, hr, hholds⟩ : Holds mode type e (m.answer (.write mode type es)).1 :=
    holds_write hids hes he m
  exact ⟨r.attributes, by rw [look_eq, hr]; rfl, fun hne => hholds.attributes (by simpa using hne)⟩

end Memory

/-! ## In both caches -/

namespace Medium

variable {medium : Medium} {W : Attributes → Prop} {mode : WriteMode} {type id : String}
  {m : medium.View} {e : Entity} {es : List Entity}

/-- Attributes survive being stored, and if digests are kept of them these tell them apart. -/
def Saves : Medium → (Attributes → Prop) → Prop
  | memory _, _ => True
  | node o _, W => Faithful o W

/-- What all reads and writes rely on. -/
def Keeps : (medium : Medium) → (Attributes → Prop) → medium.View → Prop
  | memory _, _ => fun _ => True
  | node o _, W => fun m : Cells => ∀ type, Plain type → Kept o W type m

/-- The attributes of an entity that is there. -/
def look (medium : Medium) (m : medium.View) (type id : String) : Option (Except Error Attributes) :=
  (medium.sights m type id).map Sight.attributes

theorem keeps_fresh (medium : Medium) (W : Attributes → Prop) :
    medium.Keeps W (medium.view medium.fresh) := by
  cases medium with
  | memory name => trivial
  | node o name =>
      have hfresh : (node o name).view (node o name).fresh = fun _ => {} := Store.cells_fresh name
      rw [hfresh]
      exact fun type _ => .empty o W type

namespace Keeps

variable (h : medium.Keeps W m)

include h

theorem inOrder : medium.InOrder m := by
  cases medium with
  | memory name => trivial
  | node o name => exact fun type ht => ⟨(h type ht).takesIds, (h type ht).toIndexed⟩

theorem valid : medium.Valid m := by
  cases medium with
  | memory name => trivial
  | node o name => exact fun type ht => (h type ht).toListed

theorem respond (hW : medium.Saves W) {q : CacheRequest} (hq : q.Suits medium.Tells W) :
    medium.Keeps W (medium.respond q m).1 := by
  cases medium with
  | memory name => trivial
  | node o name => exact fun type ht => (h type ht).respond hW ht hq

end Keeps

/-- The ids that are listed are those of the entities that are there. -/
theorem mem_ids_iff (ht : medium.Tells type) :
    id ∈ medium.ids type m ↔ (medium.look m type id).isSome := by
  cases medium with
  | memory name =>
      refine StringMap.mem_keySet.trans ?_
      rw [look, Option.isSome_map, Std.ExtTreeMap.mem_iff_isSome_getElem?]
      exact Eq.to_iff (congrArg (· = true) Option.isSome_map.symm)
  | node o name =>
      refine Std.ExtTreeSet.contains_iff_mem.symm.trans ?_
      rw [look, Option.isSome_map]
      exact Eq.to_iff (congrArg (· = true) (isSome_sights ht).symm)

/-! ## What requests make of attributes -/

theorem look_evict (h : medium.Keeps W m) (ht : medium.Tells type) (ids : List String)
    (type' id : String) : medium.look (medium.respond (.evict type ids) m).1 type' id =
      if type' = type ∧ id ∈ ids then none else medium.look m type' id := by
  rw [look, (medium.keepsEntities.evict m type ids h.valid ht).2, Scene.evict]
  split <;> rfl

/-- The removal of references leaves attributes as they are. -/
theorem look_unlink (h : medium.Keeps W m) (ht : medium.Tells type) (ids : List String)
    {related : String} (hr : medium.Tells related) (targets : List String) :
    medium.look (medium.respond (.unlink type ids related targets) m).1 = medium.look m := by
  funext type' id
  rw [look, (medium.keepsEntities.unlink m type ids related targets h.valid ht hr).2, Scene.lose, look,
    Option.map_map]
  rfl

section Write

variable (h : medium.Keeps W m) (hq : (CacheRequest.write mode type es).Suits medium.Tells W)
  (hids : (es.map Entity.id).Nodup) (hes : ∀ e ∈ es, e.id.isEmpty = false)

include h hq hids hes

/-- A write leaves the attributes of entities that it does not name. -/
theorem look_write_of_not_mem {type' : String} (hid : type' = type → id ∉ es.map Entity.id) :
    medium.look (medium.respond (.write mode type es) m).1 type' id = medium.look m type' id := by
  cases medium with
  | memory name => exact Memory.look_write_of_not_mem hes m hid
  | node o name =>
      by_cases ht : type' = type
      · subst ht
        exact KeyValue.look_write_of_not_mem hq.1 hids hes (h type' hq.1).takesIds (hid rfl)
      · exact congrArg (Option.map Sight.attributes) (congrFun (sights_congr fun ht' =>
          slot_other (q := .write mode type es) ht' hq.1 (Ne.symm ht) m) id)

/-- A write leaves its entities with their attributes. -/
theorem look_write_of_mem (hW : medium.Saves W) (he : e ∈ es) :
    ∃ a, medium.look (medium.respond (.write mode type es) m).1 type e.id = some (.ok a) ∧
      (e.attributes ≠ [] → a = e.attributes) := by
  cases medium with
  | memory name => exact Memory.look_write_of_mem hes m hids he
  | node o name =>
      have hplain : Plain type := hq.1
      have hlook : KeyValue.look o (Backend.respond o (.write mode type es) m).1 type e.id =
          some (put o mode type m es (o.attributesKey type e.id)).attributes :=
        KeyValue.look_write_of_mem hplain hes (h type hplain).takesIds he
      obtain ⟨a, ha⟩ := KeyValue.exists_of_look
        (fun _ => ((h type hplain).respond hW hplain hq).toListed) hlook
      refine ⟨a, hlook.trans (congrArg some ha), fun hne => ?_⟩
      rw [attributes_put_of_mem hW (h type hplain).attested hids he hne ((hq.2 e he).attributes hne)] at ha
      exact (Except.ok.inj ha).symm

end Write

end Medium

end Inventory
