import Inventory.Proofs.Cache.Following
import Inventory.Proofs.KeyValue.Frames
import Inventory.Proofs.KeyValue.Removing

/-!
# Inventory.Proofs.KeyValue.Requests

What a request to the cache makes of the cells of a store.

Every request changes keys of its own type only (`respond_other`), so a type without a colon in its
name is changed by the requests about it and by no others.
-/

namespace Inventory

/-- The type that a request is about. -/
def CacheRequest.type : CacheRequest → String
  | entities type .. | identifiers type | matching type _ | existing type _ | write _ type _
  | evict type _ | unlink type .. => type

namespace KeyValue

open Backend (respond)

variable {o : Options} {mode : WriteMode} {type : String} {m : Cells}

theorem respond_write {es : List Entity} (h : ∀ e ∈ es, e.id.isEmpty = false) (m : Cells) :
    respond o (.write mode type es) m = (putChunks o mode type m (batches o.mergeBatch es), .ok ()) :=
  run_write o mode type m h

/-- Entities of different ids are written one by one. -/
theorem respond_write_of_nodup {es : List Entity} (h : ∀ e ∈ es, e.id.isEmpty = false)
    (hids : (es.map Entity.id).Nodup) (m : Cells) :
    respond o (.write mode type es) m = (putEach o mode type m es, .ok ()) := by
  have huniform : Uniform (batches o.mergeBatch es).flatten := by
    rw [flatten_batches]
    exact uniform_of_nodup hids
  rw [respond_write h, putChunks_of_uniform o type m huniform, flatten_batches]

variable (o mode type) in
/-- An entity without an id refuses them all, before anything is asked of the store. -/
theorem plan_write_of_isEmpty {es : List Entity} (h : ∃ e ∈ es, e.id.isEmpty) :
    plan o (.write mode type es) = .fail (.malformedKey "" (.emptyId type)) := by
  obtain ⟨e, hsome⟩ := Option.isSome_iff_exists.1 (List.find?_isSome.2 h)
  have hid : e.id = "" := by simpa using List.find?_some hsome
  change write o mode type es = _
  simp only [write, hsome, hid]

variable (o mode type) in
/-- A write with an entity without an id changes nothing. -/
theorem respond_write_of_isEmpty {es : List Entity} (h : ∃ e ∈ es, e.id.isEmpty) (m : Cells) :
    ∃ error, respond o (.write mode type es) m = (m, .error error) := by
  refine ⟨.malformedKey "" (.emptyId type), ?_⟩
  rw [Backend.respond, plan_write_of_isEmpty o mode type h]
  rfl

theorem respond_evict (m : Cells) (ids : List String) :
    respond o (.evict type ids) m = (m.applyAll (evictAll o type (typesOf o type m) ids), .ok ()) :=
  run_evict m ids

theorem respond_unlink (m : Cells) (ids : List String) (related : String) (targets : List String) :
    respond o (.unlink type ids related targets) m =
      (m.applyAll (unlinkAll o type ids related targets), .ok ()) :=
  run_unlink m ids related targets

/-! ## Keys of other types -/

theorem putChunks_of_forall_ne {key : String} (h : ∀ slot : Slot, key ≠ slot.key o type) (m : Cells)
    (chunks : List (List Entity)) : putChunks o mode type m chunks key = m key := by
  rw [putChunks_other (fun e _ => h (.attributes e.id)) (h .digests)]
  exact putFrames_other (h .members) (h .relatedTypes) (fun id r => h (.related id r)) m _

/-- A request leaves the keys of other types as they are. -/
theorem respond_other {r : CacheRequest} {key : String} (h : ∀ slot : Slot, key ≠ slot.key o r.type)
    (m : Cells) : (respond o r m).1 key = m key := by
  cases r with
  | write mode type es =>
      by_cases hempty : ∃ e ∈ es, e.id.isEmpty
      · obtain ⟨error, hwrite⟩ := respond_write_of_isEmpty o mode type hempty m
        rw [hwrite]
      · rw [respond_write (by simpa using hempty)]
        exact putChunks_of_forall_ne h m _
  | evict type ids =>
      rw [respond_evict]
      exact evict_other h m _ ids
  | unlink type ids related targets =>
      rw [respond_unlink]
      exact unlink_other (fun id => h (.related id related)) m ids targets
  | _ => rw [Backend.respond_read rfl]

/-! ## The members of a type -/

variable (mode) in
theorem putChunks_members (h : (m (o.membersKey type)).takesMembers) (chunks : List (List Entity)) :
    (putChunks o mode type m chunks (o.membersKey type)).takesMembers ∧
      ∀ x, x ∈ (putChunks o mode type m chunks (o.membersKey type)).members ↔
        x ∈ (m (o.membersKey type)).members ∨ x ∈ chunks.flatten.map Entity.id := by
  have hframes : putChunks o mode type m chunks (o.membersKey type) =
      putFrames o mode type m chunks.flatten (o.membersKey type) :=
    putChunks_other (fun e _ => Slot.key_ne .members (.attributes e.id)) (Slot.key_ne .members .digests) m
  rw [hframes]
  exact members_putFrames m _ h

end KeyValue

end Inventory
