import Inventory.Proofs.Cache.Answers
import Inventory.Proofs.Plan.Terms

/-!
# Inventory.Proofs.Cache.Equivalence

The cache in memory and the cache over a key-value store, request by request.

While the cells mirror the records of every type without a colon in its name (`Alike`), a request about
such a type is answered alike by both and leaves them alike (`Alike.step`).
-/

namespace Inventory

open KeyValue

/-! ## Requests -/

namespace CacheRequest

/-- A request on which both caches can be compared: names without a colon, filters that decide on each
name by itself, and entities of different ids whose attributes can be stored. -/
def Fits (W : Attributes → Prop) : CacheRequest → Prop
  | entities type _ filter => Plain type ∧ ∀ f ∈ filter, f.IsNamewise
  | identifiers type | matching type _ | existing type _ | evict type _ =>
    Plain type
  | write _ type es =>
    Plain type ∧ (es.map Entity.id).Nodup ∧ ∀ e ∈ es, e.id.isEmpty = false ∧ e.Fits W
  | unlink type _ related _ => Plain type ∧ Plain related

/-- A reply in which the related types have no colon. -/
def Plainly : (r : CacheRequest) → Except Error r.Reply → Prop
  | entities .., .ok es => ∀ e ∈ es, ∀ related ∈ e.relationships, Plain related
  | _, _ => True

theorem Fits.plain {W : Attributes → Prop} {r : CacheRequest} (h : r.Fits W) : Plain r.type := by
  cases r with
  | entities type ids filter => exact h.1
  | write mode type es => exact h.1
  | unlink type ids related targets => exact h.1
  | _ => exact h

theorem Fits.isNamewise {W : Attributes → Prop} {r : CacheRequest} (h : r.Fits W) : r.IsNamewise := by
  cases r with
  | entities type ids filter => exact h.2
  | _ => trivial

end CacheRequest

/-- The terms on which both caches come to the same. -/
def CachePlan.terms (W : Attributes → Prop) : Plan.Terms CacheRequest CacheRequest.Reply where
  asks := CacheRequest.Fits W
  hears := CacheRequest.Plainly
  blur := CacheRequest.timeless

/-! ## Both caches -/

/-- The cells show what the records hold, of all types without a colon. -/
def Alike (o : Options) (W : Attributes → Prop) (memory : Memory) (m : Cells) : Prop :=
  ∀ type, Plain type → Mirrors o W type (memory.recordsOf type) m

namespace Alike

variable {o : Options} {W : Attributes → Prop} {memory : Memory} {m : Cells} {r : CacheRequest}

/-- Before the first request both caches are alike. -/
theorem fresh (o : Options) (W : Attributes → Prop) (name : String) :
    Alike o W {} (Store.single { name }).cells := by
  intro type _
  have hcells : (Store.single { name }).cells = fun _ => {} := by
    funext key
    simp [Store.cells, Store.owner?, Node.cells]
  have hrecords : Memory.recordsOf {} type = ∅ := by simp [Memory.recordsOf, StringMap.find]
  rw [hcells, hrecords]
  exact Mirrors.empty o W type

/-- Requests about one type leave the others as they are. -/
theorem of_type (h : Alike o W memory m) (hr : Plain r.type)
    (hrecords : ∀ type, r.type ≠ type → (memory.answer r).1.recordsOf type = memory.recordsOf type)
    (htype : Mirrors o W r.type ((memory.answer r).1.recordsOf r.type) (Backend.respond o r m).1) :
    Alike o W (memory.answer r).1 (Backend.respond o r m).1 := by
  intro type ht
  by_cases hsame : r.type = type
  · rwa [← hsame]
  · rw [hrecords type hsame]
    exact (h type ht).congr fun slot =>
      respond_other (fun slot' hkey => hsame (Slot.eq_of_key_eq_of_plain ht hr hkey).symm) m

theorem write (hW : Faithful o W) (h : Alike o W memory m) {mode : WriteMode} {type : String}
    {es : List Entity} (hr : (CacheRequest.write mode type es).Fits W) :
    (Backend.respond o (.write mode type es) m).2 = (memory.answer (.write mode type es)).2 ∧
      Alike o W (memory.answer (.write mode type es)).1
        (Backend.respond o (.write mode type es) m).1 := by
  obtain ⟨hplain, hids, hes⟩ := hr
  have hne : ∀ e ∈ es, e.id.isEmpty = false := fun e he => (hes e he).1
  have hcells : Backend.respond o (.write mode type es) m = (putEach o mode type m es, .ok ()) :=
    respond_write_of_nodup hne hids m
  have hall := Memory.writeAll_of_forall mode type hne (memory.recordsOf type)
  refine ⟨?_, h.of_type hplain (fun type' ht => ?_) ?_⟩
  · rw [hcells]
    exact (congrArg Prod.snd hall).symm
  · rw [Memory.recordsOf_write]
    exact if_neg ht
  · rw [hcells, Memory.recordsOf_write]
    change Mirrors o W type (if type = type then _ else _) _
    rw [if_pos rfl, hall]
    exact (h type hplain).putEach hW fun e he => (hes e he).2

theorem evict (h : Alike o W memory m) {type : String} (hplain : Plain type) (ids : List String) :
    (Backend.respond o (.evict type ids) m).2 = (memory.answer (.evict type ids)).2 ∧
      Alike o W (memory.answer (.evict type ids)).1 (Backend.respond o (.evict type ids) m).1 := by
  rw [respond_evict]
  refine ⟨rfl, ?_⟩
  have hstep := h.of_type (r := .evict type ids) hplain
  rw [respond_evict] at hstep
  refine hstep (fun type' ht => ?_) ?_
  · rw [Memory.recordsOf_evict]
    exact if_neg ht
  · rw [Memory.recordsOf_evict]
    change Mirrors o W type (if type = type then _ else _) _
    rw [if_pos rfl]
    exact (h type hplain).evict ids

theorem unlink (h : Alike o W memory m) {type related : String} (hplain : Plain type)
    (hrelated : Plain related) (ids targets : List String) :
    (Backend.respond o (.unlink type ids related targets) m).2 =
        (memory.answer (.unlink type ids related targets)).2 ∧
      Alike o W (memory.answer (.unlink type ids related targets)).1
        (Backend.respond o (.unlink type ids related targets) m).1 := by
  rw [respond_unlink]
  refine ⟨rfl, ?_⟩
  have hstep := h.of_type (r := .unlink type ids related targets) hplain
  rw [respond_unlink] at hstep
  refine hstep (fun type' ht => ?_) ?_
  · rw [Memory.recordsOf_unlink]
    exact if_neg ht
  · rw [Memory.recordsOf_unlink]
    change Mirrors o W type (if type = type then _ else _) _
    rw [if_pos rfl]
    exact (h type hplain).unlink ids hrelated targets

/-- What is read in memory has related types without a colon. -/
theorem plainly (h : Alike o W memory m) (hr : r.Fits W) : r.Plainly (memory.answer r).2 := by
  cases r with
  | entities type ids filter =>
      intro e he related hrelated
      obtain ⟨id, -, hentity⟩ := List.mem_filterMap.1 he
      obtain ⟨record, hrecord, rfl⟩ := Option.map_eq_some_iff.1 hentity
      have hmirrors := h type hr.1
      have hthere : related ∈ record.relationships :=
        Std.ExtTreeMap.mem_of_mem_filter hrelated
      rw [Std.ExtTreeMap.mem_iff_isSome_getElem?] at hthere
      obtain ⟨found, hfound⟩ := Option.isSome_iff_exists.1 hthere
      rw [← Memory.recordAt_of_getElem? hrecord] at hfound
      exact hmirrors.types related (hmirrors.listed id related found hfound).2
  | _ => trivial

/-- A request that fits both caches is answered alike, but for times to live, and leaves them alike. -/
theorem step (hW : Faithful o W) (h : Alike o W memory m) (hr : r.Fits W) :
    (Backend.respond o r m).2 = r.timeless (memory.answer r).2 ∧
      Alike o W (memory.answer r).1 (Backend.respond o r m).1 := by
  have hread : r.isRead → (memory.answer r).1 = memory →
      (Backend.respond o r m).2 = r.timeless (memory.answer r).2 ∧
        Alike o W (memory.answer r).1 (Backend.respond o r m).1 := by
    intro hread hsame
    rw [Backend.respond_read hread, hsame]
    exact ⟨(h r.type hr.plain).read hread hr.isNamewise, h⟩
  cases r with
  | write mode type es => exact h.write hW hr
  | evict type ids => exact h.evict hr ids
  | unlink type ids related targets => exact h.unlink hr.1 hr.2 ids targets
  | _ => exact hread rfl rfl

end Alike

end Inventory
