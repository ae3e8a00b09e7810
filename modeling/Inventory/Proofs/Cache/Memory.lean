import Inventory.Cache.Memory
import Inventory.Proofs.Collections

/-!
# Inventory.Proofs.Cache.Memory

What a request to the cache in memory makes of its records.

A request changes the records of its own type, and of these the ones of the ids it names: a write puts
a record under each id (`writeAll_of_forall`), an eviction takes the records away, and the removal of
references changes them (`getElem?_unlinkAll`).
-/

namespace Inventory

/-! ## Records -/

namespace Record

variable {r : Record} {related : String} {targets : List String}

/-- What a write makes of the related ids of one type. -/
theorem write_relationships (r : Record) (mode : WriteMode) (e : Entity) (related : String) :
    (r.write mode e).relationships[related]? =
      match e.relationships[related]? with
      | none => r.relationships[related]?
      | some ids =>
        if ids.isEmpty then if mode = .replace then none else r.relationships[related]?
        else some (if mode = .replace then ids
          else StringMap.find r.relationships related ∪ ids) := by
  cases mode with
  | union =>
      refine (Relationships.getElem?_union _ _ _).trans ?_
      cases e.relationships[related]? <;> simp
  | replace =>
      refine (Relationships.getElem?_replace _ _ _).trans ?_
      cases e.relationships[related]? <;> simp

/-- What the removal of references makes of the related ids of one type, if no set of them is empty. -/
theorem unlink_relationships (h : ∀ (related : String) (ids : StringSet),
    r.relationships[related]? = some ids → ids.isEmpty = false) (related : String)
    (targets : List String) (related' : String) :
    (r.unlink related targets).relationships[related']? =
      if related = related' then
        (r.relationships[related]?).bind fun ids =>
          if (ids.eraseMany targets).isEmpty then none else some (ids.eraseMany targets)
      else r.relationships[related']? := by
  unfold unlink
  cases hr : r.relationships[related]? with
  | none =>
      by_cases hrelated : related = related'
      · simp [← hrelated, hr]
      · simp [hrelated]
  | some ids =>
      dsimp only [Option.bind_some]
      by_cases hsize : (ids.eraseMany targets).size = ids.size
      · rw [if_pos hsize, StringSet.eraseMany_of_size_eq hsize, h related ids hr]
        by_cases hrelated : related = related'
        · simp [← hrelated, hr]
        · simp [hrelated]
      · rw [if_neg hsize]
        by_cases hempty : (ids.eraseMany targets).isEmpty
        · simp [hempty, Std.ExtTreeMap.getElem?_erase]
        · simp [hempty, Std.ExtTreeMap.getElem?_insert]

/-- What is left of related ids when references are removed. -/
theorem mem_find_unlink (r : Record) (related : String) (targets : List String) (related' x : String) :
    x ∈ StringMap.find (r.unlink related targets).relationships related' ↔
      x ∈ StringMap.find r.relationships related' ∧ ¬ (related' = related ∧ x ∈ targets) := by
  unfold unlink
  cases hr : r.relationships[related]? with
  | none =>
      refine (and_iff_left_of_imp fun hx => ?_).symm
      rintro ⟨rfl, -⟩
      simp [StringMap.find, hr] at hx
  | some ids =>
      dsimp only
      have hids : StringMap.find r.relationships related = ids := by simp [StringMap.find, hr]
      by_cases hsize : (ids.eraseMany targets).size = ids.size
      · -- None of the targets was there.
        have hkept : ids.eraseMany targets = ids := StringSet.eraseMany_of_size_eq hsize
        rw [if_pos hsize]
        refine (and_iff_left_of_imp fun hx => ?_).symm
        rintro ⟨rfl, htarget⟩
        rw [hids, ← hkept, StringSet.mem_eraseMany] at hx
        exact hx.2 htarget
      · rw [if_neg hsize]
        by_cases hrelated : related' = related
        · subst hrelated
          rw [hids]
          have hleft : x ∈ ids.eraseMany targets ↔ x ∈ ids ∧ ¬ (related' = related' ∧ x ∈ targets) := by
            simp
          rw [← hleft]
          by_cases hempty : (ids.eraseMany targets).isEmpty
          · rw [if_pos hempty, Std.ExtTreeSet.isEmpty_iff.1 hempty]
            simp [StringMap.find]
          · rw [if_neg hempty]
            simp [StringMap.find]
        · by_cases hempty : (ids.eraseMany targets).isEmpty
          · simp [hempty, StringMap.find, Std.ExtTreeMap.getElem?_erase, hrelated, Ne.symm hrelated]
          · simp [hempty, StringMap.find, Std.ExtTreeMap.getElem?_insert, hrelated, Ne.symm hrelated]

/-- What is read of related ids. -/
theorem mem_find_entity (r : Record) (id : String) {filter : Option NameFilter}
    (hfilter : ∀ f ∈ filter, f.IsNamewise) (related x : String) :
    x ∈ StringMap.find (r.entity id filter).relationships related ↔
      x ∈ StringMap.find r.relationships related ∧ filter.all (·.accepts related) := by
  have hrelationships : (r.entity id filter).relationships = r.relationships.filter fun related _ =>
      (NameFilter.select filter r.relationships.types).contains related := rfl
  rw [hrelationships, StringMap.find, Std.ExtTreeMap.getElem?_filter', StringMap.find]
  cases hr : r.relationships[related]? with
  | none => simp
  | some ids =>
      have hkeys : related ∈ r.relationships.types := by
        rw [Relationships.types, Std.ExtTreeMap.mem_keys, Std.ExtTreeMap.mem_iff_isSome_getElem?, hr]
        rfl
      have hselect : (NameFilter.select filter r.relationships.types).contains related =
          filter.all (·.accepts related) := by
        rw [Bool.eq_iff_iff, List.contains_iff_mem, NameFilter.mem_select hfilter, and_iff_right hkeys]
      rw [Option.filter_some, hselect]
      cases filter.all (·.accepts related) <;> simp

theorem unlink_attributes : (r.unlink related targets).attributes = r.attributes := by
  unfold unlink
  grind

/-- References that have been removed are not removed again. -/
theorem unlink_unlink :
    (r.unlink related targets).unlink related targets = r.unlink related targets := by
  have hsame : ∀ r : Record, ∀ ids : StringSet, r.relationships[related]? = some ids →
      ids.eraseMany targets = ids → r.unlink related targets = r := by
    intro r ids hr hids
    rw [unlink, hr]
    simp [hids]
  cases hr : r.relationships[related]? with
  | none =>
      have hnone : r.unlink related targets = r := by rw [unlink, hr]
      rw [hnone, hnone]
  | some ids =>
      by_cases hsize : (ids.eraseMany targets).size = ids.size
      · have hr' := hsame r ids hr (StringSet.eraseMany_of_size_eq hsize)
        rw [hr', hr']
      · by_cases hempty : (ids.eraseMany targets).isEmpty
        · have herase : r.unlink related targets =
              { r with relationships := r.relationships.erase related } := by
            rw [unlink, hr]
            simp [hsize, hempty]
          rw [herase, unlink]
          simp
        · have hinsert : r.unlink related targets =
              { r with relationships := r.relationships.insert related (ids.eraseMany targets) } := by
            rw [unlink, hr]
            simp [hsize, hempty]
          rw [hinsert]
          refine hsame _ (ids.eraseMany targets) (by simp) (Std.ExtTreeSet.ext_mem fun x => ?_)
          simp only [StringSet.mem_eraseMany, and_assoc, and_self]

end Record

namespace Memory

variable {m : Memory} {mode : WriteMode} {type type' : String} {records : StringMap Record}
  {es : List Entity}

/-! ## Types -/

theorem recordsOf_insert (m : Memory) (type : String) (records : StringMap Record) (type' : String) :
    recordsOf { m with types := m.types.insert type records } type' =
      if type = type' then records else m.recordsOf type' := by
  by_cases h : type = type' <;>
    simp [recordsOf, StringMap.find, Std.ExtTreeMap.getElem?_insert, h]

/-- A change that makes no records of none changes the records of a type, there or not. -/
theorem recordsOf_modifyExisting (change : StringMap Record → StringMap Record) (h : change ∅ = ∅)
    (m : Memory) (type type' : String) : (m.modifyExisting type change).recordsOf type' =
      if type = type' then change (m.recordsOf type) else m.recordsOf type' := by
  unfold modifyExisting
  cases hm : m.types[type]? with
  | some records =>
      have hrecords : m.recordsOf type = records := by simp [recordsOf, StringMap.find, hm]
      exact (recordsOf_insert m type _ type').trans (by rw [hrecords])
  | none =>
      have hnone : m.recordsOf type = ∅ := by simp [recordsOf, StringMap.find, hm]
      rw [hnone, h]
      by_cases ht : type = type'
      · rw [if_pos ht, ← ht, hnone]
      · rw [if_neg ht]

/-! ## The record of an id -/

/-- The record of an id, empty if there is none. -/
def recordAt (records : StringMap Record) (id : String) : Record := (records[id]?).getD {}

theorem recordAt_of_getElem? {id : String} {r : Record} (h : records[id]? = some r) :
    recordAt records id = r := by
  rw [recordAt, h, Option.getD_some]

theorem recordAt_insert (id : String) (r : Record) (id' : String) :
    recordAt (records.insert id r) id' = if id = id' then r else recordAt records id' := by
  by_cases h : id = id' <;> simp [recordAt, Std.ExtTreeMap.getElem?_insert, h]

theorem recordAt_eraseMany (ids : List String) (id : String) :
    recordAt (records.eraseMany ids) id = if id ∈ ids then {} else recordAt records id := by
  by_cases h : id ∈ ids <;> simp [recordAt, h]

/-! ## Writes -/

variable (mode type) in
/-- Entities that all have an id are written. -/
theorem writeAll_of_forall (h : ∀ e ∈ es, e.id.isEmpty = false) (records : StringMap Record) :
    writeAll mode type records es =
      (es.foldl (fun records e =>
        records.insert e.id ((recordAt records e.id).write mode e)) records, .ok ()) := by
  induction es generalizing records with
  | nil => rfl
  | cons e es ih =>
      have he := h e List.mem_cons_self
      rw [writeAll, he, if_neg (by decide)]
      exact ih (fun e' he' => h e' (List.mem_cons_of_mem _ he')) _

theorem forall_of_writeAll (h : (writeAll mode type records es).2 = .ok ()) :
    ∀ e ∈ es, e.id.isEmpty = false := by
  induction es generalizing records with
  | nil => simp
  | cons e es ih =>
      rw [writeAll] at h
      by_cases hempty : e.id.isEmpty
      · rw [if_pos hempty] at h
        contradiction
      · rw [if_neg hempty] at h
        exact List.forall_mem_cons.2 ⟨by simpa using hempty, ih h⟩

/-- After a write there is a record for each entity written. -/
theorem mem_writeAll (h : (writeAll mode type records es).2 = .ok ()) (x : String) :
    x ∈ (writeAll mode type records es).1 ↔ x ∈ records ∨ x ∈ es.map Entity.id := by
  rw [writeAll_of_forall mode type (forall_of_writeAll h)]
  exact StringMap.mem_foldl_insert Entity.id (fun records e => (recordAt records e.id).write mode e) es
    records x

/-! ## Removed references -/

theorem unlinkAll_empty (ids : List String) (relationship : String) (targets : List String) :
    unlinkAll ∅ ids relationship targets = ∅ := by
  induction ids with
  | nil => rfl
  | cons id ids ih =>
      rw [unlinkAll, List.foldl_cons, Std.ExtTreeMap.getElem?_empty]
      exact ih

/-- References are removed from the records of all ids given, however often an id is given. -/
theorem getElem?_unlinkAll (records : StringMap Record) (ids : List String) (relationship : String)
    (targets : List String) (x : String) :
    (unlinkAll records ids relationship targets)[x]? =
      (records[x]?).map fun r => if x ∈ ids then r.unlink relationship targets else r := by
  induction ids generalizing records with
  | nil => simp [unlinkAll]
  | cons id ids ih =>
      rw [unlinkAll, List.foldl_cons]
      refine (ih _).trans ?_
      by_cases hx : id = x
      · subst hx
        cases h : records[id]? with
        | none => simp [h]
        | some r => simp [Record.unlink_unlink]
      · have hstep : ∀ records' : StringMap Record, records'[x]? = records[x]? →
            ((records'[x]?).map fun r => if x ∈ ids then r.unlink relationship targets else r) =
              (records[x]?).map fun r =>
                if x ∈ id :: ids then r.unlink relationship targets else r := by
          intro records' hsame
          rw [hsame]
          simp [Ne.symm hx]
        cases records[id]? with
        | none => exact hstep _ rfl
        | some r => exact hstep _ (by simp [Std.ExtTreeMap.getElem?_insert, hx])

/-- A record without related ids has none to remove. -/
theorem recordAt_unlinkAll (ids : List String) (relationship : String) (targets : List String)
    (x : String) : recordAt (unlinkAll records ids relationship targets) x =
      if x ∈ ids then (recordAt records x).unlink relationship targets else recordAt records x := by
  rw [recordAt, getElem?_unlinkAll, recordAt]
  cases records[x]? with
  | some r => rfl
  | none =>
      have hnone : Record.unlink {} relationship targets = {} := by simp [Record.unlink]
      rw [Option.map_none, Option.getD_none, hnone, ite_self]

/-- Removing references keeps the records there. -/
theorem mem_unlinkAll (records : StringMap Record) (ids : List String) (relationship : String)
    (targets : List String) (x : String) :
    x ∈ unlinkAll records ids relationship targets ↔ x ∈ records := by
  rw [Std.ExtTreeMap.mem_iff_isSome_getElem?, getElem?_unlinkAll, Option.isSome_map,
    Std.ExtTreeMap.mem_iff_isSome_getElem?]

/-! ## Requests -/

/-- A read of one id shows its record, if there is one. -/
theorem entities_eq_singleton_iff {id : String} {filter : Option NameFilter} {e : Entity} :
    m.entities type (some [id]) filter = [e] ↔
      ∃ r, (m.recordsOf type)[id]? = some r ∧ r.entity id filter = e := by
  unfold entities
  cases h : (m.recordsOf type)[id]? <;> simp [h]

theorem recordsOf_write (m : Memory) (mode : WriteMode) (type : String) (es : List Entity)
    (type' : String) : (m.answer (.write mode type es)).1.recordsOf type' =
      if type = type' then (writeAll mode type (m.recordsOf type) es).1 else m.recordsOf type' :=
  recordsOf_insert m type _ type'

theorem recordsOf_evict (m : Memory) (type : String) (ids : List String) (type' : String) :
    (m.answer (.evict type ids)).1.recordsOf type' =
      if type = type' then (m.recordsOf type).eraseMany ids else m.recordsOf type' := by
  refine recordsOf_modifyExisting _ (Std.ExtTreeMap.ext_getElem? fun k => ?_) m type type'
  rw [StringMap.getElem?_eraseMany]
  simp

theorem recordsOf_unlink (m : Memory) (type : String) (ids : List String) (relationship : String)
    (targets : List String) (type' : String) :
    (m.answer (.unlink type ids relationship targets)).1.recordsOf type' =
      if type = type' then unlinkAll (m.recordsOf type) ids relationship targets
      else m.recordsOf type' :=
  recordsOf_modifyExisting (unlinkAll · ids relationship targets)
    (unlinkAll_empty ids relationship targets) m type type'

end Memory

end Inventory
