import Inventory.Proofs.Cache.Memory

/-!
# Inventory.Proofs.Cache.Written

What is in memory of entities after they have been written, and what a second write makes of it.

What a write leaves of an entity (`Memory.Holds`) stays as long as the entity is neither written
otherwise nor evicted; references to other entities may be taken from it. If none was taken
(`Memory.Bound`), writing the entity again changes nothing (`Memory.answer_write_eq_self`).
-/

namespace Inventory

/-! ## Records -/

namespace Record

variable {mode : WriteMode} {e : Entity} {r : Record}

/-- The entity has been written over the record, and since then references at most have been taken from
it. -/
structure Holds (mode : WriteMode) (e : Entity) (r : Record) : Prop where
  attributes : e.attributes.isEmpty = false → r.attributes = e.attributes
  ttl : ∀ seconds, e.ttl = some seconds → r.ttl = some seconds
  replaced : mode = .replace → ∀ (related : String) (ids left : StringSet),
    e.relationships[related]? = some ids → r.relationships[related]? = some left →
      left.isEmpty = false ∧ ∀ x ∈ left, x ∈ ids

theorem holds_write (mode : WriteMode) (e : Entity) (r : Record) : (r.write mode e).Holds mode e where
  attributes hne := if_neg (by simp [hne])
  ttl seconds httl := by
    change (e.ttl <|> r.ttl) = some seconds
    rw [httl]
    rfl
  replaced hmode related ids left hids hleft := by
    rw [write_relationships, hids] at hleft
    simp only [hmode, if_true] at hleft
    split at hleft
    · contradiction
    · next hempty =>
      obtain rfl := Option.some.inj hleft
      exact ⟨by simpa using hempty, fun x hx => hx⟩

/-- The related ids that are left when some are removed. -/
theorem exists_of_unlink {related related' : String} {targets : List String} {left : StringSet}
    (h : (r.unlink related targets).relationships[related']? = some left) :
    ∃ ids, r.relationships[related']? = some ids ∧
      (left = ids ∨ left.isEmpty = false ∧ ∀ x ∈ left, x ∈ ids) := by
  unfold unlink at h
  cases hr : r.relationships[related]? with
  | none =>
      rw [hr] at h
      exact ⟨left, h, .inl rfl⟩
  | some ids =>
      rw [hr] at h
      dsimp only at h
      split at h
      · exact ⟨left, h, .inl rfl⟩
      · split at h
        · rw [Std.ExtTreeMap.getElem?_erase] at h
          split at h
          · contradiction
          · exact ⟨left, h, .inl rfl⟩
        · next hempty =>
          rw [Std.ExtTreeMap.getElem?_insert] at h
          split at h
          · next hrelated =>
            obtain rfl := Option.some.inj h
            obtain rfl : related = related' := by simpa using hrelated
            exact ⟨ids, hr, .inr ⟨by simpa using hempty, fun x hx => (StringSet.mem_eraseMany.1 hx).1⟩⟩
          · exact ⟨left, h, .inl rfl⟩

theorem Holds.unlink (h : r.Holds mode e) (related : String) (targets : List String) :
    (r.unlink related targets).Holds mode e where
  attributes hne := unlink_attributes.trans (h.attributes hne)
  ttl seconds httl := by
    have hsame : (r.unlink related targets).ttl = r.ttl := by
      unfold Record.unlink
      grind
    rw [hsame, h.ttl seconds httl]
  replaced hmode related' ids left hids hleft := by
    obtain ⟨before, hbefore, hleft | ⟨hne, hsub⟩⟩ := exists_of_unlink hleft
    · subst hleft
      exact h.replaced hmode related' ids left hids hbefore
    · exact ⟨hne, fun x hx => (h.replaced hmode related' ids before hids hbefore).2 x (hsub x hx)⟩

/-- Writing an entity over a record that holds it with all its references changes nothing. -/
theorem Holds.write_eq_self (h : r.Holds mode e) (hbound : ∀ related x,
    x ∈ StringMap.find e.relationships related → x ∈ StringMap.find r.relationships related) :
    r.write mode e = r := by
  have hattributes : (r.write mode e).attributes = r.attributes := by
    change (if e.attributes.isEmpty then r.attributes else e.attributes) = r.attributes
    split
    · rfl
    · next hempty => exact (h.attributes (by simpa using hempty)).symm
  have httl : (r.write mode e).ttl = r.ttl := by
    change (e.ttl <|> r.ttl) = r.ttl
    cases hseconds : e.ttl with
    | none => rfl
    | some seconds => exact (h.ttl seconds hseconds).symm
  have hrelationships : (r.write mode e).relationships = r.relationships := by
    refine Std.ExtTreeMap.ext_getElem? fun related => ?_
    rw [write_relationships]
    cases hids : e.relationships[related]? with
    | none => rfl
    | some ids =>
        have hsub : ∀ x ∈ ids, x ∈ StringMap.find r.relationships related := fun x hx =>
          hbound related x (by rwa [StringMap.find, hids, Option.getD_some])
        dsimp only
        by_cases hempty : ids.isEmpty
        · rw [if_pos hempty]
          split
          · next hmode =>
            cases hleft : r.relationships[related]? with
            | none => rfl
            | some left =>
                -- What is left of an empty set is neither empty nor has it members.
                obtain ⟨hne, hmem⟩ := h.replaced hmode related ids left hids hleft
                have hnone : left = ∅ := Std.ExtTreeSet.ext_mem fun x =>
                  ⟨fun hx => Std.ExtTreeSet.isEmpty_iff.1 hempty ▸ hmem x hx,
                    fun hx => absurd hx Std.ExtTreeSet.not_mem_empty⟩
                rw [hnone] at hne
                simp at hne
          · rfl
        · rw [if_neg hempty]
          cases hleft : r.relationships[related]? with
          | none =>
              refine absurd (Std.ExtTreeSet.isEmpty_iff.2 (Std.ExtTreeSet.ext_mem fun x => ?_)) hempty
              refine ⟨fun hx => ?_, fun hx => absurd hx Std.ExtTreeSet.not_mem_empty⟩
              simpa [StringMap.find, hleft] using hsub x hx
          | some left =>
              have hfind : StringMap.find r.relationships related = left := by
                simp [StringMap.find, hleft]
              rw [hfind] at hsub ⊢
              refine congrArg some (Std.ExtTreeSet.ext_mem fun x => ?_)
              split
              · next hmode => exact ⟨hsub x, (h.replaced hmode related ids left hids hleft).2 x⟩
              · rw [Std.ExtTreeSet.mem_union_iff]
                exact or_iff_left_of_imp (hsub x)
  cases r with
  | mk attributes relationships ttl =>
      exact congr (congr (congrArg Record.mk hattributes) hrelationships) httl

end Record

/-! ## Entities in memory -/

namespace Memory

variable {mode : WriteMode} {type : String} {e : Entity} {es : List Entity} {m m' : Memory}

/-- The entity has been written, and since then references at most have been taken from it. -/
def Holds (mode : WriteMode) (type : String) (e : Entity) (m : Memory) : Prop :=
  ∃ r, (m.recordsOf type)[e.id]? = some r ∧ r.Holds mode e

/-- All references that the entity holds are in memory. -/
def Bound (type : String) (e : Entity) (m : Memory) : Prop :=
  ∀ related x, x ∈ StringMap.find e.relationships related →
    x ∈ StringMap.find (recordAt (m.recordsOf type) e.id).relationships related

theorem Holds.of_recordsOf (h : Holds mode type e m) (hm : m'.recordsOf type = m.recordsOf type) :
    Holds mode type e m' := by
  rw [Holds, hm]
  exact h

theorem Bound.of_recordsOf (h : Bound type e m) (hm : m'.recordsOf type = m.recordsOf type) :
    Bound type e m' := by
  rw [Bound, hm]
  exact h

/-! ## Writes of different entities -/

theorem getElem?_writeAll_of_not_mem {id : String} (hid : id ∉ es.map Entity.id)
    (hes : ∀ e ∈ es, e.id.isEmpty = false) (records : StringMap Record) :
    (writeAll mode type records es).1[id]? = records[id]? := by
  induction es generalizing records with
  | nil => rfl
  | cons e es ih =>
      rw [List.map_cons, List.mem_cons, not_or] at hid
      rw [writeAll, if_neg (by simp [hes e List.mem_cons_self])]
      refine (ih hid.2 (fun e he => hes e (List.mem_cons_of_mem _ he)) _).trans ?_
      simp [Std.ExtTreeMap.getElem?_insert, Ne.symm hid.1]

/-- What writing entities of different ids makes of the record of one of them. -/
theorem getElem?_writeAll_of_mem (hids : (es.map Entity.id).Nodup)
    (hes : ∀ e ∈ es, e.id.isEmpty = false) (he : e ∈ es) (records : StringMap Record) :
    (writeAll mode type records es).1[e.id]? = some ((recordAt records e.id).write mode e) := by
  induction es generalizing records with
  | nil => simp at he
  | cons x es ih =>
      rw [List.map_cons, List.nodup_cons] at hids
      have hrest := fun e he => hes e (List.mem_cons_of_mem _ he)
      rw [writeAll, if_neg (by simp [hes x List.mem_cons_self])]
      rcases List.mem_cons.1 he with rfl | he
      · refine (getElem?_writeAll_of_not_mem hids.1 hrest _).trans ?_
        rw [Std.ExtTreeMap.getElem?_insert_self]
        rfl
      · have hne : x.id ≠ e.id := fun h => hids.1 (h ▸ List.mem_map.2 ⟨e, he, rfl⟩)
        refine (ih hids.2 hrest he _).trans ?_
        rw [recordAt_insert, if_neg hne]

section Once

variable (hids : (es.map Entity.id).Nodup) (hes : ∀ e ∈ es, e.id.isEmpty = false)

include hids hes

theorem holds_write (he : e ∈ es) (m : Memory) :
    Holds mode type e (m.answer (.write mode type es)).1 := by
  refine ⟨(recordAt (m.recordsOf type) e.id).write mode e, ?_, Record.holds_write mode e _⟩
  rw [recordsOf_write, if_pos rfl]
  exact getElem?_writeAll_of_mem hids hes he _

theorem bound_write (he : e ∈ es) (m : Memory) : Bound type e (m.answer (.write mode type es)).1 := by
  intro related x hx
  rw [recordsOf_write, if_pos rfl, recordAt_of_getElem? (getElem?_writeAll_of_mem hids hes he _),
    StringMap.find, Record.write_relationships]
  unfold StringMap.find at hx
  cases hrelated : e.relationships[related]? with
  | none =>
      rw [hrelated] at hx
      exact absurd hx Std.ExtTreeSet.not_mem_empty
  | some ids =>
      rw [hrelated, Option.getD_some] at hx
      dsimp only
      rw [if_neg (by simp [StringSet.isEmpty_eq_false_of_mem hx]), Option.getD_some]
      split
      · exact hx
      · exact Std.ExtTreeSet.mem_union_iff.2 (.inr hx)

end Once

/-! ## What stays of it -/

theorem Holds.evict (h : Holds mode type e m) {ids : List String} (hid : e.id ∉ ids) :
    Holds mode type e (m.answer (.evict type ids)).1 := by
  obtain ⟨r, hr, hholds⟩ := h
  refine ⟨r, ?_, hholds⟩
  rw [recordsOf_evict, if_pos rfl, StringMap.getElem?_eraseMany, if_neg hid, hr]

theorem Holds.unlink (h : Holds mode type e m) (ids : List String) (related : String)
    (targets : List String) : Holds mode type e (m.answer (.unlink type ids related targets)).1 := by
  obtain ⟨r, hr, hholds⟩ := h
  refine ⟨if e.id ∈ ids then r.unlink related targets else r, ?_, ?_⟩
  · rw [recordsOf_unlink, if_pos rfl, getElem?_unlinkAll, hr, Option.map_some]
  · split
    · exact hholds.unlink related targets
    · exact hholds

theorem Bound.evict (h : Bound type e m) {ids : List String} (hid : e.id ∉ ids) :
    Bound type e (m.answer (.evict type ids)).1 := by
  intro related x hx
  rw [recordsOf_evict, if_pos rfl, recordAt_eraseMany, if_neg hid]
  exact h related x hx

/-! ## Again -/

theorem insert_eq_self {α : Type} {records : StringMap α} {id : String} {r : α}
    (h : records[id]? = some r) : records.insert id r = records := by
  refine Std.ExtTreeMap.ext_getElem? fun k => ?_
  rw [Std.ExtTreeMap.getElem?_insert]
  split
  · next hk =>
    obtain rfl : id = k := by simpa using hk
    exact h.symm
  · rfl

/-- A type whose records are put in its place stays as it is. -/
theorem insert_recordsOf (h : type ∈ m.types) :
    ({ m with types := m.types.insert type (m.recordsOf type) } : Memory) = m := by
  obtain ⟨records, hrecords⟩ := Option.isSome_iff_exists.1 (Std.ExtTreeMap.mem_iff_isSome_getElem?.1 h)
  have hfind : m.recordsOf type = records := by simp [recordsOf, StringMap.find, hrecords]
  rw [hfind, insert_eq_self hrecords]

theorem writeAll_eq_self {records : StringMap Record} (hes : ∀ e ∈ es, e.id.isEmpty = false)
    (h : ∀ e ∈ es, ∃ r, records[e.id]? = some r ∧ r.write mode e = r) :
    writeAll mode type records es = (records, .ok ()) := by
  induction es with
  | nil => rfl
  | cons e es ih =>
      obtain ⟨r, hr, hwrite⟩ := h e List.mem_cons_self
      rw [writeAll, if_neg (by simp [hes e List.mem_cons_self])]
      have hsame : records.insert e.id (((records[e.id]?).getD {}).write mode e) = records := by
        rw [hr, Option.getD_some, hwrite, insert_eq_self hr]
      dsimp only
      rw [hsame]
      exact ih (fun e he => hes e (List.mem_cons_of_mem _ he))
        fun e he => h e (List.mem_cons_of_mem _ he)

/-- Entities that are there with all their references may be written again. -/
theorem answer_write_eq_self (hne : es ≠ []) (hes : ∀ e ∈ es, e.id.isEmpty = false)
    (hwritten : ∀ e ∈ es, Holds mode type e m) (hbound : ∀ e ∈ es, Bound type e m) :
    (m.answer (.write mode type es)).1 = m := by
  have hsame : writeAll mode type (m.recordsOf type) es = (m.recordsOf type, .ok ()) := by
    refine writeAll_eq_self hes fun e he => ?_
    obtain ⟨r, hr, hholds⟩ := hwritten e he
    refine ⟨r, hr, hholds.write_eq_self fun related x hx => ?_⟩
    have hstored := hbound e he related x hx
    rwa [recordAt_of_getElem? hr] at hstored
  have htype : type ∈ m.types := by
    obtain ⟨e, he⟩ := List.exists_mem_of_ne_nil es hne
    obtain ⟨r, hr, -⟩ := hwritten e he
    refine Std.ExtTreeMap.mem_iff_isSome_getElem?.2 ?_
    cases hrecords : m.types[type]? with
    | some records => rfl
    | none => simp [recordsOf, StringMap.find, hrecords] at hr
  have hanswer : (m.answer (.write mode type es)).1 =
      ⟨m.types.insert type (writeAll mode type (m.recordsOf type) es).1⟩ := rfl
  rw [hanswer, hsame]
  exact insert_recordsOf htype

/-- An eviction of entities that are not there. -/
theorem answer_evict_eq_self {ids : List String} (habsent : ∀ id ∈ ids, id ∉ m.identifiers type) :
    (m.answer (.evict type ids)).1 = m := by
  change m.modifyExisting type (·.eraseMany ids) = m
  have hrecords : (m.recordsOf type).eraseMany ids = m.recordsOf type := by
    refine Std.ExtTreeMap.ext_getElem? fun id => ?_
    rw [StringMap.getElem?_eraseMany]
    split
    · next hid =>
      have hnone := habsent id hid
      rw [identifiers, StringMap.mem_keySet] at hnone
      exact (Std.ExtTreeMap.getElem?_eq_none hnone).symm
    · rfl
  unfold modifyExisting
  cases hm : m.types[type]? with
  | none => rfl
  | some records =>
      have hfind : m.recordsOf type = records := by simp [recordsOf, StringMap.find, hm]
      dsimp only
      rw [← hfind, hrecords, hfind, insert_eq_self hm]

end Memory

end Inventory
