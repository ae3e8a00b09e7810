import Inventory.Proofs.Cache.Written
import Inventory.Proofs.KeyValue.Requests
import Mathlib.Data.List.TakeWhile

/-!
# Inventory.Proofs.Cache.Refused

Writes that are refused because an entity has no id.

Over a key-value store the ids are looked at before anything is asked of the store, so a refused write
leaves the store as it is. In memory they are looked at one by one, so what stands in front of the first
entity without an id has been written (`Memory.writeAll_of_exists`). The refusal leaves no trace there if
and only if that part changes nothing (`refused_write`).
-/

namespace Inventory

/-! ## What is written in memory -/

/-- The record after several entities have been written over it. -/
def Record.writeEach (r : Record) (mode : WriteMode) (es : List Entity) : Record :=
  es.foldl (fun r e => r.write mode e) r

namespace Memory

variable {mode : WriteMode} {type : String} {es : List Entity} {records : StringMap Record}

/-- The entities in front of the first without an id. -/
def accepted (es : List Entity) : List Entity := es.takeWhile fun e => !e.id.isEmpty

theorem forall_of_accepted (es : List Entity) : ∀ e ∈ accepted es, e.id.isEmpty = false :=
  fun _ he => by simpa using List.mem_takeWhile_imp he

/-- A write with an entity without an id fails, after it has written what stands in front of the first
such entity. -/
theorem writeAll_of_exists (h : ∃ e ∈ es, e.id.isEmpty) (records : StringMap Record) :
    writeAll mode type records es =
      ((writeAll mode type records (accepted es)).1, .error (.malformedKey "" (.emptyId type))) := by
  induction es generalizing records with
  | nil => simp at h
  | cons e es ih =>
      by_cases he : e.id.isEmpty
      · have hid : e.id = "" := by simpa using he
        have haccepted : accepted (e :: es) = [] := List.takeWhile_cons_of_neg (by simp [he])
        have hfail : writeAll mode type records (e :: es) =
            (records, .error (.malformedKey e.id (.emptyId type))) := by rw [writeAll, if_pos he]
        rw [haccepted, hfail, hid]
        rfl
      · have haccepted : accepted (e :: es) = e :: accepted es := by
          rw [accepted, List.takeWhile_cons_of_pos (by simp [he])]
          rfl
        have hrest : ∃ e ∈ es, e.id.isEmpty := by
          obtain ⟨e', he', hempty⟩ := h
          rcases List.mem_cons.1 he' with rfl | he'
          · exact absurd hempty he
          · exact ⟨e', he', hempty⟩
        rw [haccepted, writeAll, if_neg he, writeAll, if_neg he]
        exact ih hrest _

/-- What a write makes of the record of an id: all entities of the id are written over it. -/
theorem getElem?_writeAll (hes : ∀ e ∈ es, e.id.isEmpty = false) (records : StringMap Record)
    (id : String) : (writeAll mode type records es).1[id]? =
      if id ∈ es.map Entity.id then
        some ((recordAt records id).writeEach mode (es.filter fun e => e.id = id))
      else records[id]? := by
  induction es generalizing records with
  | nil => simp [writeAll]
  | cons e es ih =>
      have hwritten := ih (fun e he => hes e (List.mem_cons_of_mem _ he))
        (records.insert e.id ((recordAt records e.id).write mode e))
      rw [writeAll, if_neg (by simp [hes e List.mem_cons_self])]
      refine hwritten.trans ?_
      by_cases hid : e.id = id
      · subst hid
        rw [recordAt_insert, if_pos rfl, List.filter_cons_of_pos (by simp),
          List.map_cons, if_pos List.mem_cons_self]
        by_cases hagain : e.id ∈ es.map Entity.id
        · rw [if_pos hagain]
          rfl
        · -- No further entity of the id is left to be written.
          have hnone : es.filter (fun x => x.id = e.id) = [] :=
            List.filter_eq_nil_iff.2 fun x hx hsame =>
              hagain (List.mem_map.2 ⟨x, hx, by simpa using hsame⟩)
          rw [if_neg hagain, hnone, Std.ExtTreeMap.getElem?_insert_self]
          rfl
      · rw [recordAt_insert, if_neg hid, List.filter_cons_of_neg (by simp [hid])]
        simp [Std.ExtTreeMap.getElem?_insert, hid, Ne.symm hid]

variable (mode type) in
/-- A write leaves all records as they are if it leaves those that it is about. -/
theorem writeAll_eq_self_iff (hes : ∀ e ∈ es, e.id.isEmpty = false) (records : StringMap Record) :
    (writeAll mode type records es).1 = records ↔
      ∀ e ∈ es, ∃ r, records[e.id]? = some r ∧
        r.writeEach mode (es.filter fun x => x.id = e.id) = r := by
  have hthere : ∀ e ∈ es, (writeAll mode type records es).1[e.id]? =
      some ((recordAt records e.id).writeEach mode (es.filter fun x => x.id = e.id)) := fun e he => by
    rw [getElem?_writeAll hes, if_pos (List.mem_map.2 ⟨e, he, rfl⟩)]
  constructor
  · intro h e he
    have hrecord := hthere e he
    rw [h] at hrecord
    have hsame := (recordAt_of_getElem? hrecord).symm
    exact ⟨_, hrecord, congrArg (fun r : Record => r.writeEach mode (es.filter fun x => x.id = e.id)) hsame⟩
  · intro h
    refine Std.ExtTreeMap.ext_getElem? fun id => ?_
    by_cases hid : id ∈ es.map Entity.id
    · obtain ⟨e, he, rfl⟩ := List.mem_map.1 hid
      obtain ⟨r, hr, hsame⟩ := h e he
      rw [hthere e he, recordAt_of_getElem? hr, hsame, hr]
    · rw [getElem?_writeAll hes, if_neg hid]

end Memory

/-! ## Refusals -/

open Memory (accepted)

variable {mode : WriteMode} {type : String} {es : List Entity}

/-- A key-value store is not asked anything for a write that is refused, so it stays as it is, whatever it
would have answered. -/
theorem Backend.keyValue_endsIn_of_exists (mode : WriteMode) (type : String)
    (h : ∃ e ∈ es, e.id.isEmpty) (o : KeyValue.Options) (s : Store) :
    (Backend.keyValue o).EndsIn (.write mode type es) s s
      (.error (.malformedKey "" (.emptyId type))) := by
  have hwork : (Backend.keyValue o).work (CachePlan.write mode type es) =
      Plan.done (.error (.malformedKey "" (.emptyId type))) := by
    change (KeyValue.plan o (.write mode type es)).andThen _ = _
    rw [KeyValue.plan_write_of_isEmpty o mode type h]
    rfl
  unfold Backend.EndsIn
  rw [hwork]
  exact ⟨rfl, rfl⟩

/-- A write with an entity without an id is refused. A key-value store is left as it is, in whatever state
it is. In memory the entities in front of the first without an id have been written; no record of any type
has changed if and only if each of them was there already and all that the write has for its id leaves
its record as it is. -/
theorem refused_write (mode : WriteMode) (type : String) (hes : ∃ e ∈ es, e.id.isEmpty) :
    (∀ (o : KeyValue.Options) (s : Store), (Backend.keyValue o).EndsIn (.write mode type es) s s
      (.error (.malformedKey "" (.emptyId type)))) ∧
    ∀ (name : String) (m : Memory), ∃ m' : Memory,
      (Backend.memory name).EndsIn (.write mode type es) m m'
        (.error (.malformedKey "" (.emptyId type))) ∧
      (∀ type', type' ≠ type → m'.recordsOf type' = m.recordsOf type') ∧
      (∀ id, (m'.recordsOf type)[id]? =
        if id ∈ (accepted es).map Entity.id then
          some ((Memory.recordAt (m.recordsOf type) id).writeEach mode
            ((accepted es).filter fun e => e.id = id))
        else (m.recordsOf type)[id]?) ∧
      ((∀ type', m'.recordsOf type' = m.recordsOf type') ↔
        ∀ e ∈ accepted es, ∃ r, (m.recordsOf type)[e.id]? = some r ∧
          r.writeEach mode ((accepted es).filter fun x => x.id = e.id) = r) := by
  refine ⟨Backend.keyValue_endsIn_of_exists mode type hes, fun name m => ?_⟩
  have hends := Backend.memory_endsIn name (.write mode type es) m
  have hrecords := fun type' => Memory.recordsOf_write m mode type es type'
  have hrun : (CachePlan.write mode type es).run Backend.remember m =
      m.answer (.write mode type es) := rfl
  have hreply : (m.answer (.write mode type es)).2 = .error (.malformedKey "" (.emptyId type)) :=
    congrArg Prod.snd (Memory.writeAll_of_exists hes (m.recordsOf type))
  rw [hrun, hreply] at hends
  simp only [Memory.writeAll_of_exists hes] at hrecords
  have hnamed := Memory.forall_of_accepted es
  refine ⟨_, hends, fun type' ht => ?_, fun id => ?_, ?_⟩
  · rw [hrecords, if_neg ht.symm]
  · rw [hrecords, if_pos rfl]
    exact Memory.getElem?_writeAll hnamed _ id
  · rw [← Memory.writeAll_eq_self_iff mode type hnamed]
    constructor
    · intro h
      have hsame := h type
      rwa [hrecords, if_pos rfl] at hsame
    · intro h type'
      rw [hrecords]
      split
      · next ht => rw [← ht, h]
      · rfl

/-! ## An example -/

/-- An entity with attributes. -/
def firstOfThree : Entity := { id := "a", attributes := [("v", .number (.int 1))] }

/-- The entity, another without an id, and a third. -/
def secondWithoutId : List Entity := [firstOfThree, { id := "" }, { id := "b" }]

/-- If the first of three entities is there already, the refusal of the second leaves no trace. -/
theorem refused_write_over_first : (∃ e ∈ secondWithoutId, e.id.isEmpty) ∧ ∃ m m' : Memory,
    (Backend.memory "memory").EndsIn (.write .union "t" (accepted secondWithoutId)) ({} : Memory) m
      (.ok ()) ∧
    (Backend.memory "memory").EndsIn (.write .union "t" secondWithoutId) m m'
      (.error (.malformedKey "" (.emptyId "t"))) ∧
    "a" ∈ m.identifiers "t" ∧ ∀ type', m'.recordsOf type' = m.recordsOf type' := by
  have hes : ∃ e ∈ secondWithoutId, e.id.isEmpty := ⟨{ id := "" }, by simp [secondWithoutId], rfl⟩
  have haccepted : accepted secondWithoutId = [firstOfThree] := rfl
  have hfirst : ∀ e ∈ accepted secondWithoutId, e = firstOfThree := by simp [haccepted]
  let m := (({} : Memory).answer (.write .union "t" (accepted secondWithoutId))).1
  have hholds : ∀ e ∈ accepted secondWithoutId, Memory.Holds .union "t" e m := fun e he =>
    Memory.holds_write (by simp [haccepted]) (Memory.forall_of_accepted _) he _
  obtain ⟨m', hends, -, -, hiff⟩ := (refused_write .union "t" hes).2 "memory" m
  refine ⟨hes, m, m', ?_, hends, ?_, hiff.2 fun e he => ?_⟩
  · exact Backend.memory_endsIn "memory" (.write .union "t" (accepted secondWithoutId)) ({} : Memory)
  · obtain ⟨r, hr, -⟩ := hholds _ (by rw [haccepted]; exact List.mem_cons_self)
    exact StringMap.mem_keySet.2 (Std.ExtTreeMap.mem_iff_isSome_getElem?.2 (hr ▸ rfl))
  · obtain ⟨r, hr, hrecord⟩ := hholds e he
    refine ⟨r, hr, ?_⟩
    rw [hfirst e he, haccepted, List.filter_cons_of_pos (by rfl), List.filter_nil]
    rw [hfirst e he] at hrecord
    exact hrecord.write_eq_self fun related x hx => absurd hx (by simp [StringMap.find, firstOfThree])

/-- The first of three entities is written in memory although the second is refused. -/
theorem first_outlasts_refusal : (∃ e ∈ secondWithoutId, e.id.isEmpty) ∧ ∃ m' : Memory,
    (Backend.memory "memory").EndsIn (.write .union "t" secondWithoutId) ({} : Memory) m'
      (.error (.malformedKey "" (.emptyId "t"))) ∧
    "a" ∉ ({} : Memory).identifiers "t" ∧ "a" ∈ m'.identifiers "t" := by
  refine ⟨⟨{ id := "" }, by simp [secondWithoutId], rfl⟩, _,
    Backend.memory_endsIn "memory" (.write .union "t" secondWithoutId) ({} : Memory), ?_, ?_⟩
  · decide
  · decide +kernel

end Inventory
