import Inventory.Proofs.Staging.Calls
import Mathlib.Data.String.Basic

/-!
# Inventory.Proofs.Staging.Report

What the report of a staging area holds.

A type is reported as its namespace was staged, the entities and the ids to be evicted by their ids. Only
the on-demand entries, where there are any, take the place of what was staged in the namespace of that
name (`Staging.entitiesOf_report`, `Staging.evictionsOf_report`). Without them a report holds what the
calls on each namespace come to (`Staging.report_ofCalls`).
-/

namespace Inventory

/-! ## Order -/

theorem StringMap.pairwise_keys {α : Type} (m : StringMap α) : m.keys.Pairwise (· < ·) := by
  have hordered := Std.ExtTreeMap.ordered_keys (t := m)
  simpa only [compare_lt_iff_lt] using hordered

theorem StringSet.pairwise_toList (s : StringSet) : s.toList.Pairwise (· < ·) := by
  have hordered := Std.ExtTreeSet.ordered_toList (t := s)
  simpa only [compare_lt_iff_lt] using hordered

namespace Staging

/-! ## The parts of a report -/

section Parts

variable (s : Staging) (type : String)

theorem mem_entities_report : type ∈ s.report.entities ↔
    type ∈ s.namespaces ∨ type = onDemandType ∧ s.onDemand.kept.isEmpty = false := by
  unfold report
  cases s.onDemand.kept.isEmpty with
  | true => simp
  | false =>
      simp only [Bool.false_eq_true, if_false, StringMap.mem_insert_iff, Std.ExtTreeMap.mem_map]
      grind

theorem entitiesOf_report : s.report.entitiesOf type =
    if type = onDemandType ∧ s.onDemand.kept.isEmpty = false then s.onDemand.kept.values
    else (s.namespaceOf type).entities.values := by
  have hnamespace : StringMap.find (s.namespaces.map fun _ n => n.entities.values) type =
      (s.namespaceOf type).entities.values := by
    unfold namespaceOf StringMap.find
    rw [Std.ExtTreeMap.getElem?_map]
    cases s.namespaces[type]? <;> rfl
  unfold Report.entitiesOf report
  rw [StringMap.find_insert_unless, hnamespace]

theorem evictionsOf_report : s.report.evictionsOf type =
    if type = onDemandType ∧ s.onDemand.evicted.isEmpty = false then s.onDemand.evicted.toList
    else (s.namespaceOf type).evicted.toList := by
  have hnamespace : StringMap.find (s.namespaces.filterMap fun _ n =>
      if n.evicted.isEmpty then none else some n.evicted.toList) type =
      (s.namespaceOf type).evicted.toList := by
    unfold namespaceOf StringMap.find
    rw [Std.ExtTreeMap.getElem?_filterMap]
    cases s.namespaces[type]? with
    | none => rfl
    | some n =>
        by_cases h : n.evicted = ∅ <;> simp [h]
  unfold Report.evictionsOf report
  rw [StringMap.find_insert_unless, hnamespace]

end Parts

/-! ## What was staged is reported -/

section Reported

variable {calls : List Call} {type : String}

theorem mem_callsOn {call : Namespace.Call} : call ∈ callsOn type calls ↔ .on type call ∈ calls := by
  rw [callsOn, List.mem_filterMap]
  constructor
  · rintro ⟨c, hc, hon⟩
    cases c with
    | on used call =>
        simp only [Call.on?, Option.ite_none_right_eq_some, Option.some.injEq] at hon
        rwa [← hon.1, ← hon.2]
    | onDemand call => simp [Call.on?] at hon
  · exact fun h => ⟨_, h, by simp [Call.on?]⟩

theorem callsOn_ne_nil_iff : callsOn type calls ≠ [] ↔ ∃ call, .on type call ∈ calls := by
  simp only [← mem_callsOn]
  exact ⟨List.exists_mem_of_ne_nil _, fun ⟨_, h⟩ => List.ne_nil_of_mem h⟩

/-- What is staged under an id of a type is an entity with that id. -/
theorem id_of_getElem?_entities {id : String} {e : Entity}
    (h : ((ofCalls calls).namespaceOf type).entities[id]? = some e) : e.id = id := by
  rw [namespaceOf_ofCalls, Namespace.entities_ofCalls] at h
  exact Namespace.id_of_staged h

theorem mem_values_entities_ofCalls {e : Entity} :
    e ∈ ((ofCalls calls).namespaceOf type).entities.values ↔
      Namespace.staged? e.id (callsOn type calls) = some e := by
  rw [StringMap.mem_values, ← Namespace.entities_ofCalls, ← namespaceOf_ofCalls]
  constructor
  · rintro ⟨id, h⟩
    rwa [id_of_getElem?_entities h]
  · exact fun h => ⟨e.id, h⟩

end Reported

/-- Where no on-demand entries are staged, a report holds what was staged in each namespace, whatever the
order of the calls. The types are those on whose namespaces there was a call. The entities of a type
stand by their ids, one for each. An id that was ever kept has the attributes, the relationships and the
time to live that all changes to its draft come to, where a time of zero is none, and an id that was only
retained has the entity that was retained last. The ids to be evicted are those that were evicted at some
time and never kept or retained. -/
theorem report_ofCalls {calls : List Call} (h : ∀ c ∈ calls, ∃ type call, c = .on type call) :
    (∀ type, type ∈ (ofCalls calls).report.entities ↔ ∃ call, .on type call ∈ calls) ∧
    (∀ type, (((ofCalls calls).report.entitiesOf type).map Entity.id).Pairwise (· < ·)) ∧
    (∀ type e, e ∈ (ofCalls calls).report.entitiesOf type ↔
      (Namespace.changes e.id (callsOn type calls) ≠ [] ∧
        e.attributes = (Namespace.draft e.id (callsOn type calls)).attributes ∧
        e.relationships = (Namespace.draft e.id (callsOn type calls)).relationships ∧
        e.ttl = if (Namespace.draft e.id (callsOn type calls)).ttl = some 0 then none
          else (Namespace.draft e.id (callsOn type calls)).ttl) ∨
      (Namespace.changes e.id (callsOn type calls) = [] ∧
        (Namespace.retained e.id (callsOn type calls)).getLast? = some e)) ∧
    (∀ type, ((ofCalls calls).report.evictionsOf type).Pairwise (· < ·)) ∧
    ∀ type id, id ∈ (ofCalls calls).report.evictionsOf type ↔
      .on type (.evict id) ∈ calls ∧ Namespace.changes id (callsOn type calls) = [] ∧
        Namespace.retained id (callsOn type calls) = [] := by
  have hnone : callsOnDemand calls = [] := by
    rw [callsOnDemand, List.filterMap_eq_nil_iff]
    intro c hc
    obtain ⟨type, call, rfl⟩ := h c hc
    rfl
  have hdemand : (ofCalls calls).onDemand = {} := by rw [onDemand_ofCalls, hnone, OnDemandArea.ofCalls_nil]
  have hkept : (ofCalls calls).onDemand.kept.isEmpty = true := by rw [hdemand]; rfl
  have hevicted : (ofCalls calls).onDemand.evicted.isEmpty = true := by rw [hdemand]; rfl
  have hentities : ∀ type, (ofCalls calls).report.entitiesOf type =
      ((ofCalls calls).namespaceOf type).entities.values := by
    intro type
    rw [entitiesOf_report, if_neg (by simp [hkept])]
  have hevictions : ∀ type, (ofCalls calls).report.evictionsOf type =
      (Namespace.ofCalls (callsOn type calls)).evicted.toList := by
    intro type
    rw [evictionsOf_report, if_neg (by simp [hevicted]), namespaceOf_ofCalls]
  refine ⟨fun type => ?_, fun type => ?_, fun type e => ?_, fun type => ?_, fun type id => ?_⟩
  · rw [mem_entities_report, mem_namespaces_ofCalls, callsOn_ne_nil_iff]
    simp [hkept]
  · rw [hentities, StringMap.map_values_eq_keys fun _ _ => id_of_getElem?_entities]
    exact StringMap.pairwise_keys _
  · rw [hentities, mem_values_entities_ofCalls, Namespace.staged?_eq_some_iff]
  · rw [hevictions]
    exact StringSet.pairwise_toList _
  · rw [hevictions, Std.ExtTreeSet.mem_toList, Namespace.mem_evicted_ofCalls, mem_callsOn]

/-- Calls that retain, keep and evict an image and keep it on, keep a second one, and evict a third one. -/
def imageCalls : List Call :=
  [.on "images" (.refresh { id := "a" }),
    .on "images" (.keep "a" fun d => (d.setAttribute "size" (.string "big")).setTtl 60),
    .on "images" (.keep "a" fun d => (d.addRelationships "disks" ["d"]).setAttribute "name" (.string "web")),
    .on "images" (.evict "a"),
    .on "images" (.keep "a" fun d =>
      (d.addRelationships "disks" ["e"]).setAttribute "size" (.string "small")),
    .on "images" (.keep "c" fun d =>
      (d.setAttributes [("size", .null), ("name", .null)]).removeAttribute "size"),
    .on "images" (.keep "c" fun d => (d.setRelationships
      (((∅ : Relationships).add "disks" ["d"]).add "nets" ["n"])).setTtl 0),
    .on "images" (.keep "c" fun d => d.removeRelationship "nets"), .on "images" (.evict "b")]

/-- What was retained, kept and then evicted is reported with all that it was kept with, and of what was
evicted only the rest is to be evicted. -/
theorem report_ofCalls_images :
    { id := "a"
      attributes := [("size", .string "small"), ("name", .string "web")]
      relationships := (∅ : Relationships).insert "disks" (.ofList ["d", "e"])
      ttl := some 60 } ∈ (ofCalls imageCalls).report.entitiesOf "images" ∧
    { id := "c"
      attributes := [("name", .null)]
      relationships := (∅ : Relationships).insert "disks" (.ofList ["d"]) } ∈
        (ofCalls imageCalls).report.entitiesOf "images" ∧
    ∀ id, id ∈ (ofCalls imageCalls).report.evictionsOf "images" ↔ id = "b" := by
  obtain ⟨-, -, hentities, -, hevictions⟩ := @report_ofCalls imageCalls (by simp [imageCalls])
  refine ⟨?_, ?_, fun id => ?_⟩
  · exact (hentities _ _).2 (.inl ⟨List.cons_ne_nil _ _, rfl, rfl, rfl⟩)
  · exact (hentities _ _).2 (.inl ⟨List.cons_ne_nil _ _, rfl, rfl, rfl⟩)
  · rw [hevictions]
    constructor
    · rintro ⟨hevict, hunchanged, -⟩
      simp only [imageCalls, List.mem_cons, Call.on.injEq, Namespace.Call.evict.injEq, true_and, reduceCtorEq,
        and_false, false_or, List.not_mem_nil, or_false] at hevict
      rcases hevict with rfl | rfl
      · exact absurd hunchanged (List.cons_ne_nil _ _)
      · rfl
    · rintro rfl
      exact ⟨by simp [imageCalls], rfl, rfl⟩

end Staging

end Inventory
