import Inventory.Proofs.Staging.Report

/-!
# Inventory.Proofs.Staging.OnDemand

What is lost of the namespace `onDemand`.

On-demand entries can be staged in two areas: in the area that is there for them, and in the namespace
named `onDemand`, as in any other. They are reported in one place, and what the first area has to say takes
the place of what was staged in the second. So something is lost as soon as both areas have something to
say and the second one says more (`Staging.report_onDemand_complete_iff`).
-/

namespace Inventory

/-! ## Calls that were not taken back -/

section Outstanding

variable {α : Type} {stages : α → Prop} {revoke : α}

/-- Something was staged and not taken back by a later call. -/
def Outstanding (stages : α → Prop) (revoke : α) (calls : List α) : Prop :=
  ∃ before c after, calls = before ++ c :: after ∧ stages c ∧ revoke ∉ after

theorem not_outstanding_nil : ¬ Outstanding stages revoke [] := by
  rintro ⟨before, c, after, h, -⟩
  simp at h

theorem outstanding_concat {calls : List α} {c : α} : Outstanding stages revoke (calls ++ [c]) ↔
    stages c ∨ Outstanding stages revoke calls ∧ c ≠ revoke := by
  constructor
  · rintro ⟨before, staged, after, h, hstages, hafter⟩
    obtain rfl | ⟨init, last, rfl⟩ := List.eq_nil_or_concat after
    · obtain ⟨-, rfl⟩ := List.append_singleton_inj.1 h
      exact .inl hstages
    · rw [List.concat_eq_append] at h hafter
      rw [← List.cons_append, ← List.append_assoc] at h
      obtain ⟨rfl, rfl⟩ := List.append_singleton_inj.1 h
      rw [List.mem_append, List.mem_singleton, not_or] at hafter
      exact .inr ⟨⟨before, staged, init, rfl, hstages, hafter.1⟩, Ne.symm hafter.2⟩
  · rintro (hstages | ⟨⟨before, staged, after, rfl, hstages, hafter⟩, hne⟩)
    · exact ⟨calls, c, [], rfl, hstages, by simp⟩
    · refine ⟨before, staged, after ++ [c], by simp, hstages, ?_⟩
      simp [hafter, Ne.symm hne]

end Outstanding

/-! ## The two areas -/

namespace OnDemandArea

variable {id : String} {calls : List Call}

/-- The call stages an entry with the id. -/
def Call.Stages (id : String) : Call → Prop
  | keep e => e.id = id
  | evict _ => False

/-- An entry was staged in the area and not evicted there later. -/
def Standing (id : String) (calls : List Call) : Prop := Outstanding (Call.Stages id) (.evict id) calls

/-- Of the calls for an id the last one counts. -/
theorem mem_kept_ofCalls (id : String) (calls : List Call) :
    id ∈ (ofCalls calls).kept ↔ Standing id calls := by
  induction calls using List.reverseRecOn with
  | nil =>
      have hnone : id ∉ (ofCalls []).kept := Std.ExtTreeMap.not_mem_empty
      exact iff_of_false hnone not_outstanding_nil
  | append_singleton calls c ih =>
      rw [ofCalls_concat, Standing, outstanding_concat, ← Standing, ← ih]
      cases c with
      | keep e => simp [Call.perform, OnDemandArea.keep, Call.Stages]
      | evict evicted =>
          simp [Call.perform, OnDemandArea.evict, Std.ExtTreeMap.mem_erase, Call.Stages, and_comm]

/-- What is staged under an id is an entry with that id. -/
theorem id_of_getElem?_kept {e : Entity} (h : (ofCalls calls).kept[id]? = some e) : e.id = id := by
  induction calls using List.reverseRecOn with
  | nil =>
      rw [show (ofCalls []).kept[id]? = none from Std.ExtTreeMap.getElem?_empty] at h
      contradiction
  | append_singleton calls c ih =>
      rw [ofCalls_concat] at h
      cases c with
      | keep e' =>
          simp only [Call.perform, OnDemandArea.keep, Std.ExtTreeMap.getElem?_insert] at h
          grind
      | evict evicted =>
          simp only [Call.perform, OnDemandArea.evict, Std.ExtTreeMap.getElem?_erase] at h
          grind

theorem mem_evicted_ofCalls (id : String) (calls : List Call) :
    id ∈ (ofCalls calls).evicted ↔ .evict id ∈ calls ∧ ¬ Standing id calls := by
  induction calls using List.reverseRecOn with
  | nil => simp
  | append_singleton calls c ih =>
      rw [ofCalls_concat, Standing, outstanding_concat, ← Standing]
      cases c with
      | keep e =>
          simp only [Call.perform, OnDemandArea.keep, Std.ExtTreeSet.mem_erase, Call.Stages, ih]
          grind
      | evict evicted =>
          simp only [Call.perform, OnDemandArea.evict, Std.ExtTreeSet.mem_insert, Call.Stages, ih]
          grind

end OnDemandArea

namespace Namespace

variable {id : String} {calls : List Call}

/-- The call stages an entity with the id. -/
def Call.Stages (id : String) : Call → Prop
  | keep kept _ => kept = id
  | refresh e => e.id = id
  | _ => False

/-- An entity was staged in the namespace and not evicted there later. -/
def Standing (id : String) (calls : List Call) : Prop := Outstanding (Call.Stages id) (.evict id) calls

theorem Call.stages_iff (c : Call) : c.Stages id ↔ c.change? id ≠ none ∨ c.retained? id ≠ none := by
  cases c <;> simp [Call.Stages, Call.change?, Call.retained?]

/-- What is staged in a namespace stays there, whether it is evicted later or not. -/
theorem mem_entities_ofCalls (id : String) (calls : List Call) :
    id ∈ (ofCalls calls).entities ↔ ∃ c ∈ calls, c.Stages id := by
  have hsome : (staged? id calls).isSome ↔ ¬ (changes id calls = [] ∧ retained id calls = []) := by
    unfold staged?
    by_cases h : changes id calls = [] <;> simp [h, List.getLast?_isSome]
  rw [Std.ExtTreeMap.mem_iff_isSome_getElem?, entities_ofCalls, hsome, changes, retained,
    List.filterMap_eq_nil_iff, List.filterMap_eq_nil_iff]
  simp only [Call.stages_iff]
  grind

/-- What was staged and not evicted later is there. -/
theorem mem_entities_of_standing (h : Standing id calls) : id ∈ (ofCalls calls).entities := by
  obtain ⟨before, c, after, rfl, hstages, -⟩ := h
  exact (mem_entities_ofCalls id _).2 ⟨c, by simp, hstages⟩

theorem mem_evicted_iff (id : String) (calls : List Call) :
    id ∈ (ofCalls calls).evicted ↔ .evict id ∈ calls ∧ id ∉ (ofCalls calls).entities := by
  rw [mem_evicted_ofCalls, mem_entities_ofCalls]
  simp only [changes, retained, List.filterMap_eq_nil_iff, Call.stages_iff]
  grind

end Namespace

namespace Staging

variable {calls : List Call} {id : String}

/-! ## The report of the two areas -/

theorem mem_callsOnDemand {call : OnDemandArea.Call} :
    call ∈ callsOnDemand calls ↔ .onDemand call ∈ calls := by
  rw [callsOnDemand, List.mem_filterMap]
  constructor
  · rintro ⟨c, hc, hdemand⟩
    cases c with
    | on type call => simp [Call.onDemand?] at hdemand
    | onDemand call =>
        obtain rfl := Option.some_inj.1 hdemand
        exact hc
  · exact fun h => ⟨_, h, rfl⟩

theorem mem_kept_onDemand (id : String) (calls : List Call) :
    id ∈ (ofCalls calls).onDemand.kept ↔ OnDemandArea.Standing id (callsOnDemand calls) := by
  rw [onDemand_ofCalls, OnDemandArea.mem_kept_ofCalls]

theorem mem_evicted_onDemand (id : String) (calls : List Call) :
    id ∈ (ofCalls calls).onDemand.evicted ↔
      .onDemand (.evict id) ∈ calls ∧ ¬ OnDemandArea.Standing id (callsOnDemand calls) := by
  rw [onDemand_ofCalls, OnDemandArea.mem_evicted_ofCalls, mem_callsOnDemand]

/-- An entity with the id is staged in one of the two areas. -/
def HoldsOnDemand (s : Staging) (id : String) : Prop :=
  id ∈ (s.namespaceOf onDemandType).entities ∨ id ∈ s.onDemand.kept

/-- If there is anything in the area for on-demand entries, it is what is reported. -/
theorem mem_ids_report_onDemand (id : String) (calls : List Call) :
    id ∈ (ofCalls calls).report.ids onDemandType ↔
      if (ofCalls calls).onDemand.kept.isEmpty = false then id ∈ (ofCalls calls).onDemand.kept
      else id ∈ ((ofCalls calls).namespaceOf onDemandType).entities := by
  rw [Report.ids, entitiesOf_report, Std.ExtTreeSet.mem_ofList, List.contains_iff_mem]
  by_cases h : (ofCalls calls).onDemand.kept.isEmpty = false
  · rw [if_pos ⟨rfl, h⟩, if_pos h, StringMap.map_values_eq_keys, Std.ExtTreeMap.mem_keys]
    rw [onDemand_ofCalls]
    exact fun _ _ => OnDemandArea.id_of_getElem?_kept
  · rw [if_neg (fun hboth => h hboth.2), if_neg h,
      StringMap.map_values_eq_keys fun _ _ => id_of_getElem?_entities, Std.ExtTreeMap.mem_keys]

/-- If there is anything to be evicted in the area for on-demand entries, it is what is reported. -/
theorem mem_evictions_report_onDemand (id : String) (calls : List Call) :
    id ∈ (ofCalls calls).report.evictionsOf onDemandType ↔
      if (ofCalls calls).onDemand.evicted.isEmpty = false then id ∈ (ofCalls calls).onDemand.evicted
      else id ∈ ((ofCalls calls).namespaceOf onDemandType).evicted := by
  rw [evictionsOf_report]
  by_cases h : (ofCalls calls).onDemand.evicted.isEmpty = false
  · rw [if_pos ⟨rfl, h⟩, if_pos h, Std.ExtTreeSet.mem_toList]
  · rw [if_neg (fun hboth => h hboth.2), if_neg h, Std.ExtTreeSet.mem_toList]

/-- Nothing is lost of the entities exactly if the area is empty or has all that is left in the
namespace. -/
theorem ids_complete_iff (calls : List Call) :
    (∀ id, Namespace.Standing id (callsOn onDemandType calls) ∨
        OnDemandArea.Standing id (callsOnDemand calls) →
          id ∈ (ofCalls calls).report.ids onDemandType) ↔
      (∀ id, ¬ OnDemandArea.Standing id (callsOnDemand calls)) ∨
        ∀ id, Namespace.Standing id (callsOn onDemandType calls) →
          OnDemandArea.Standing id (callsOnDemand calls) := by
  have hempty : (ofCalls calls).onDemand.kept.isEmpty = false ↔
      ∃ id, OnDemandArea.Standing id (callsOnDemand calls) := by
    simp only [StringMap.isEmpty_eq_false_iff_exists_mem, mem_kept_onDemand]
  simp only [mem_ids_report_onDemand, mem_kept_onDemand, namespaceOf_ofCalls]
  by_cases h : (ofCalls calls).onDemand.kept.isEmpty = false
  · obtain ⟨id, hid⟩ := hempty.1 h
    simp only [if_pos h]
    grind
  · have hnone : ∀ id, ¬ OnDemandArea.Standing id (callsOnDemand calls) := by grind
    have hnamespace : ∀ id, Namespace.Standing id (callsOn onDemandType calls) →
        id ∈ (Namespace.ofCalls (callsOn onDemandType calls)).entities :=
      fun _ => Namespace.mem_entities_of_standing
    simp only [if_neg h]
    grind

/-- Nothing is lost of the evictions exactly if the area has none or has all that are left in the
namespace. -/
theorem evictions_complete_iff (calls : List Call) :
    (∀ id, .on onDemandType (.evict id) ∈ calls ∨ .onDemand (.evict id) ∈ calls →
        ¬ (ofCalls calls).HoldsOnDemand id →
          id ∈ (ofCalls calls).report.evictionsOf onDemandType) ↔
      (∀ id, .onDemand (.evict id) ∈ calls → OnDemandArea.Standing id (callsOnDemand calls)) ∨
        ∀ id, .on onDemandType (.evict id) ∈ calls → ¬ (ofCalls calls).HoldsOnDemand id →
          .onDemand (.evict id) ∈ calls := by
  have hempty : (ofCalls calls).onDemand.evicted.isEmpty = false ↔
      ∃ id, .onDemand (.evict id) ∈ calls ∧ ¬ OnDemandArea.Standing id (callsOnDemand calls) := by
    simp only [StringSet.isEmpty_eq_false_iff_exists_mem, mem_evicted_onDemand]
  simp only [mem_evictions_report_onDemand, mem_evicted_onDemand, namespaceOf_ofCalls,
    Namespace.mem_evicted_iff, mem_callsOn, HoldsOnDemand, mem_kept_onDemand]
  by_cases h : (ofCalls calls).onDemand.evicted.isEmpty = false
  · obtain ⟨id, hid⟩ := hempty.1 h
    simp only [if_pos h]
    grind
  · have hnone : ∀ id, .onDemand (.evict id) ∈ calls →
        OnDemandArea.Standing id (callsOnDemand calls) := by grind
    simp only [if_neg h]
    grind

/-- Of what was staged on demand nothing is lost exactly if no entry is left in the area for on-demand
entries, or every entity left in the namespace `onDemand` is left in that area as well; and of what is to
be evicted nothing is lost exactly if all evictions in that area were overtaken there, or every id to be
evicted from the namespace was evicted in the area as well. -/
theorem report_onDemand_complete_iff (calls : List Call) :
    ((∀ id, Namespace.Standing id (callsOn onDemandType calls) ∨
        OnDemandArea.Standing id (callsOnDemand calls) →
          id ∈ (ofCalls calls).report.ids onDemandType) ↔
      (∀ id, ¬ OnDemandArea.Standing id (callsOnDemand calls)) ∨
        ∀ id, Namespace.Standing id (callsOn onDemandType calls) →
          OnDemandArea.Standing id (callsOnDemand calls)) ∧
    ((∀ id, .on onDemandType (.evict id) ∈ calls ∨ .onDemand (.evict id) ∈ calls →
        ¬ (ofCalls calls).HoldsOnDemand id →
          id ∈ (ofCalls calls).report.evictionsOf onDemandType) ↔
      (∀ id, .onDemand (.evict id) ∈ calls → OnDemandArea.Standing id (callsOnDemand calls)) ∨
        ∀ id, .on onDemandType (.evict id) ∈ calls → ¬ (ofCalls calls).HoldsOnDemand id →
          .onDemand (.evict id) ∈ calls) :=
  ⟨ids_complete_iff calls, evictions_complete_iff calls⟩

/-- An entry in the area for on-demand entries displaces one that was kept in the namespace. -/
theorem report_onDemand_displaced :
    Namespace.Standing "a" (callsOn onDemandType
      [.on onDemandType (.keep "a" fun d => d), .onDemand (.keep { id := "b" })]) ∧
    "a" ∉ (ofCalls [.on onDemandType (.keep "a" fun d => d),
      .onDemand (.keep { id := "b" })]).report.ids onDemandType := by
  have hkept : (ofCalls [.on onDemandType (.keep "a" fun d => d),
      .onDemand (.keep { id := "b" })]).onDemand.kept =
        (∅ : StringMap Entity).insert "b" { id := "b" } := rfl
  constructor
  · exact ⟨[], _, [], rfl, rfl, by simp⟩
  · rw [mem_ids_report_onDemand, hkept]
    simp

end Staging

end Inventory
