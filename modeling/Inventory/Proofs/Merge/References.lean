import Inventory.Merge.Engine
import Inventory.Proofs.Collections
import Mathlib.Data.List.Induction
import Mathlib.Data.List.Nodup

/-!
# Inventory.Proofs.Merge.References

How the engine looks references up.

The references of some entities are collected by their types and by the ids of the entities, and the
answers to them by the ids of those that answer. If every entity is there once, what is found in such a
map is what the entity has (`mem_find_references`, `mem_find_backReferences`).
-/

namespace Inventory

namespace Engine

/-! ## References -/

/-- What an entity refers to, added to what others refer to. -/
def addReferences (found : StringMap (StringMap StringSet)) (e : Entity) :
    StringMap (StringMap StringSet) :=
  e.relationships.foldl (fun found related ids =>
    found.insert related ((StringMap.find found related).insert e.id ids)) found

theorem find_addReferences (found : StringMap (StringMap StringSet)) (e : Entity) (related : String) :
    StringMap.find (addReferences found e) related =
      match e.relationships[related]? with
      | some ids => (StringMap.find found related).insert e.id ids
      | none => StringMap.find found related := by
  have hstep : ∀ (found : StringMap (StringMap StringSet)) (k : String) (ids : StringSet) (k' : String),
      StringMap.find (found.insert k ((StringMap.find found k).insert e.id ids)) k' =
        if k = k' then (StringMap.find found k').insert e.id ids else StringMap.find found k' := by
    intro found k ids k'
    by_cases h : k = k' <;> simp [StringMap.find, Std.ExtTreeMap.getElem?_insert, h]
  have hfold := StringMap.foldl_at (fun found k => StringMap.find found k)
    (fun _ ids byId => byId.insert e.id ids)
    (fun found k ids => found.insert k ((StringMap.find found k).insert e.id ids)) hstep
    e.relationships found related
  cases h : e.relationships[related]? with
  | none => rwa [h] at hfold
  | some ids => rwa [h] at hfold

theorem mem_addReferences {found : StringMap (StringMap StringSet)} {e : Entity} {related : String}
    (h : related ∈ addReferences found e) : related ∈ found ∨ related ∈ e.relationships := by
  rw [addReferences, Std.ExtTreeMap.foldl_eq_foldl_toList] at h
  refine ((StringMap.mem_foldl_insert Prod.fst (fun found p =>
    (StringMap.find found p.1).insert e.id p.2) _ found related).1 h).imp_right fun h => ?_
  rwa [Std.ExtTreeMap.map_fst_toList_eq_keys, Std.ExtTreeMap.mem_keys] at h

/-- References are to types of which an entity has related ids. -/
theorem mem_references {es : List Entity} {related : String} (h : related ∈ references es) :
    ∃ e ∈ es, related ∈ e.relationships := by
  have hreferences : references es = es.foldl addReferences ∅ := rfl
  rw [hreferences] at h
  induction es using List.reverseRecOn with
  | nil => simp at h
  | append_singleton es e ih =>
      rw [List.foldl_append, List.foldl_cons, List.foldl_nil] at h
      rcases mem_addReferences h with h | h
      · obtain ⟨e', he', h⟩ := ih h rfl
        exact ⟨e', List.mem_append_left _ he', h⟩
      · exact ⟨e, by simp, h⟩

/-- References are found by the ids of entities. -/
theorem exists_of_mem_references {es : List Entity} {related : String} {byId : StringMap StringSet}
    (hbyId : (related, byId) ∈ (references es).toList) {p : String × StringSet} (hp : p ∈ byId.toList) :
    ∃ e ∈ es, e.id = p.1 := by
  have hmem : p.1 ∈ StringMap.find (references es) related := by
    rw [StringMap.find_of_mem_toList hbyId]
    exact StringMap.mem_of_mem_toList hp
  have hreferences : references es = es.foldl addReferences ∅ := rfl
  rw [hreferences] at hmem
  clear hbyId hreferences
  induction es using List.reverseRecOn with
  | nil => simp [StringMap.find] at hmem
  | append_singleton es e ih =>
      have hbefore : p.1 ∈ StringMap.find (es.foldl addReferences ∅) related →
          ∃ e' ∈ es ++ [e], e'.id = p.1 := fun h => by
        obtain ⟨e', he', hid⟩ := ih h
        exact ⟨e', List.mem_append_left _ he', hid⟩
      rw [List.foldl_append, List.foldl_cons, List.foldl_nil, find_addReferences] at hmem
      cases hrelated : e.relationships[related]? with
      | none =>
          rw [hrelated] at hmem
          exact hbefore hmem
      | some ids =>
          rw [hrelated] at hmem
          rcases StringMap.mem_insert_iff.1 hmem with hid | hold
          · exact ⟨e, by simp, hid⟩
          · exact hbefore hold

/-- The references of entities of different ids are found by the type and the id of who refers. -/
theorem mem_find_references {es : List Entity} (h : (es.map Entity.id).Nodup) (related id x : String) :
    x ∈ StringMap.find (StringMap.find (references es) related) id ↔
      ∃ e ∈ es, e.id = id ∧ x ∈ StringMap.find e.relationships related := by
  have hreferences : references es = es.foldl addReferences ∅ := rfl
  rw [hreferences]
  induction es using List.reverseRecOn with
  | nil => simp [StringMap.find]
  | append_singleton es e ih =>
      rw [List.map_append, List.nodup_append] at h
      obtain ⟨hes, -, hdisjoint⟩ := h
      have hnot : e.id ∉ es.map Entity.id := fun hmem =>
        hdisjoint e.id hmem e.id (by simp) rfl
      rw [List.foldl_append, List.foldl_cons, List.foldl_nil, find_addReferences]
      have hih := ih hes rfl
      cases hrelated : e.relationships[related]? with
      | none =>
          have hnone : StringMap.find e.relationships related = ∅ := by
            simp [StringMap.find, hrelated]
          refine hih.trans ?_
          simp only [List.mem_append, List.mem_singleton]
          constructor
          · rintro ⟨e', he', hx⟩
            exact ⟨e', .inl he', hx⟩
          · rintro ⟨e', he' | rfl, hid, hx⟩
            · exact ⟨e', he', hid, hx⟩
            · rw [hnone] at hx
              exact absurd hx Std.ExtTreeSet.not_mem_empty
      | some ids =>
          have hsome : StringMap.find e.relationships related = ids := by
            simp [StringMap.find, hrelated]
          by_cases hid : e.id = id
          · subst hid
            rw [StringMap.find, Std.ExtTreeMap.getElem?_insert_self, Option.getD_some]
            constructor
            · exact fun hx => ⟨e, by simp, rfl, by rwa [hsome]⟩
            · rintro ⟨e', he', hid, hx⟩
              rcases List.mem_append.1 he' with he' | he'
              · exact absurd (List.mem_map.2 ⟨e', he', hid⟩) hnot
              · rw [List.mem_singleton] at he'
                rwa [he', hsome] at hx
          · rw [StringMap.find, Std.ExtTreeMap.getElem?_insert, if_neg (by simpa using hid)]
            refine hih.trans ⟨?_, ?_⟩
            · rintro ⟨e', he', hx⟩
              exact ⟨e', List.mem_append_left _ he', hx⟩
            · rintro ⟨e', he', hid', hx⟩
              rcases List.mem_append.1 he' with he' | he'
              · exact ⟨e', he', hid', hx⟩
              · rw [List.mem_singleton] at he'
                exact absurd (he' ▸ hid') hid

/-! ## Answers to references -/

/-- What holders of different ids hold of a type is found by their ids. -/
theorem mem_find_backReferences {holders : List Entity} (h : (holders.map Entity.id).Nodup)
    (type id x : String) :
    x ∈ StringMap.find (backReferences type holders) id ↔
      ∃ e ∈ holders, e.id = id ∧ x ∈ StringMap.find e.relationships type := by
  have hkeys : ((holders.filterMap fun e => (e.related? type).map fun ids => (e.id, ids)).map
      Prod.fst).Sublist (holders.map Entity.id) := by
    rw [List.map_filterMap, ← List.filterMap_eq_map]
    induction holders with
    | nil => exact List.Sublist.refl _
    | cons e holders ih =>
        have hrest := ih (List.nodup_cons.1 h).2
        rw [List.filterMap_cons, List.filterMap_cons]
        cases e.related? type with
        | none => exact hrest.cons _
        | some ids => exact hrest.cons_cons _
  rw [backReferences, StringMap.mem_find_ofList (hkeys.nodup h)]
  constructor
  · rintro ⟨ids, hids, hx⟩
    obtain ⟨e, he, hsome⟩ := List.mem_filterMap.1 hids
    obtain ⟨ids', hids', heq⟩ := Option.map_eq_some_iff.1 hsome
    obtain ⟨rfl, rfl⟩ := Prod.mk.inj heq
    exact ⟨e, he, rfl, by rwa [StringMap.find, ← Entity.related?, hids']⟩
  · rintro ⟨e, he, rfl, hx⟩
    cases hids : e.related? type with
    | none =>
        rw [StringMap.find, ← Entity.related?, hids] at hx
        exact absurd hx Std.ExtTreeSet.not_mem_empty
    | some ids =>
        rw [StringMap.find, ← Entity.related?, hids] at hx
        exact ⟨ids, List.mem_filterMap.2 ⟨e, he, by rw [hids]; rfl⟩, hx⟩

theorem mem_referring {back : StringMap StringSet} {id y : String} {targets : StringSet} :
    y ∈ referring back id targets ↔ y ∈ targets ∧ id ∈ StringMap.find back y := by
  rw [referring, List.mem_filter, Std.ExtTreeSet.mem_toList, Std.ExtTreeSet.contains_iff_mem]

theorem nodup_referring (back : StringMap StringSet) (id : String) (targets : StringSet) :
    (referring back id targets).Nodup := by
  refine List.Nodup.filter _ (List.nodup_iff_pairwise_ne.2 ?_)
  exact Std.ExtTreeSet.distinct_toList.imp fun hne heq => hne (by simp [heq])

/-- The targets of all references are those of each of them. -/
theorem mem_targets {byId : StringMap StringSet} {y : String} :
    y ∈ byId.foldl (fun all _ ids => all ∪ ids) (∅ : StringSet) ↔ ∃ x, y ∈ StringMap.find byId x := by
  have hfold : ∀ (l : List (String × StringSet)) (all : StringSet),
      y ∈ l.foldl (fun all p => all ∪ p.2) all ↔ y ∈ all ∨ ∃ p ∈ l, y ∈ p.2 := by
    intro l
    induction l with
    | nil => simp
    | cons p l ih =>
        intro all
        rw [List.foldl_cons, ih, Std.ExtTreeSet.mem_union_iff]
        simp [or_assoc]
  rw [Std.ExtTreeMap.foldl_eq_foldl_toList, hfold]
  constructor
  · rintro (hempty | ⟨⟨x, ids⟩, hids, hy⟩)
    · exact absurd hempty Std.ExtTreeSet.not_mem_empty
    · exact ⟨x, by rwa [StringMap.find_of_mem_toList hids]⟩
  · rintro ⟨x, hy⟩
    exact .inr ⟨(x, StringMap.find byId x), StringMap.mem_toList_of_mem_find hy, hy⟩

end Engine

end Inventory
