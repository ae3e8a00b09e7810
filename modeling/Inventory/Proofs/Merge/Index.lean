import Inventory.Merge.Engine
import Inventory.Proofs.KeyValue.Requests

/-!
# Inventory.Proofs.Merge.Index

Which ids a type has after a report has been merged.

The engine reaches the ids of a type by the requests about that type alone, and what it asks of a
cache to know and to change them is little (`KeepsIds`). From that, the ids after each of its phases
follow, and so the ids after the whole (`run_mergeSnapshot`, `run_mergePartial`), whatever the cache is
built on.
-/

namespace Inventory

/-- Whether a request may change the ids of a type. -/
def CacheRequest.changesIdsOf (type : String) : CacheRequest → Bool
  | write _ t _ | evict t _ => t == type
  | _ => false

theorem CacheRequest.changesIdsOf_of_isRead {r : CacheRequest} (h : r.isRead) (type : String) :
    r.changesIdsOf type = false := by
  cases r <;> first | rfl | contradiction

/-- What a cache must do for the ids of a type, seen as a set in each of its states. -/
structure KeepsIds {σ : Type} (respond : Plan.Responder CacheRequest CacheRequest.Reply σ)
    (type : String) (valid : σ → Prop) (ids : σ → StringSet) : Prop where
  stays : ∀ r s, valid s → valid (respond r s).1
  other : ∀ r s, valid s → r.changesIdsOf type = false → ids (respond r s).1 = ids s
  identifiers : ∀ s, valid s → (respond (.identifiers type) s).2 = .ok (ids s)
  existing : ∀ s l, valid s →
    (respond (.existing type l) s).2 = .ok (.ofList (l.filter (ids s).contains))
  write : ∀ s mode es, valid s → (respond (.write mode type es) s).2 = .ok () →
    ∀ x, x ∈ ids (respond (.write mode type es) s).1 ↔ x ∈ ids s ∨ x ∈ es.map Entity.id
  evict : ∀ s l, valid s → (respond (.evict type l) s).2 = .ok () →
    ∀ x, x ∈ ids (respond (.evict type l) s).1 ↔ x ∈ ids s ∧ x ∉ l

namespace Engine

variable (engine : Engine) (source : Source) (authoritative : StringSet) (r : Report)
  (type : String) (before : StringSet)

/-- Those of some ids that are in the scope of the source and that the report does not name. -/
def staleIn : StringSet :=
  before.filter fun id => source.scope.contains engine.parsers id && !(r.ids type).contains id

/-- The ids that a report makes stale. -/
def staleOf : StringSet :=
  if type ∈ authoritative then staleIn engine source r type before else ∅

/-- The ids after some of them have been evicted, stale or named by the report, and those of the
report written. -/
def merged (stale : StringSet) : StringSet :=
  ((before \ stale) \ .ofList (explicitIds r type)) ∪ r.ids type

variable {r type} in
/-- Only types of which ids are stale or named for eviction have ids to be evicted. -/
theorem mem_evictions_types {stale : StringMap StringSet} (h : type ∈ evictions stale r) :
    type ∈ stale ∨ type ∈ r.evictions := by
  have hfold := StringMap.mem_foldl_insert (fun t : String => t)
    (fun evictions t => (StringMap.find evictions t).insertMany (explicitIds r t))
    r.evictions.keys stale type
  rw [List.map_id', Std.ExtTreeMap.mem_keys] at hfold
  exact hfold.1 h

end Engine

namespace KeepsIds

open Engine

variable {σ : Type} {respond : Plan.Responder CacheRequest CacheRequest.Reply σ} {type : String}
  {valid : σ → Prop} {ids : σ → StringSet} {α : Type} {s s' : σ}

/-- Requests that do not change the ids of the type leave them as they are. -/
theorem asks (K : KeepsIds respond type valid ids) {p : CachePlan α}
    (hp : p.Asks fun r => r.changesIdsOf type = false) (hs : valid s) :
    valid (p.run respond s).1 ∧ ids (p.run respond s).1 = ids s :=
  Plan.run_of_asks (fun s' => valid s' ∧ ids s' = ids s)
    (fun r s' hr hs' => ⟨K.stays r s' hs'.1, (K.other r s' hs'.1 hr).trans hs'.2⟩) hp ⟨hs, rfl⟩

variable (engine : Engine) (source : Source) (authoritative : StringSet) (r : Report)

/-! ## What the report lacks -/

theorem run_checkAll {l : List (String × String)}
    (h : (checkAll engine source l).run respond s = (s', .ok ())) : s' = s := by
  induction l with
  | nil => exact (congrArg Prod.fst h).symm
  | cons p l ih =>
      obtain ⟨t, id⟩ := p
      rw [checkAll] at h
      cases hcheck : engine.checkId t id with
      | ok u =>
          rw [hcheck] at h
          exact ih h
      | error e =>
          rw [hcheck] at h
          exact absurd (congrArg Prod.snd h) (by simp)

theorem asks_scopedIds (t : String) (scope : Scope) :
    (scopedIds engine t scope).Asks fun r => r.isRead := by
  cases scope with
  | ids members => exact Plan.asks_perform rfl
  | everything => exact Plan.asks_bind (Plan.asks_perform rfl) fun _ => trivial
  | account provider name region => exact Plan.asks_bind (Plan.asks_perform rfl) fun _ => trivial

/-- However the ids in a scope are read, they are the ids of the type that are in it. -/
theorem run_scopedIds (K : KeepsIds respond type valid ids) (hs : valid s) (scope : Scope) :
    ((scopedIds engine type scope).run respond s).2 =
      .ok ((ids s).filter (scope.contains engine.parsers)) := by
  have hidentifiers : ∀ f : StringSet → StringSet,
      ((CachePlan.identifiers type >>= fun all => pure (f all)).run respond s).2 =
        .ok (f (ids s)) := by
    intro f
    have hreply : (CachePlan.identifiers type).run respond s =
        ((respond (.identifiers type) s).1, .ok (ids s)) := Prod.ext rfl (K.identifiers s hs)
    rw [Plan.run_bind, hreply]
    rfl
  cases scope with
  | ids members =>
      refine (K.existing s members.toList hs).trans (congrArg Except.ok ?_)
      refine Std.ExtTreeSet.ext_mem fun x => ?_
      simp [Scope.contains, and_comm]
  | everything => exact hidentifiers _
  | account provider name region => exact hidentifiers _

theorem run_staleIds (K : KeepsIds respond type valid ids) (hs : valid s)
    {stale : StringMap StringSet}
    (h : (staleIds engine source authoritative r).run respond s = (s', .ok stale)) :
    valid s' ∧ ids s' = ids s ∧
      StringMap.find stale type = staleOf engine source authoritative r type (ids s) := by
  have hstep : ∀ (stale : StringMap StringSet) (t : String),
      (do let cached ← scopedIds engine t source.scope
          return stale.insert t (cached.filter fun id => !(r.ids t).contains id) :
        CachePlan (StringMap StringSet)).Asks fun r => r.changesIdsOf type = false :=
    fun stale t => Plan.asks_bind ((asks_scopedIds engine t source.scope).mono fun _ hread =>
      CacheRequest.changesIdsOf_of_isRead hread type) fun _ => trivial
  suffices hloop : ∀ (l : List String) (s : σ) (found : StringMap StringSet), valid s →
      (Plan.forEach l found fun stale t => do
        let cached ← scopedIds engine t source.scope
        return stale.insert t (cached.filter fun id => !(r.ids t).contains id)).run respond s =
          (s', .ok stale) →
      valid s' ∧ ids s' = ids s ∧ StringMap.find stale type =
        if type ∈ l then staleIn engine source r type (ids s) else StringMap.find found type by
    obtain ⟨hvalid, hids, hfind⟩ := hloop _ s ∅ hs h
    refine ⟨hvalid, hids, hfind.trans ?_⟩
    simp [staleOf, StringMap.find]
  intro l
  induction l with
  | nil =>
      intro s found hs h
      cases h
      exact ⟨hs, rfl, by simp⟩
  | cons t l ih =>
      intro s found hs h
      obtain ⟨s₁, found₁, hfirst, hrest⟩ := (Plan.run_forEach_cons_eq_ok respond).1 h
      have hstate := K.asks (hstep found t) hs
      rw [hfirst] at hstate
      obtain ⟨hvalid, hids, hfind⟩ := ih s₁ found₁ hstate.1 hrest
      refine ⟨hvalid, hids.trans hstate.2, hfind.trans ?_⟩
      obtain ⟨s₂, cached, hscoped, hpure⟩ := (Plan.run_bind_eq_ok respond).1 hfirst
      obtain ⟨-, hfound⟩ := Prod.mk.inj hpure
      obtain rfl := Except.ok.inj hfound
      by_cases ht : t = type
      · subst ht
        have hcached : cached = (ids s).filter (source.scope.contains engine.parsers) := by
          have hreply := K.run_scopedIds engine hs source.scope
          rw [hscoped] at hreply
          exact Except.ok.inj hreply
        have hstale : cached.filter (fun id => !(r.ids t).contains id) =
            staleIn engine source r t (ids s) := by
          refine Std.ExtTreeSet.ext_mem fun x => ?_
          rw [hcached, staleIn, StringSet.mem_filter, StringSet.mem_filter, StringSet.mem_filter,
            Bool.and_eq_true, and_assoc]
        rw [hstate.2, hstale, StringMap.find, Std.ExtTreeMap.getElem?_insert_self]
        simp
      · simp [hstate.2, StringMap.find, Std.ExtTreeMap.getElem?_insert, ht, Ne.symm ht]

/-! ## What the report writes -/

/-- With authority or without, the entities that are written have the ids of the report. -/
theorem exists_of_run_writeType {t : String} {es : List Entity}
    (h : (writeType authoritative t es).run respond s = (s', .ok ())) :
    ∃ mode es', es'.map Entity.id = es.map Entity.id ∧
      respond (.write mode t es') s = (s', .ok ()) := by
  unfold writeType at h
  split at h
  · exact ⟨.replace, es, rfl, h⟩
  · split at h
    · exact ⟨.union, es, rfl, h⟩
    · exact ⟨.union, es.map Entity.withoutAttributes, by simp [Entity.withoutAttributes], h⟩

theorem run_writeType (K : KeepsIds respond type valid ids) (hs : valid s) {t : String}
    {es : List Entity} (h : (writeType authoritative t es).run respond s = (s', .ok ())) :
    valid s' ∧ ∀ x, x ∈ ids s' ↔ x ∈ ids s ∨ t = type ∧ x ∈ es.map Entity.id := by
  obtain ⟨mode, es', hes, hwrite⟩ := exists_of_run_writeType authoritative h
  obtain rfl : (respond (.write mode t es') s).1 = s' := congrArg Prod.fst hwrite
  refine ⟨K.stays _ s hs, fun x => ?_⟩
  by_cases ht : t = type
  · subst ht
    rw [K.write s mode es' hs (congrArg Prod.snd hwrite) x, hes]
    simp
  · rw [K.other _ s hs (by simpa [CacheRequest.changesIdsOf] using ht)]
    simp [ht]

theorem mem_ids {x : String} :
    x ∈ r.ids type ↔ ∃ es, (type, es) ∈ r.entities.toList ∧ x ∈ es.map Entity.id := by
  rw [Report.ids, Report.entitiesOf, StringMap.find]
  simp only [Std.ExtTreeMap.mem_toList_iff_getElem?_eq_some]
  cases h : r.entities[type]? with
  | none => simp
  | some es => simp

/-- After the writes the ids of the report are there as well. -/
theorem run_writeAll (K : KeepsIds respond type valid ids) (hs : valid s) {stats : MergeStats}
    (h : (writeAll authoritative r).run respond s = (s', .ok stats)) :
    valid s' ∧ ∀ x, x ∈ ids s' ↔ x ∈ ids s ∨ x ∈ r.ids type := by
  suffices hloop : ∀ (l : List (String × List Entity)) (s : σ) (stats₀ : MergeStats), valid s →
      (Plan.forEach l stats₀ fun stats p =>
        if p.2.isEmpty then .give stats
        else do
          writeType authoritative p.1 p.2
          return stats.wrote p.1 p.2.length).run respond s = (s', .ok stats) →
      valid s' ∧ ∀ x, x ∈ ids s' ↔
        x ∈ ids s ∨ ∃ es, (type, es) ∈ l ∧ x ∈ es.map Entity.id by
    obtain ⟨hvalid, hmem⟩ := hloop _ s {} hs h
    exact ⟨hvalid, fun x => (hmem x).trans (or_congr_right (mem_ids r).symm)⟩
  intro l
  induction l with
  | nil =>
      intro s stats₀ hs h
      cases h
      exact ⟨hs, fun x => by simp⟩
  | cons p l ih =>
      obtain ⟨t, es⟩ := p
      intro s stats₀ hs h
      obtain ⟨s₁, stats₁, hfirst, hrest⟩ := (Plan.run_forEach_cons_eq_ok respond).1 h
      have hstep : valid s₁ ∧ ∀ x, x ∈ ids s₁ ↔ x ∈ ids s ∨ t = type ∧ x ∈ es.map Entity.id := by
        by_cases hempty : es.isEmpty
        · rw [List.isEmpty_iff.1 hempty] at hfirst ⊢
          cases hfirst
          exact ⟨hs, fun x => by simp⟩
        · dsimp only at hfirst
          rw [if_neg hempty] at hfirst
          obtain ⟨s₂, u, hwrite, hpure⟩ := (Plan.run_bind_eq_ok respond).1 hfirst
          cases hpure
          exact K.run_writeType authoritative hs hwrite
      obtain ⟨hvalid, hmem⟩ := ih s₁ stats₁ hstep.1 hrest
      refine ⟨hvalid, fun x => ?_⟩
      rw [hmem, hstep.2]
      grind

/-! ## What is evicted -/

/-- What is to be evicted is stale, or named by the report and not written. -/
theorem mem_evictions (stale : StringMap StringSet) (x : String) :
    x ∈ StringMap.find (evictions stale r) type ↔
      x ∈ StringMap.find stale type ∨ x ∈ explicitIds r type := by
  have hloop : ∀ (l : List String) (found : StringMap StringSet),
      x ∈ StringMap.find (l.foldl (fun evictions t =>
        evictions.insert t ((StringMap.find evictions t).insertMany (explicitIds r t))) found) type ↔
      x ∈ StringMap.find found type ∨ type ∈ l ∧ x ∈ explicitIds r type := by
    intro l
    induction l with
    | nil => simp
    | cons t l ih =>
        intro found
        rw [List.foldl_cons, ih]
        by_cases ht : t = type
        · subst ht
          simp only [StringMap.find, Std.ExtTreeMap.getElem?_insert_self, Option.getD_some,
            Std.ExtTreeSet.mem_insertMany_list, List.contains_iff_mem, List.mem_cons, true_or, true_and]
          grind
        · simp [StringMap.find, Std.ExtTreeMap.getElem?_insert, ht, Ne.symm ht]
  rw [evictions, hloop]
  refine or_congr_right (and_iff_right_of_imp fun hx => ?_)
  rw [explicitIds, Report.evictionsOf, StringMap.find] at hx
  rw [Std.ExtTreeMap.mem_keys, Std.ExtTreeMap.mem_iff_isSome_getElem?]
  cases h : r.evictions[type]? with
  | none => simp [h] at hx
  | some l => rfl

/-- Whatever references are removed, no id is. -/
theorem asks_cascade (t : String) (l : List String) (stats : MergeStats) :
    (cascade t l stats).Asks fun r => r.changesIdsOf type = false := by
  have hunlinkOne : ∀ (related : String) (back : StringMap StringSet) (stats : MergeStats)
      (id : String) (targets : StringSet),
      (unlinkOne t related back stats id targets).Asks fun r => r.changesIdsOf type = false := by
    intro related back stats id targets
    unfold unlinkOne
    dsimp only
    split
    · trivial
    · refine Plan.asks_bind (Plan.asks_attempt (Plan.asks_perform rfl)) fun result => ?_
      cases result <;> trivial
  refine Plan.asks_bind (Plan.asks_perform rfl) fun evicted => ?_
  refine Plan.asks_forEach fun stats (related, byId) _ => ?_
  refine Plan.asks_bind (Plan.asks_attempt (Plan.asks_perform rfl)) fun result => ?_
  cases result with
  | error e => trivial
  | ok holders => exact Plan.asks_forEach fun stats (id, targets) _ => hunlinkOne _ _ _ _ _

theorem run_evictType (K : KeepsIds respond type valid ids) (hs : valid s) {t : String}
    {l : StringSet} {stats stats' : MergeStats}
    (h : (evictType stats t l).run respond s = (s', .ok stats')) :
    valid s' ∧ ∀ x, x ∈ ids s' ↔ x ∈ ids s ∧ ¬ (t = type ∧ x ∈ l) := by
  unfold evictType at h
  by_cases hempty : l.isEmpty
  · rw [if_pos hempty] at h
    cases h
    exact ⟨hs, fun x => by simp [Std.ExtTreeSet.isEmpty_iff.1 hempty]⟩
  · rw [if_neg hempty] at h
    obtain ⟨s₁, result, hcascade, h⟩ := (Plan.run_bind_eq_ok respond).1 h
    have hstate := K.asks (Plan.asks_attempt (asks_cascade t l.toList stats)) hs
    rw [hcascade] at hstate
    obtain ⟨stats₁, h⟩ : ∃ stats₁ : MergeStats, (do
        CachePlan.evict t l.toList
        return stats₁.hasEvicted t l.size).run respond s₁ = (s', .ok stats') := by
      cases result <;> exact ⟨_, h⟩
    obtain ⟨s₂, u, hevict, hpure⟩ := (Plan.run_bind_eq_ok respond).1 h
    cases hpure
    obtain rfl : (respond (.evict t l.toList) s₁).1 = s' := congrArg Prod.fst hevict
    refine ⟨K.stays _ s₁ hstate.1, fun x => ?_⟩
    by_cases ht : t = type
    · subst ht
      rw [K.evict s₁ l.toList hstate.1 (congrArg Prod.snd hevict), hstate.2]
      simp
    · rw [K.other _ s₁ hstate.1 (by simpa [CacheRequest.changesIdsOf] using ht), hstate.2]
      simp [ht]

/-- After the evictions the ids to be evicted are gone. -/
theorem run_evictAll (K : KeepsIds respond type valid ids) (hs : valid s)
    {gone : StringMap StringSet} {stats stats' : MergeStats}
    (h : (evictAll gone stats).run respond s = (s', .ok stats')) :
    valid s' ∧ ∀ x, x ∈ ids s' ↔ x ∈ ids s ∧ x ∉ StringMap.find gone type := by
  suffices hloop : ∀ (l : List (String × StringSet)) (s : σ) (stats : MergeStats), valid s →
      (Plan.forEach l stats fun stats p => evictType stats p.1 p.2).run respond s =
        (s', .ok stats') →
      valid s' ∧ ∀ x, x ∈ ids s' ↔ x ∈ ids s ∧ ∀ xs, (type, xs) ∈ l → x ∉ xs by
    obtain ⟨hvalid, hmem⟩ := hloop _ s stats hs h
    refine ⟨hvalid, fun x => (hmem x).trans (and_congr_right fun _ => ?_)⟩
    simp only [Std.ExtTreeMap.mem_toList_iff_getElem?_eq_some, StringMap.find]
    cases hfind : gone[type]? with
    | none => simp
    | some xs => simp
  intro l
  induction l with
  | nil =>
      intro s stats hs h
      cases h
      exact ⟨hs, fun x => by simp⟩
  | cons p l ih =>
      obtain ⟨t, xs⟩ := p
      intro s stats hs h
      obtain ⟨s₁, stats₁, hfirst, hrest⟩ := (Plan.run_forEach_cons_eq_ok respond).1 h
      obtain ⟨hvalid₁, hmem₁⟩ := K.run_evictType hs hfirst
      obtain ⟨hvalid, hmem⟩ := ih s₁ stats₁ hvalid₁ hrest
      refine ⟨hvalid, fun x => ?_⟩
      rw [hmem, hmem₁]
      grind

/-! ## Merging -/

theorem mem_merged {stale before : StringSet} (hstale : ∀ x ∈ stale, x ∉ r.ids type) (x : String) :
    x ∈ merged r type before stale ↔
      (x ∈ before ∨ x ∈ r.ids type) ∧ ¬ (x ∈ stale ∨ x ∈ explicitIds r type) := by
  have hexplicit : x ∈ explicitIds r type → x ∉ r.ids type := fun h => by
    simpa [← Std.ExtTreeSet.contains_iff_mem] using (List.mem_filter.1 h).2
  have hstale := hstale x
  rw [merged, Std.ExtTreeSet.mem_union_iff, Std.ExtTreeSet.mem_diff_iff, Std.ExtTreeSet.mem_diff_iff,
    Std.ExtTreeSet.mem_ofList, List.contains_iff_mem]
  grind

/-- Whatever is stale, it is what the writes did not bring that is gone after the evictions. -/
theorem run_apply (K : KeepsIds respond type valid ids) (hs : valid s)
    {stale : StringMap StringSet} (hstale : ∀ x ∈ StringMap.find stale type, x ∉ r.ids type)
    {stats : MergeStats} (h : (apply authoritative r stale).run respond s = (s', .ok stats)) :
    valid s' ∧ ids s' = merged r type (ids s) (StringMap.find stale type) := by
  obtain ⟨s₁, stats₁, hwrite, hevict⟩ := (Plan.run_bind_eq_ok respond).1 h
  obtain ⟨hvalid₁, hmem₁⟩ := K.run_writeAll authoritative r hs hwrite
  obtain ⟨hvalid, hmem⟩ := K.run_evictAll hvalid₁ hevict
  refine ⟨hvalid, Std.ExtTreeSet.ext_mem fun x => ?_⟩
  rw [hmem, hmem₁, mem_evictions, mem_merged r hstale]

theorem not_mem_ids_of_mem_staleOf {before : StringSet} {x : String}
    (h : x ∈ staleOf engine source authoritative r type before) : x ∉ r.ids type := by
  unfold staleOf at h
  split at h
  · rw [staleIn, StringSet.mem_filter, Bool.and_eq_true] at h
    simpa [← Std.ExtTreeSet.contains_iff_mem] using h.2.2
  · simp at h

/-- What a report on the whole scope of its source makes of the ids of a type. -/
theorem run_mergeSnapshot (K : KeepsIds respond type valid ids) (hs : valid s) {stats : MergeStats}
    (h : (mergeSnapshot engine source authoritative r).run respond s = (s', .ok stats)) :
    valid s' ∧
      ids s' = merged r type (ids s) (staleOf engine source authoritative r type (ids s)) := by
  obtain ⟨s₁, u, hcheck, hrest⟩ := (Plan.run_bind_eq_ok respond).1 h
  obtain rfl := run_checkAll engine source hcheck
  obtain ⟨s₂, stale, hfound, happly⟩ := (Plan.run_bind_eq_ok respond).1 hrest
  obtain ⟨hvalid₂, hids₂, hstale⟩ := K.run_staleIds engine source authoritative r hs hfound
  have hnot : ∀ x ∈ StringMap.find stale type, x ∉ r.ids type := fun x hx =>
    not_mem_ids_of_mem_staleOf engine source authoritative r (hstale ▸ hx)
  rw [← hstale, ← hids₂]
  exact K.run_apply authoritative r hvalid₂ hnot happly

/-- What a report on a part of the scope of its source makes of the ids of a type. -/
theorem run_mergePartial (K : KeepsIds respond type valid ids) (hs : valid s) {stats : MergeStats}
    (h : (mergePartial engine source authoritative r).run respond s = (s', .ok stats)) :
    valid s' ∧ ids s' = merged r type (ids s) ∅ := by
  obtain ⟨s₁, u, hcheck, happly⟩ := (Plan.run_bind_eq_ok respond).1 h
  obtain rfl := run_checkAll engine source hcheck
  have hnone : StringMap.find (∅ : StringMap StringSet) type = ∅ := by simp [StringMap.find]
  have hrun := K.run_apply authoritative r hs (by simp [hnone]) happly
  rwa [hnone] at hrun

end KeepsIds

/-- The ids after a merge are those that were there or are written, but for those to be evicted. -/
theorem Engine.mem_merged_staleOf (engine : Engine) (source : Source) (authoritative : StringSet)
    {r : Report} {type : String} (before : StringSet) (x : String) :
    x ∈ merged r type before (staleOf engine source authoritative r type before) ↔
      (x ∈ before ∨ x ∈ r.ids type) ∧
        ¬ (x ∈ staleOf engine source authoritative r type before ∨ x ∈ explicitIds r type) :=
  KeepsIds.mem_merged r
    (fun _ h => KeepsIds.not_mem_ids_of_mem_staleOf engine source authoritative r h) x

end Inventory
