import Inventory.Agent.OnDemand
import Inventory.Proofs.Merge.Contributions

/-!
# Inventory.Proofs.Merge.Refreshing

What a merge makes of a refresh on demand.

The source of a refresh answers for the ids that its report names under any type, and for no others. So
what the report does not name stays in every type with its attributes, while an id that it names under one
type only may be evicted from others for which the source has authority (`refresh_evicts_mentioned`).
-/

namespace Inventory

open KeyValue Engine

namespace Medium

variable {medium : Medium} {type t id : String} {m m₀ : medium.View} {es : List Entity}

/-! ## One entity that is not written -/

/-- A write leaves the attributes of all ids that it does not name. -/
theorem attributesAt_write_other (hes : ∀ e ∈ es, e.id.isEmpty = false) (hid : id ∉ es.map Entity.id)
    (mode : WriteMode) : medium.attributesAt type id (medium.respond (.write mode type es) m).1 =
      medium.attributesAt type id m := by
  cases medium with
  | memory name =>
      refine congrArg Except.ok ((congrArg (fun records => (Memory.recordAt records id).attributes)
        (Memory.recordsOf_write_self m)).trans ?_)
      rw [Memory.recordAt, Memory.getElem?_writeAll_of_not_mem hid hes]
      rfl
  | node o name =>
      exact congrArg Cell.attributes ((congrFun (congrArg Prod.fst (respond_write hes m)) _).trans
        (put_attributes_of_not_mem hid m))

/-- An entity has the attributes that it had. -/
structure Retains (medium : Medium) (type id : String) (m₀ m : medium.View) : Prop where
  inOrder : medium.InOrder m
  attributes : medium.attributesAt type id m = medium.attributesAt type id m₀

namespace Retains

variable (h : medium.Retains type id m₀ m) (ht : medium.Tells type) (ht' : medium.Tells t)

include h ht

theorem write {mode : WriteMode} (hsuits : (CacheRequest.write mode t es).Suits medium.Tells fun _ => True)
    (hes : ∀ e ∈ es, e.id.isEmpty = false) (hid : t = type → id ∉ es.map Entity.id) :
    medium.Retains type id m₀ (medium.respond (.write mode t es) m).1 where
  inOrder := h.inOrder.respond hsuits
  attributes := by
    by_cases htype : t = type
    · subst htype
      exact (attributesAt_write_other hes (hid rfl) mode).trans h.attributes
    · exact (attributesAt_other ht (q := .write mode t es) hsuits.1 htype).trans h.attributes

include ht'

theorem evict {ids : List String} (hid : t = type → id ∉ ids) :
    medium.Retains type id m₀ (medium.respond (.evict t ids) m).1 where
  inOrder := h.inOrder.respond (q := .evict t ids) ht'
  attributes := by
    by_cases htype : t = type
    · subst htype
      exact (attributesAt_evict (hid rfl)).trans h.attributes
    · exact (attributesAt_other ht (q := .evict t ids) ht' htype).trans h.attributes

theorem unlink (ids : List String) {related : String} (hrelated : medium.Tells related)
    (targets : List String) :
    medium.Retains type id m₀ (medium.respond (.unlink t ids related targets) m).1 where
  inOrder := h.inOrder.respond (q := .unlink t ids related targets) ⟨ht', hrelated⟩
  attributes := by
    by_cases htype : t = type
    · subst htype
      exact (attributesAt_unlink ids related targets).trans h.attributes
    · exact (attributesAt_other ht (q := .unlink t ids related targets) ht' htype).trans h.attributes

end Retains

theorem bears_retains (ht : medium.Tells type) :
    Bears medium.respond (.alone _) medium.Tells (medium.Retains type id m₀) where
  stable := Plan.Conduct.stable_alone _
  entities t ids filter m _ h := by
    have hread := medium.keepsEntities.reads (.entities t ids filter) m rfl
    exact ⟨trivial, hread.symm ▸ h, fun es hes e he related hrelated =>
      h.inOrder.tells_of_entities ‹_› hes he hrelated⟩
  unlink t ids related targets m ht' hrelated h :=
    ⟨trivial, h.unlink ht ht' ids hrelated targets⟩

/-! ## The merge -/

section Phases

variable {engine : Engine} {authoritative : StringSet} {r : Report} {stale : StringMap StringSet}
  {bad : Error → medium.View → Prop} (hr : r.Suits medium.Tells fun _ => True) (ht : medium.Tells type)

include hr ht

theorem fulfils_writeAll_retains (haccepts : engine.Accepts r) (hid : id ∉ r.ids type) :
    Plan.Fulfils medium.respond (.alone _) (medium.Retains type id m₀) (writeAll authoritative r)
      (fun _ => medium.Retains type id m₀) bad := by
  refine fulfils_writeAll authoritative r (fun _ => medium.Retains type id m₀)
    (fun _ => Plan.Conduct.stable_alone _) (fun _ _ _ h => h) fun t es rest hmem hne m h => ?_
  obtain rfl : r.entitiesOf t = es := StringMap.find_of_mem_toList hmem
  have hes : ∀ e ∈ (r.entitiesOf t).map (partOf authoritative t), e.id.isEmpty = false :=
    fun e he => isEmpty_of_mem_partOf haccepts he
  refine ⟨trivial, respond_write_snd _ _ hes m,
    h.write ht (suits_write authoritative hr hne _) hes fun htype hmem => hid ?_⟩
  subst htype
  rw [map_id_partOf] at hmem
  obtain ⟨e, he, rfl⟩ := List.mem_map.1 hmem
  exact mem_ids_of_mem_entitiesOf he

/-- A report leaves the attributes of what it neither writes nor evicts. -/
theorem fulfils_apply_retains (haccepts : engine.Accepts r) (hid : id ∉ r.ids type)
    (hstale : ∀ t ∈ stale, medium.Tells t) (hkept : id ∉ StringMap.find (evictions stale r) type)
    (h₀ : medium.InOrder m₀) :
    Plan.Fulfils medium.respond (.alone _) (fun m => m = m₀) (apply authoritative r stale)
      (fun _ => medium.Retains type id m₀) bad := by
  refine Plan.fulfils_bind (fun _ => medium.Retains type id m₀)
    ((fulfils_writeAll_retains hr ht haccepts hid).mono ?_ (fun _ _ h => h) fun _ _ h => h)
    fun stats => ?_
  · rintro m rfl
    exact ⟨h₀, rfl⟩
  · have htells : ∀ {t ids}, (t, ids) ∈ (evictions stale r).toList → medium.Tells t := fun hmem =>
      tells_of_mem_evictions hr hstale (StringMap.mem_of_mem_toList hmem)
    refine fulfils_evictAll (fun _ => medium.Retains type id m₀) (fun _ => Plan.Conduct.stable_alone _)
      (fun t ids rest hmem => (bears_retains ht).fulfils_cascade (htells hmem) _) (fun _ _ _ h => h)
      (fun t ids rest hmem m h => ⟨trivial, respond_evict_snd t ids.toList m,
        h.evict ht (htells hmem) fun htype => ?_⟩) stats
    subst htype
    rwa [Std.ExtTreeSet.mem_toList, ← StringMap.find_of_mem_toList hmem]

end Phases

/-- What a merge leaves unwritten and does not evict keeps its attributes. -/
theorem attributesAt_of_endsIn {s s' : medium.backend.State} (hs : medium.Occurs s) {engine : Engine}
    {source : Source} {authoritative : StringSet} (hauthoritative : ∀ t ∈ authoritative, medium.Tells t)
    {r : Report} (hr : r.Suits medium.Tells fun _ => True) (ht : medium.Tells type) {stats : MergeStats}
    (hends : medium.backend.EndsIn (engine.mergeSnapshot source authoritative r) s s' (.ok stats))
    (hafter : id ∈ medium.ids type (medium.view s')) (hid : id ∉ r.ids type) :
    medium.attributesAt type id (medium.view s') = medium.attributesAt type id (medium.view s) := by
  obtain ⟨hsound, hm⟩ := hs.inOrder
  obtain ⟨-, hrun⟩ := run_of_endsIn hsound hends
  have hkept := (((mem_ids_of_endsIn ht hsound (hm.takesIds ht) hends).2 id).1 hafter).2
  refine ((fulfils_mergeSnapshot engine source authoritative r _ fun haccepts stale hfind htypes =>
    fulfils_apply_retains hr ht haccepts hid (fun t hmem => hauthoritative t (htypes t hmem)) ?_
      hm).run rfl hrun).2.attributes
  rwa [KeepsIds.mem_evictions, hfind]

/-! ## What can be seen of it -/

variable {s s' : medium.backend.State} {before after : StringSet} {found : Refresh}

/-- A merge takes a cache from one state to another without doing more to a type than to refresh it.

Of the ids that were there those are gone that the report does not write under the type, and that it either
wants evicted from the type or, if the agent has authority over the type, names anywhere. What is new the
report writes. All ids that stay and are not written keep their attributes. -/
structure Refreshes (medium : Medium) (found : Refresh) (type : String) (s s' : medium.backend.State)
    (before after : StringSet) : Prop where
  replies : medium.backend.Replies s (.identifiers type) (.ok before)
  replies' : medium.backend.Replies s' (.identifiers type) (.ok after)
  evicted : ∀ id ∈ before, id ∉ after ↔ id ∉ found.report.ids type ∧
    (id ∈ found.report.evictionsOf type ∨
      type ∈ found.authoritative ∧ id ∈ found.report.touchedIds)
  brought : ∀ id ∈ after, id ∉ before → id ∈ found.report.ids type
  keeps : ∀ id ∈ before, id ∈ after → id ∉ found.report.ids type →
    ∃ read, medium.Yields s type id read ∧ medium.Yields s' type id read

/-- What a refresh makes stale. -/
theorem mem_staleOf_source (engine : Engine) (found : Refresh) (type : String) (before : StringSet)
    (id : String) :
    id ∈ staleOf engine found.source found.authoritative found.report type before ↔
      type ∈ found.authoritative ∧ id ∈ before ∧ id ∈ found.report.touchedIds ∧
        id ∉ found.report.ids type := by
  unfold staleOf
  split
  · next h =>
    rw [staleIn, StringSet.mem_filter]
    simp [Refresh.source, Scope.contains, h, ← Std.ExtTreeSet.contains_iff_mem]
  · next h => simp [h]

theorem mem_explicitIds {r : Report} : id ∈ explicitIds r type ↔
    id ∈ r.evictionsOf type ∧ id ∉ r.ids type := by
  simp [explicitIds, ← Std.ExtTreeSet.contains_iff_mem]

/-- A report names all ids that it writes, and all that it wants evicted. -/
theorem mem_touchedIds {r : Report} (h : id ∈ r.ids type ∨ id ∈ r.evictionsOf type) :
    id ∈ r.touchedIds := by
  rw [Report.touchedIds, Std.ExtTreeSet.mem_ofList, List.contains_iff_mem, List.mem_append]
  rcases h with h | h
  · rw [Report.ids, Std.ExtTreeSet.mem_ofList, List.contains_iff_mem] at h
    have hne : r.entitiesOf type ≠ [] := fun hc => by simp [hc] at h
    have hvalue : r.entitiesOf type ∈ r.entities.values := StringMap.mem_values_of_find_ne_empty hne
    exact .inl (List.mem_flatMap.2 ⟨_, hvalue, h⟩)
  · have hvalue : r.evictionsOf type ∈ r.evictions.values :=
      StringMap.mem_values_of_find_ne_empty (List.ne_nil_of_mem h)
    exact .inr (List.mem_flatten.2 ⟨_, hvalue, h⟩)

/-- What a refresh does not name stays with its attributes. -/
theorem Refreshes.unmentioned (h : medium.Refreshes found type s s' before after) {id : String}
    (hid : id ∉ found.report.touchedIds) : (id ∈ after ↔ id ∈ before) ∧
      (id ∈ before → ∃ read, medium.Yields s type id read ∧ medium.Yields s' type id read) := by
  have hwritten : id ∉ found.report.ids type := fun hmem => hid (mem_touchedIds (.inl hmem))
  have hstays : id ∈ before → id ∈ after := fun hbefore => by
    by_contra hgone
    rcases ((h.evicted id hbefore).1 hgone).2 with hexplicit | ⟨-, htouched⟩
    · exact hid (mem_touchedIds (.inr hexplicit))
    · exact hid htouched
  refine ⟨⟨fun hafter => ?_, hstays⟩, fun hbefore => h.keeps id hbefore (hstays hbefore) hwritten⟩
  by_contra hnew
  exact hwritten (h.brought id hafter hnew)

/-- A merge that succeeds refreshes every type. -/
theorem refreshes_of_endsIn (hs : medium.Occurs s) {engine : Engine}
    (hauthoritative : ∀ t ∈ found.authoritative, medium.Tells t)
    (hr : found.report.Suits medium.Tells fun _ => True) {stats : MergeStats}
    (hends : medium.backend.EndsIn
      (engine.mergeSnapshot found.source found.authoritative found.report) s s' (.ok stats))
    (ht : medium.Tells type) : ∃ before after, medium.Refreshes found type s s' before after := by
  obtain ⟨hsound, hm⟩ := hs.inOrder
  obtain ⟨hsound', -⟩ := run_of_endsIn hsound hends
  obtain ⟨htakes', hmem⟩ := mem_ids_of_endsIn ht hsound (hm.takesIds ht) hends
  simp only [mem_staleOf_source, mem_explicitIds] at hmem
  refine ⟨_, _, replies_ids ht hsound (hm.takesIds ht), replies_ids ht hsound' htakes',
    fun id hbefore => ?_, fun id hafter hnew => ?_, fun id hbefore hafter hid => ?_⟩
  · rw [hmem]
    tauto
  · exact ((hmem id).1 hafter).1.resolve_left hnew
  · refine ⟨_, yields_of_mem hsound hbefore, ?_⟩
    exact attributesAt_of_endsIn hs hauthoritative hr ht hends hafter hid ▸ yields_of_mem hsound' hafter

end Medium

/-- In every state that a cache can be in, what an on-demand agent found is either refused, which changes
nothing, or it refreshes every type.

Then an id is evicted from a type if and only if the report does not write it under that type, and either
wants it evicted from that type, or the agent has authority over the type and the report names the id
under any type. Ids that the report does not name stay with their attributes in every type. -/
theorem refresh_evicts_mentioned {medium : Medium} {s : medium.backend.State} (hs : medium.Occurs s)
    (engine : Engine) {found : Refresh} (ht : ∀ t ∈ found.authoritative, medium.Tells t)
    (hr : found.report.Suits medium.Tells fun _ => True) :
    ∃ s' result, medium.backend.EndsIn
        (engine.mergeSnapshot found.source found.authoritative found.report) s s' result ∧
      match result with
      | .error _ => ¬ engine.Accepts found.report ∧ medium.ReadAlike s s'
      | .ok _ => engine.Accepts found.report ∧ ∀ type, medium.Tells type → ∃ before after,
          medium.Refreshes found type s s' before after ∧
          ∀ id ∉ found.report.touchedIds, (id ∈ after ↔ id ∈ before) ∧
            (id ∈ before → ∃ read, medium.Yields s type id read ∧ medium.Yields s' type id read) := by
  obtain ⟨hsound, hm⟩ := hs.inOrder
  obtain ⟨s', hends, hsound', -⟩ := Medium.exists_endsIn hsound
    (engine.mergeSnapshot found.source found.authoritative found.report)
  refine ⟨s', _, hends, ?_⟩
  generalize Prod.snd _ = result at hends
  cases result with
  | error e =>
      obtain ⟨hview, hrefused⟩ := Medium.view_of_endsIn_error hsound hends
      exact ⟨hrefused, Medium.readAlike_of_same hsound hsound' (hview ▸ .refl medium _)⟩
  | ok stats =>
      refine ⟨Medium.accepts_of_endsIn hsound hends, fun type htype => ?_⟩
      obtain ⟨before, after, h⟩ := Medium.refreshes_of_endsIn hs ht hr hends htype
      exact ⟨before, after, h, fun id hid => h.unmentioned hid⟩

/-! ## An example -/

/-- What an agent found that has authority over a type and names an id, but under another type, where it
records the request. -/
def onlyRecorded : Refresh where
  agent := "agent"
  authoritative := .ofList ["t"]
  report := { entities := (∅ : StringMap (List Entity)).insert onDemandType [{ id := "a" }] }

theorem entitiesOf_onlyRecorded (type : String) :
    onlyRecorded.report.entitiesOf type = if onDemandType = type then [{ id := "a" }] else [] := by
  rw [Report.entitiesOf, StringMap.find, onlyRecorded, Std.ExtTreeMap.getElem?_insert]
  by_cases h : onDemandType = type <;> simp [h]

theorem suits_onlyRecorded {tells : String → Prop} (hdemand : tells onDemandType) :
    onlyRecorded.report.Suits tells fun _ => True where
  types type h := by
    obtain rfl : onDemandType = type := by simpa [onlyRecorded, StringMap.mem_insert_iff] using h
    exact hdemand
  evictedTypes type h := by simp [onlyRecorded] at h
  entities type e he := by
    rw [entitiesOf_onlyRecorded] at he
    split at he
    · obtain rfl := List.mem_singleton.1 he
      exact ⟨fun _ => trivial, fun t ht => by simp at ht⟩
    · simp at he

/-- What is there before: two entities of that type. -/
def firstAndSecond : CacheRequest := .write .union "t" [{ id := "a" }, { id := "b" }]

theorem suits_firstAndSecond {tells : String → Prop} (ht : tells "t") :
    ∀ q ∈ [firstAndSecond], q.Suits tells fun _ => True := by
  refine List.forall_mem_singleton.2 ⟨ht, fun e he => ⟨fun _ => trivial, fun related hrelated => ?_⟩⟩
  rcases List.mem_cons.1 he with rfl | he
  · simp at hrelated
  · obtain rfl := List.mem_singleton.1 he
    simp at hrelated

/-- On a node, what the agent found refreshes the type in which it is named nowhere. -/
theorem refresh_evicts_on_node : ∃ s s' before after,
    (Medium.node {} "kv").Occurs s ∧
    (∀ t ∈ onlyRecorded.authoritative, (Medium.node {} "kv").Tells t) ∧
    onlyRecorded.report.Suits (Medium.node {} "kv").Tells (fun _ => True) ∧
    (Medium.node {} "kv").Refreshes onlyRecorded "t" s s' before after := by
  have htells : (Medium.node {} "kv").Tells "t" ∧ (Medium.node {} "kv").Tells onDemandType := by
    change Plain "t" ∧ Plain onDemandType
    decide
  have hsuits := suits_onlyRecorded htells.2
  have ht : ∀ t ∈ onlyRecorded.authoritative, (Medium.node {} "kv").Tells t := by
    intro t ht
    obtain rfl : "t" = t := by simpa [onlyRecorded] using ht
    exact htells.1
  obtain ⟨s, s', stats, hs, hends⟩ := Medium.exists_endsIn_of_isOk {} "kv"
    (suits_firstAndSecond htells.1)
    (p := unchecked.mergeSnapshot onlyRecorded.source onlyRecorded.authoritative onlyRecorded.report)
    (by decide +kernel)
  obtain ⟨s'', result, hends', hresult⟩ := refresh_evicts_mentioned hs unchecked ht hsuits
  obtain ⟨rfl, rfl⟩ := hends.unique hends'
  obtain ⟨before, after, h, -⟩ := hresult.2 "t" htells.1
  exact ⟨s, s', before, after, hs, ht, hsuits, h⟩

/-- In memory, what is there before. -/
def memoryFound : Memory := ((CachePlan.inTurn [firstAndSecond]).run Backend.remember {}).1

/-- What merging the report makes of it. -/
def memoryRefreshed : Memory × Except Error MergeStats :=
  (unchecked.mergeSnapshot onlyRecorded.source onlyRecorded.authoritative onlyRecorded.report).run
    Backend.remember memoryFound

/-- The report does not name the id for eviction, and yet it is evicted. -/
theorem recorded_id_is_evicted : ∃ s s' stats before after,
    (Medium.memory "memory").Occurs s ∧
    (Medium.memory "memory").backend.EndsIn (unchecked.mergeSnapshot onlyRecorded.source
      onlyRecorded.authoritative onlyRecorded.report) s s' (.ok stats) ∧
    (Medium.memory "memory").backend.Replies s (.identifiers "t") (.ok before) ∧
    (Medium.memory "memory").backend.Replies s' (.identifiers "t") (.ok after) ∧
    "a" ∉ onlyRecorded.report.evictionsOf "t" ∧ "a" ∈ before ∧ "a" ∉ after := by
  have hs : (Medium.memory "memory").Occurs memoryFound :=
    ⟨_, rfl, _, _, CachePlan.asks_inTurn (suits_firstAndSecond trivial),
      Backend.memory_endsIn "memory" _ _⟩
  obtain ⟨stats, hstats⟩ := Plan.exists_of_isOk (x := memoryRefreshed.2) (by decide +kernel)
  have hends := Backend.memory_endsIn "memory" (unchecked.mergeSnapshot onlyRecorded.source
    onlyRecorded.authoritative onlyRecorded.report) memoryFound
  refine ⟨memoryFound, memoryRefreshed.1, stats, memoryFound.identifiers "t",
    memoryRefreshed.1.identifiers "t", hs, hstats ▸ hends, ?_, ?_, ?_, ?_, ?_⟩
  · exact @Medium.replies (.memory "memory") memoryFound trivial (.identifiers "t")
  · exact @Medium.replies (.memory "memory") memoryRefreshed.1 trivial (.identifiers "t")
  · decide +kernel
  · decide +kernel
  · decide +kernel

end Inventory
