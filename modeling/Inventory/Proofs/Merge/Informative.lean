import Inventory.Proofs.Merge.Contributions

/-!
# Inventory.Proofs.Merge.Informative

What a merge makes of entities over whose type the source has no authority.

Of these entities none is evicted unless the report says so, all keep their attributes, those that are
new have none, and related ids join those that were there (`merge_informs`). Related ids may still be
lost, as the merge takes away references to entities of other types that it evicts. The proof follows
one entity through the merge: its attributes stay as they are, and its related ids stay between two
bounds (`Medium.Within`), which no write and no eviction of the merge crosses.
-/

namespace Inventory

open KeyValue Engine

namespace Medium

variable {medium : Medium} {type id t : String} {m m₀ : medium.View}
  {attributes : Except Error Attributes} {least most : String → String → Prop}

/-! ## One entity -/

/-- An entity has certain attributes, and its related ids lie between two bounds. -/
structure Within (medium : Medium) (type id : String) (attributes : Except Error Attributes)
    (least most : String → String → Prop) (m : medium.View) : Prop where
  attributes : medium.attributesAt type id m = attributes
  least : ∀ related x, medium.Tells related → least related x → medium.Relates type id related x m
  most : ∀ related x, medium.Tells related → medium.Relates type id related x m → most related x

namespace Within

variable (h : medium.Within type id attributes least most m)

include h

/-- Only the attributes and the related ids of the entity matter. -/
theorem congr {m' : medium.View}
    (hattributes : medium.attributesAt type id m' = medium.attributesAt type id m)
    (hrelates : ∀ related x, medium.Tells related →
      (medium.Relates type id related x m' ↔ medium.Relates type id related x m)) :
    medium.Within type id attributes least most m' where
  attributes := hattributes.trans h.attributes
  least related x hr hx := (hrelates related x hr).2 (h.least related x hr hx)
  most related x hr hx := h.most related x hr ((hrelates related x hr).1 hx)

variable (ht : medium.Tells type)

include ht

/-- Requests about other types. -/
theorem other {q : CacheRequest} (hq : medium.Tells q.type) (hne : q.type ≠ type) :
    medium.Within type id attributes least most (medium.respond q m).1 :=
  h.congr (attributesAt_other ht hq hne) fun _ _ _ => relates_other ht hq hne

/-- Entities without attributes, of which those of the same id hold nothing beyond the bound. -/
theorem contribute (hm : medium.InOrder m) {es : List Entity} (hnone : ∀ e ∈ es, e.attributes = [])
    (hes : ∀ e ∈ es, e.id.isEmpty = false) (hplain : ∀ e ∈ es, ∀ t ∈ e.relationships, medium.Tells t)
    (hmost : ∀ e ∈ es, e.id = id → ∀ related, ∀ x ∈ StringMap.find e.relationships related,
      most related x) :
    medium.Within type id attributes least most (medium.respond (.write .union type es) m).1 where
  attributes := (attributesAt_contribute hnone hes .union).trans h.attributes
  least related x hr hx :=
    (relates_contribute hnone hes hm ht hplain hr).2 (.inl (h.least related x hr hx))
  most related x hr hx := by
    rcases (relates_contribute hnone hes hm ht hplain hr).1 hx with hold | ⟨e, he, hid, hx⟩
    · exact h.most related x hr hold
    · exact hmost e he hid related x hx

/-- Evictions of other entities. -/
theorem evict (hm : medium.InOrder m) (ht' : medium.Tells t) {ids : List String}
    (hid : t = type → id ∉ ids) :
    medium.Within type id attributes least most (medium.respond (.evict t ids) m).1 := by
  by_cases htype : t = type
  · subst htype
    exact h.congr (attributesAt_evict (hid rfl)) fun _ _ hr => relates_evict (hid rfl) hm ht hr
  · exact h.other ht (q := .evict t ids) ht' htype

/-- Removals of references that may be lost. -/
theorem unlink (ht' : medium.Tells t) (ids : List String) {related : String} (hr : medium.Tells related)
    {targets : List String} (hlost : t = type → ∀ x ∈ targets, ¬ least related x) :
    medium.Within type id attributes least most (medium.respond (.unlink t ids related targets) m).1 := by
  by_cases htype : t = type
  · subst htype
    constructor
    case attributes => exact (attributesAt_unlink ids related targets).trans h.attributes
    case least =>
      intro related' x hr' hx
      refine (relates_unlink hr hr' ids targets).2 ⟨h.least related' x hr' hx, ?_⟩
      rintro ⟨-, rfl, htarget⟩
      exact hlost rfl x htarget hx
    case most =>
      intro related' x hr' hx
      exact h.most related' x hr' ((relates_unlink hr hr' ids targets).1 hx).1
  · exact h.other ht (q := .unlink t ids related targets) ht' htype

end Within

/-! ## Ids of the report -/

variable {r : Report}

/-- All ids that are there were there before or are those of a report. -/
def Brings (medium : Medium) (r : Report) (m₀ m : medium.View) : Prop :=
  ∀ t, medium.Tells t → ∀ x ∈ medium.ids t m, x ∈ medium.ids t m₀ ∨ x ∈ r.ids t

namespace Brings

variable (h : medium.Brings r m₀ m) (hm : medium.InOrder m) (ht : medium.Tells t)

include h hm ht

theorem write (mode : WriteMode) {es : List Entity} (hes : ∀ e ∈ es, e.id.isEmpty = false)
    (hids : ∀ e ∈ es, e.id ∈ r.ids t) : medium.Brings r m₀ (medium.respond (.write mode t es) m).1 := by
  intro t' ht' x hx
  rcases (hm.mem_ids_write ht ht' hes).1 hx with hold | ⟨rfl, hnew⟩
  · exact h t' ht' x hold
  · obtain ⟨e, he, rfl⟩ := List.mem_map.1 hnew
    exact .inr (hids e he)

theorem evict (ids : List String) : medium.Brings r m₀ (medium.respond (.evict t ids) m).1 :=
  fun t' ht' x hx => h t' ht' x ((hm.mem_ids_evict ht ht').1 hx).1

omit ht in
theorem unlink (ids : List String) (related : String) (targets : List String) :
    medium.Brings r m₀ (medium.respond (.unlink t ids related targets) m).1 := by
  intro t' ht' x hx
  rw [(keepsIds ht').other _ m (hm.takesIds ht') rfl] at hx
  exact h t' ht' x hx

end Brings

/-! ## Phases -/

section Phases

variable {authoritative : StringSet} {engine : Engine} {bad : Error → medium.View → Prop}

/-- What an entity is related to already or by a report. -/
def Joins (medium : Medium) (r : Report) (type id : String) (m₀ : medium.View) (related x : String) : Prop :=
  medium.Relates type id related x m₀ ∨ r.Writes ⟨type, id, related, x⟩

/-- What one entity of a merge without authority has, and the ids around it. -/
structure Informed (medium : Medium) (r : Report) (type id : String) (m₀ : medium.View)
    (least : String → String → Prop) (m : medium.View) : Prop where
  inOrder : medium.InOrder m
  brings : medium.Brings r m₀ m
  within : medium.Within type id (medium.attributesAt type id m₀) least (medium.Joins r type id m₀) m

variable (haccepts : engine.Accepts r) (hr : r.Suits medium.Tells fun _ => True)
  (ht : medium.Tells type) (hinformative : type ∉ authoritative) (hdemand : type ≠ onDemandType)

theorem modeOf_of_not_mem (hinformative : type ∉ authoritative) : modeOf authoritative type = .union :=
  if_neg hinformative

theorem attributes_of_mem_partOf (hinformative : type ∉ authoritative) (hdemand : type ≠ onDemandType)
    {es : List Entity} {e : Entity} (he : e ∈ es.map (partOf authoritative type)) : e.attributes = [] := by
  obtain ⟨e, -, rfl⟩ := List.mem_map.1 he
  rw [partOf, if_neg (not_or.2 ⟨hinformative, hdemand⟩)]
  rfl

include haccepts hr ht hinformative hdemand

/-- A write of the report brings what it may bring. -/
theorem Informed.write (h : medium.Informed r type id m₀ least m) (hne : r.entitiesOf t ≠ []) :
    medium.Informed r type id m₀ least (medium.respond (.write (modeOf authoritative t) t
      ((r.entitiesOf t).map (partOf authoritative t))) m).1 := by
  have hsuits := suits_write authoritative hr hne (modeOf authoritative t)
  have hes : ∀ e ∈ (r.entitiesOf t).map (partOf authoritative t), e.id.isEmpty = false :=
    fun e he => isEmpty_of_mem_partOf haccepts he
  refine ⟨h.inOrder.respond hsuits, h.brings.write h.inOrder hsuits.1 _ hes fun e' he' => ?_, ?_⟩
  · obtain ⟨e, he, rfl⟩ := List.mem_map.1 he'
    rw [id_partOf]
    exact mem_ids_of_mem_entitiesOf he
  · by_cases htype : t = type
    · subst htype
      rw [modeOf_of_not_mem hinformative]
      refine h.within.contribute ht h.inOrder
        (fun e => attributes_of_mem_partOf hinformative hdemand) hes
        (fun e he => (hsuits.2 e he).related) fun e' he' hid related x hx => ?_
      obtain ⟨e, he, rfl⟩ := List.mem_map.1 he'
      rw [id_partOf] at hid
      rw [relationships_partOf] at hx
      exact .inr ⟨e, he, hid, hx⟩
    · exact h.within.other ht hsuits.1 htype

/-- The writes of a report bring all that it relates the entity to. -/
theorem fulfils_writeAll_informed (h₀ : medium.InOrder m₀) :
    Plan.Fulfils medium.respond (.alone _) (fun m => m = m₀) (writeAll authoritative r)
      (fun _ => medium.Informed r type id m₀ (medium.Joins r type id m₀)) bad := by
  refine (fulfils_writeAll_each authoritative r
    (medium.Informed r type id m₀ fun related x => medium.Relates type id related x m₀)
    (fun t e m => t = type → e.id = id → ∀ related, medium.Tells related →
      ∀ x ∈ StringMap.find e.relationships related, medium.Relates type id related x m)
    (Plan.Conduct.stable_alone _) ?_ ?_).mono ?_ ?_ fun _ _ h => h
  · rintro t e - s s' rfl - h
    exact h
  · intro t hne m h
    have hsuits := suits_write authoritative hr hne (modeOf authoritative t)
    have hes : ∀ e ∈ (r.entitiesOf t).map (partOf authoritative t), e.id.isEmpty = false :=
      fun e he => isEmpty_of_mem_partOf haccepts he
    refine ⟨trivial, respond_write_snd _ _ hes m, h.write haccepts hr ht hinformative hdemand hne,
      ?_, ?_⟩
    · rintro e he rfl rfl related hrelated x hx
      rw [modeOf_of_not_mem hinformative]
      refine (relates_contribute (fun e => attributes_of_mem_partOf hinformative hdemand) hes h.inOrder
        ht (fun e he => (hsuits.2 e he).related) hrelated).2
        (.inr ⟨partOf authoritative t e, List.mem_map_of_mem he, id_partOf authoritative t e, ?_⟩)
      rwa [relationships_partOf]
    · rintro t' hother e he hwritten rfl hid related hrelated x hx
      exact (relates_other (q := .write _ t _) ht hsuits.1 (Ne.symm hother)).2
        (hwritten rfl hid related hrelated x hx)
  · rintro m rfl
    exact ⟨h₀, fun _ _ _ hx => .inl hx, rfl, fun _ _ _ hx => hx, fun _ _ _ hx => .inl hx⟩
  · rintro - m ⟨h, hall⟩
    refine ⟨h.inOrder, h.brings, h.within.attributes, ?_, h.within.most⟩
    rintro related x hrelated (hold | ⟨e, he, hid, hx⟩)
    · exact h.within.least related x hrelated hold
    · exact hall type e he rfl hid related hrelated x hx

omit haccepts hinformative hdemand

variable {stale : StringMap StringSet} (hstale : ∀ t ∈ stale, medium.Tells t)
  (hnot : ∀ t, ∀ x ∈ StringMap.find stale t, x ∉ r.ids t)

include hstale hnot

/-- The evictions of a report take nothing of the entity but references to ids that they evict. -/
theorem fulfils_evictAll_informed (hid : id ∉ StringMap.find (evictions stale r) type)
    (hleast : ∀ related, ∀ x ∈ StringMap.find (evictions stale r) related,
      x ∈ medium.ids related m₀ → ¬ least related x) (stats : MergeStats) :
    Plan.Fulfils medium.respond (.alone _) (medium.Informed r type id m₀ least)
      (evictAll (evictions stale r) stats) (fun _ => medium.Informed r type id m₀ least) bad := by
  have htells : ∀ {t ids}, (t, ids) ∈ (evictions stale r).toList → medium.Tells t := fun hmem =>
    tells_of_mem_evictions hr hstale (StringMap.mem_of_mem_toList hmem)
  refine fulfils_evictAll (fun _ => medium.Informed r type id m₀ least)
    (fun _ => Plan.Conduct.stable_alone _) (fun t ids rest hmem stats => ?_) (fun _ _ _ h => h)
    (fun t ids rest hmem m h => ?_) stats
  · -- What is read of the evicted entities was there before, as the report writes none of them.
    have hfind := StringMap.find_of_mem_toList hmem
    suffices houtlasts : Outlasts medium.respond (.alone _) medium.Tells t ids.toList
        (fun x => x ∈ ids ∧ x ∈ medium.ids t m₀) (medium.Informed r type id m₀ least) from
      houtlasts.fulfils_cascade stats
    refine ⟨Plan.Conduct.stable_alone _, fun m h => ?_, fun related l filter m hrelated h => ?_,
      fun related holders x m hrelated hx h => ?_⟩
    · have hread := medium.keepsEntities.reads (.entities t (some ids.toList) none) m rfl
      refine ⟨trivial, hread.symm ▸ h, fun es hes e he => ⟨?_, fun related hmem' =>
        h.inOrder.tells_of_entities (htells hmem) hes he hmem'⟩⟩
      obtain ⟨hasked, hthere⟩ := mem_ids_of_entities hes he
      rw [Std.ExtTreeSet.mem_toList] at hasked
      refine ⟨hasked, (h.brings t (htells hmem) e.id hthere).resolve_right fun hwritten => ?_⟩
      exact not_mem_evictions hnot hwritten (hfind ▸ hasked)
    · exact ⟨trivial, (medium.keepsEntities.reads (.entities related l filter) m rfl).symm ▸ h⟩
    · refine ⟨trivial, h.inOrder.respond (q := .unlink related holders t [x]) ⟨hrelated, htells hmem⟩,
        h.brings.unlink h.inOrder holders t [x],
        h.within.unlink ht hrelated holders (htells hmem) fun _ y hy => ?_⟩
      obtain rfl := List.mem_singleton.1 hy
      exact hleast t y (hfind ▸ hx.1) hx.2
  · refine ⟨trivial, respond_evict_snd t ids.toList m,
      h.inOrder.respond (q := .evict t ids.toList) (htells hmem),
      h.brings.evict h.inOrder (htells hmem) ids.toList,
      h.within.evict ht h.inOrder (htells hmem) fun htype => ?_⟩
    subst htype
    rw [Std.ExtTreeSet.mem_toList, ← StringMap.find_of_mem_toList hmem]
    exact hid

/-- What the entity is still related to once ids have been evicted. -/
def Remains (medium : Medium) (r : Report) (type id : String) (gone : String → StringSet)
    (m₀ : medium.View) (related x : String) : Prop :=
  medium.Joins r type id m₀ related x ∧
    ¬ ((x ∈ gone related ∨ x ∈ explicitIds r related) ∧ x ∈ medium.ids related m₀)

omit hnot in
include haccepts hinformative hdemand in
/-- A report leaves the entity what it had and brings what it may bring, but for references to ids that are
evicted. -/
theorem fulfils_apply_informed (h₀ : medium.InOrder m₀) {gone : String → StringSet}
    (hfind : ∀ t, StringMap.find stale t = gone t) (hnot : ∀ t, ∀ x ∈ gone t, x ∉ r.ids t)
    (hnone : gone type = ∅) (hid : id ∉ explicitIds r type) :
    Plan.Fulfils medium.respond (.alone _) (fun m => m = m₀) (apply authoritative r stale)
      (fun _ => medium.Informed r type id m₀ (medium.Remains r type id gone m₀)) fun _ _ => False := by
  have hevicted : ∀ t x, x ∈ StringMap.find (evictions stale r) t ↔ x ∈ gone t ∨ x ∈ explicitIds r t :=
    fun t x => by rw [KeepsIds.mem_evictions, hfind]
  have hgone : id ∉ StringMap.find (evictions stale r) type := by
    rw [hevicted, hnone]
    exact fun hmem => hmem.elim Std.ExtTreeSet.not_mem_empty hid
  refine Plan.fulfils_bind (fun _ => medium.Informed r type id m₀ (medium.Joins r type id m₀))
    (fulfils_writeAll_informed haccepts hr ht hinformative hdemand h₀) fun stats => ?_
  have hleast : ∀ related, ∀ x ∈ StringMap.find (evictions stale r) related,
      x ∈ medium.ids related m₀ → ¬ medium.Remains r type id gone m₀ related x :=
    fun related x hx hthere hremains => hremains.2 ⟨(hevicted related x).1 hx, hthere⟩
  refine (fulfils_evictAll_informed hr ht hstale (fun t x hx => hnot t x (hfind t ▸ hx)) hgone hleast
    stats).mono (fun m h => ?_) (fun _ _ h => h) fun _ _ h => h
  exact ⟨h.inOrder, h.brings, h.within.attributes,
    fun related x hrelated hx => h.within.least related x hrelated hx.1, h.within.most⟩

end Phases

/-! ## What can be seen of it -/

variable {r : Report} {s s' : medium.backend.State}

/-- A merge takes a cache from one state to another without doing more to a type than to inform it.

Ids stay unless the report wants them evicted. Entities that stay are read with the attributes they had,
those that are new with none. An entity is related to what it was related to and to what the report
relates it to, and to nothing else; of that only ids are missing that the merge has evicted from their
type. -/
structure Informs (medium : Medium) (r : Report) (type : String) (s s' : medium.backend.State)
    (before after : StringSet) : Prop where
  replies : medium.backend.Replies s (.identifiers type) (.ok before)
  replies' : medium.backend.Replies s' (.identifiers type) (.ok after)
  stays : ∀ id ∈ before, id ∉ r.evictionsOf type → id ∈ after
  keeps : ∀ id ∈ before, id ∈ after → ∃ read, medium.Yields s type id read ∧ medium.Yields s' type id read
  created : ∀ id ∈ after, id ∉ before → medium.Yields s' type id (.ok []) ∧
    ∀ related x, medium.Tells related → ¬ medium.Relates type id related x (medium.view s)
  bounded : ∀ id ∈ after, ∀ related x, medium.Tells related →
    medium.Relates type id related x (medium.view s') →
    medium.Relates type id related x (medium.view s) ∨ r.Writes ⟨type, id, related, x⟩
  joined : ∀ id ∈ after, ∀ related, medium.Tells related → ∃ had has,
    medium.backend.Replies s (.identifiers related) (.ok had) ∧
    medium.backend.Replies s' (.identifiers related) (.ok has) ∧
    ∀ x, medium.Relates type id related x (medium.view s) ∨ r.Writes ⟨type, id, related, x⟩ →
      medium.Relates type id related x (medium.view s') ∨ x ∈ had ∧ x ∉ has

/-- What holds of the ids of all types and of each entity of one can be seen. -/
theorem informs_of_informed (hs : medium.Occurs s) (hsound' : medium.Sound s') (ht : medium.Tells type)
    {gone : String → StringSet} (hnot : ∀ t, ∀ x ∈ gone t, x ∉ r.ids t) (hnone : gone type = ∅)
    (hids : ∀ t, medium.Tells t → medium.TakesIds t (medium.view s') ∧
      medium.ids t (medium.view s') = merged r t (medium.ids t (medium.view s)) (gone t))
    (h : ∀ id, id ∉ explicitIds r type → medium.Informed r type id (medium.view s)
      (medium.Remains r type id gone (medium.view s)) (medium.view s')) :
    ∃ before after, medium.Informs r type s s' before after := by
  obtain ⟨hsound, hm⟩ := hs.inOrder
  have hmem : ∀ t, medium.Tells t → ∀ x, x ∈ medium.ids t (medium.view s') ↔
      (x ∈ medium.ids t (medium.view s) ∨ x ∈ r.ids t) ∧ ¬ (x ∈ gone t ∨ x ∈ explicitIds r t) :=
    fun t ht x => by rw [(hids t ht).2, KeepsIds.mem_merged r (hnot t)]
  have hinformed : ∀ id ∈ medium.ids type (medium.view s'), medium.Within type id
      (medium.attributesAt type id (medium.view s)) (medium.Remains r type id gone (medium.view s))
      (medium.Joins r type id (medium.view s)) (medium.view s') := fun id hid =>
    (h id fun hc => ((hmem type ht id).1 hid).2 (.inr hc)).within
  refine ⟨_, _, replies_ids ht hsound (hm.takesIds ht), replies_ids ht hsound' (hids type ht).1,
    fun id hid hkept => ?_, fun id hbefore hafter => ?_, fun id hafter hnew => ⟨?_, fun related x hr => ?_⟩,
    fun id hid related x hr hx => (hinformed id hid).most related x hr hx, fun id hid related hr => ?_⟩
  · refine (hmem type ht id).2 ⟨.inl hid, ?_⟩
    rw [hnone]
    rintro (hc | hc)
    · exact Std.ExtTreeSet.not_mem_empty hc
    · exact hkept (List.mem_filter.1 hc).1
  · exact ⟨_, yields_of_mem hsound hbefore,
      (hinformed id hafter).attributes ▸ yields_of_mem hsound' hafter⟩
  · have hyields := yields_of_mem hsound' hafter
    rwa [(hinformed id hafter).attributes, hs.blank.attributesAt_eq ht hnew] at hyields
  · exact hs.blank.not_relates ht hnew hr
  · refine ⟨_, _, replies_ids hr hsound (hm.takesIds hr), replies_ids hr hsound' (hids related hr).1,
      fun x hx => ?_⟩
    by_cases hgone : (x ∈ gone related ∨ x ∈ explicitIds r related) ∧
        x ∈ medium.ids related (medium.view s)
    · exact .inr ⟨hgone.2, fun hc => ((hmem related hr x).1 hc).2 hgone.1⟩
    · exact .inl ((hinformed id hid).least related x hr ⟨hx, hgone⟩)

end Medium

/-- In every state that a cache can be in, a merge that succeeds does no more than to inform a type for
which its source has no authority. -/
theorem merge_informs {medium : Medium} {s : medium.backend.State} (hs : medium.Occurs s)
    (engine : Engine) (source : Source) {authoritative : StringSet}
    (ht : ∀ t ∈ authoritative, medium.Tells t) {r : Report} (hr : r.Suits medium.Tells fun _ => True)
    {type : String} (htype : medium.Tells type) (hinformative : type ∉ authoritative)
    (hdemand : type ≠ onDemandType) :
    (∀ s' stats,
      medium.backend.EndsIn (engine.mergeSnapshot source authoritative r) s s' (.ok stats) →
      ∃ before after, medium.Informs r type s s' before after) ∧
    ∀ s' stats,
      medium.backend.EndsIn (engine.mergePartial source authoritative r) s s' (.ok stats) →
      ∃ before after, medium.Informs r type s s' before after := by
  obtain ⟨hsound, hm⟩ := hs.inOrder
  refine ⟨fun s' stats hends => ?_, fun s' stats hends => ?_⟩
  · obtain ⟨hsound', hrun⟩ := Medium.run_of_endsIn hsound hends
    have hnot : ∀ t, ∀ x ∈ staleOf engine source authoritative r t (medium.ids t (medium.view s)),
        x ∉ r.ids t := fun t x =>
      KeepsIds.not_mem_ids_of_mem_staleOf engine source authoritative r
    have hnone : staleOf engine source authoritative r type (medium.ids type (medium.view s)) = ∅ :=
      if_neg hinformative
    refine Medium.informs_of_informed hs hsound' htype hnot hnone (fun t ht' =>
      (Medium.keepsIds ht').run_mergeSnapshot engine source authoritative r (hm.takesIds ht') hrun)
      fun id hid => ?_
    exact ((Medium.fulfils_mergeSnapshot engine source authoritative r _
      fun haccepts stale hfind htypes => Medium.fulfils_apply_informed haccepts hr htype hinformative
        hdemand (fun t h => ht t (htypes t h)) hm hfind hnot hnone hid).run rfl hrun).2
  · obtain ⟨hsound', hrun⟩ := Medium.run_of_endsIn hsound hends
    have hnot : ∀ t, ∀ x ∈ (∅ : StringSet), x ∉ r.ids t := fun t x hx =>
      absurd hx Std.ExtTreeSet.not_mem_empty
    have hids : ∀ t, medium.Tells t → medium.TakesIds t (medium.view s') ∧
        medium.ids t (medium.view s') = merged r t (medium.ids t (medium.view s)) ∅ := fun t ht' =>
      (Medium.keepsIds ht').run_mergePartial engine source authoritative r (hm.takesIds ht') hrun
    refine Medium.informs_of_informed hs hsound' htype hnot rfl hids fun id hid => ?_
    exact ((Medium.fulfils_mergePartial engine source authoritative r _
      fun haccepts => Medium.fulfils_apply_informed haccepts hr htype hinformative hdemand
        (fun t h => by simp at h) hm (fun t => by simp [StringMap.find]) hnot rfl hid).run rfl hrun).2

/-! ## An example -/

/-- A source that answers for the related type evicts the entity to which the report refers, and of the
type of the report it evicts nothing. -/
theorem merge_informs_on_node : ∃ s s' stats before after,
    (Medium.node {} "kv").Occurs s ∧
    (∀ t ∈ (.ofList ["n"] : StringSet), (Medium.node {} "kv").Tells t) ∧
    oneRelated.Suits (Medium.node {} "kv").Tells (fun _ => True) ∧
    (Medium.node {} "kv").Tells "r" ∧ "r" ∉ (.ofList ["n"] : StringSet) ∧ "r" ≠ onDemandType ∧
    (Medium.node {} "kv").backend.EndsIn
      (unchecked.mergeSnapshot ofAll (.ofList ["n"]) oneRelated) s s' (.ok stats) ∧
    (Medium.node {} "kv").Informs oneRelated "r" s s' before after := by
  have htells : (Medium.node {} "kv").Tells "r" ∧ (Medium.node {} "kv").Tells "n" := by
    change Plain "r" ∧ Plain "n"
    decide
  have hsuits := suits_oneRelated htells.1 htells.2
  have ht : ∀ t ∈ (.ofList ["n"] : StringSet), (Medium.node {} "kv").Tells t := by
    intro t ht
    obtain rfl : "n" = t := by simpa using ht
    exact htells.2
  have hinformative : "r" ∉ (.ofList ["n"] : StringSet) := by simp
  have hdemand : "r" ≠ onDemandType := by decide
  obtain ⟨s, s', stats, hs, hends⟩ := Medium.exists_endsIn_of_isOk {} "kv"
    (suits_before htells.1 htells.2)
    (p := unchecked.mergeSnapshot ofAll (.ofList ["n"]) oneRelated) (by decide +kernel)
  obtain ⟨ids, ids', hinforms⟩ := (merge_informs hs unchecked ofAll ht hsuits htells.1 hinformative
    hdemand).1 s' stats hends
  exact ⟨s, s', stats, ids, ids', hs, ht, hsuits, htells.1, hinformative, hdemand, hends, hinforms⟩

end Inventory
