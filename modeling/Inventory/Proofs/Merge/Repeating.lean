import Inventory.Proofs.Merge.Unlinking
import Inventory.Proofs.Merge.Written

/-!
# Inventory.Proofs.Merge.Repeating

Reports that are merged twice.

After a merge the report makes nothing stale, and what it names for eviction is gone, so the second merge
evicts nothing that is there. It writes what is there already, but for the references that the evictions
of the first have taken back: the second merge leaves every read as it was if and only if the first has
left all references that the report writes (`merge_twice`).
-/

namespace Inventory

open KeyValue Engine

/-! ## Ids -/

namespace Engine

variable (engine : Engine) (source : Source) (authoritative : StringSet) (r : Report) {type : String}

/-- After a merge the report makes no id stale. -/
theorem staleOf_merged (before : StringSet) :
    staleOf engine source authoritative r type
      (merged r type before (staleOf engine source authoritative r type before)) = ∅ := by
  by_cases ht : type ∈ authoritative
  · refine Std.ExtTreeSet.ext_mem fun x =>
      ⟨fun hx => ?_, fun hx => absurd hx Std.ExtTreeSet.not_mem_empty⟩
    rw [staleOf, if_pos ht, staleIn, StringSet.mem_filter, mem_merged_staleOf] at hx
    obtain ⟨⟨hold | hnew, hkept⟩, hscope⟩ := hx
    · refine absurd (.inl ?_) hkept
      rw [staleOf, if_pos ht, staleIn, StringSet.mem_filter]
      exact ⟨hold, hscope⟩
    · simp [Std.ExtTreeSet.contains_iff_mem.2 hnew] at hscope
  · exact if_neg ht

/-- After a merge none of the ids is there that the report names for eviction. -/
theorem not_mem_merged_of_explicit (before : StringSet) {x : String} (h : x ∈ explicitIds r type) :
    x ∉ merged r type before (staleOf engine source authoritative r type before) := by
  rw [mem_merged_staleOf]
  exact fun hmem => hmem.2 (.inr h)

/-- The same merge leaves the ids that it has left. -/
theorem merged_merged (before : StringSet) :
    let after := merged r type before (staleOf engine source authoritative r type before)
    merged r type after (staleOf engine source authoritative r type after) = after := by
  refine Std.ExtTreeSet.ext_mem fun x => ?_
  rw [mem_merged_staleOf, staleOf_merged]
  constructor
  · rintro ⟨hx | hx, -⟩
    · exact hx
    · rw [mem_merged_staleOf]
      exact ⟨.inr hx, fun hgone => hgone.elim
        (fun h => KeepsIds.not_mem_ids_of_mem_staleOf engine source authoritative r h hx)
        fun h => not_mem_ids_of_explicit h hx⟩
  · exact fun hx => ⟨.inl hx, fun hgone => hgone.elim Std.ExtTreeSet.not_mem_empty
      fun h => not_mem_merged_of_explicit engine source authoritative r before h hx⟩

end Engine

namespace Medium

variable {medium : Medium} {mode : WriteMode} {type : String} {e : Entity} {m m' : medium.View}

/-! ## Applying a report -/

section Apply

variable (authoritative : StringSet) (r : Report)

/-- All entities of a report have been written, and since then references at most have been taken from
them. -/
def HoldsAll (medium : Medium) (m : medium.View) : Prop := ∀ type, ∀ e ∈ r.entitiesOf type,
  medium.Holds (modeOf authoritative type) type (partOf authoritative type e) m

/-- All references that a report writes are there. -/
def BoundAll (medium : Medium) (m : medium.View) : Prop := ∀ type, ∀ e ∈ r.entitiesOf type,
  medium.Bound type (partOf authoritative type e) m

variable {authoritative r} {engine : Engine} (haccepts : engine.Accepts r)
  (hr : r.Suits medium.Tells fun _ => True)
  (hids : ∀ type, ((r.entitiesOf type).map Entity.id).Nodup)

include hr

theorem tells_partOf (he : e ∈ r.entitiesOf type) :
    ∀ t ∈ (partOf authoritative type e).relationships, medium.Tells t :=
  (suits_partOf authoritative hr he).related

include haccepts hids

/-- The entities of a type are written with their references. -/
theorem holds_bound_write (hm : medium.InOrder m) (he : e ∈ r.entitiesOf type) :
    let m' := (medium.respond (.write mode type ((r.entitiesOf type).map (partOf authoritative type))) m).1
    medium.Holds mode type (partOf authoritative type e) m' ∧
      medium.Bound type (partOf authoritative type e) m' := by
  have hsuits := suits_write authoritative hr (List.ne_nil_of_mem he) mode
  have hnodup : (((r.entitiesOf type).map (partOf authoritative type)).map Entity.id).Nodup := by
    rw [map_id_partOf]
    exact hids type
  have hempty : ∀ e ∈ (r.entitiesOf type).map (partOf authoritative type), e.id.isEmpty = false :=
    fun e he => isEmpty_of_mem_partOf haccepts he
  have htells := fun e he => (hsuits.2 e he).related
  have he' := List.mem_map_of_mem (f := partOf authoritative type) he
  exact ⟨holds_write hm hsuits.1 hnodup hempty htells he',
    bound_write hm hsuits.1 hnodup hempty htells he'⟩

/-- What the writes of a report rely on they keep, and all entities are written with their references. -/
theorem fulfils_writes (frame : medium.View → Prop) {bad : Error → medium.View → Prop}
    (hframe : ∀ type, r.entitiesOf type ≠ [] → ∀ m, medium.InOrder m → frame m →
      frame (medium.respond (.write (modeOf authoritative type) type
        ((r.entitiesOf type).map (partOf authoritative type))) m).1) :
    Plan.Fulfils medium.respond (.alone _) (fun m => medium.InOrder m ∧ frame m)
      (writeAll authoritative r) (fun _ m => (medium.InOrder m ∧ frame m) ∧
        HoldsAll authoritative r medium m ∧ BoundAll authoritative r medium m) bad := by
  refine (fulfils_writeAll_each authoritative r _ (fun type e m =>
    medium.Holds (modeOf authoritative type) type (partOf authoritative type e) m ∧
      medium.Bound type (partOf authoritative type e) m) (Plan.Conduct.stable_alone _) ?_ ?_).mono
    (fun _ h => h) (fun _ m h => ⟨h.1, fun t e he => (h.2 t e he).1, fun t e he => (h.2 t e he).2⟩)
    fun _ _ h => h
  · rintro t e - s s' rfl - h
    exact h
  · rintro t hne m ⟨hm, hf⟩
    have hsuits := suits_write authoritative hr hne (modeOf authoritative t)
    refine ⟨trivial, respond_write_snd _ _ (fun e he => isEmpty_of_mem_partOf haccepts he) m,
      ⟨hm.respond hsuits, hframe t hne m hm hf⟩,
      fun e he => holds_bound_write haccepts hr hids hm he, fun t' hne' e he h => ?_⟩
    have ht' : medium.Tells t' := tells_of_mem_entitiesOf hr he
    exact ⟨h.1.other ht' hsuits.1 (Ne.symm hne'), h.2.other ht' hsuits.1 (Ne.symm hne')⟩

/-- A write of the report keeps what all of its writes have left. -/
theorem HoldsAll.write (h : HoldsAll authoritative r medium m) (hm : medium.InOrder m)
    (hne : r.entitiesOf type ≠ []) :
    HoldsAll authoritative r medium (medium.respond (.write (modeOf authoritative type) type
      ((r.entitiesOf type).map (partOf authoritative type))) m).1 := by
  intro t e he
  by_cases ht : type = t
  · subst ht
    exact (holds_bound_write haccepts hr hids hm he).1
  · exact (h t e he).other (tells_of_mem_entitiesOf hr he)
      (suits_write authoritative hr hne (modeOf authoritative type)).1 ht

/-- Where all entities are there with their references, a write of the report changes nothing. -/
theorem HoldsAll.same_write (h : HoldsAll authoritative r medium m)
    (hm : medium.InOrder m) (hbound : BoundAll authoritative r medium m)
    (hne : r.entitiesOf type ≠ []) :
    medium.Same m (medium.respond (.write (modeOf authoritative type) type
      ((r.entitiesOf type).map (partOf authoritative type))) m).1 := by
  have hsuits := suits_write authoritative hr hne (modeOf authoritative type)
  refine Medium.same_write hm hsuits.1 ?_ (fun e he => isEmpty_of_mem_partOf haccepts he)
    (fun e he => (hsuits.2 e he).related) (by simpa using hne) (fun e' he' => ?_) fun e' he' => ?_
  · rw [map_id_partOf]
    exact hids type
  · obtain ⟨e, he, rfl⟩ := List.mem_map.1 he'
    exact h type e he
  · obtain ⟨e, he, rfl⟩ := List.mem_map.1 he'
    exact hbound type e he

omit haccepts hids

/-- References that are there are there in caches that show the same. -/
theorem BoundAll.of_same (hbound : BoundAll authoritative r medium m) (hm : medium.InOrder m)
    (h : HoldsAll authoritative r medium m) (hsame : medium.Same m m') :
    BoundAll authoritative r medium m' := fun type e he =>
  (hbound type e he).of_same hm (tells_partOf hr he) (tells_of_mem_entitiesOf hr he) (h type e he) hsame

/-! ## Evictions -/

variable {stale : StringMap StringSet} (hstale : ∀ t ∈ stale, medium.Tells t)
  (hnot : ∀ t, ∀ x ∈ StringMap.find stale t, x ∉ r.ids t)

include hstale hnot

/-- Evictions take references at most from what has been written. -/
theorem fulfils_evictions_holds {bad : Error → medium.View → Prop} (stats : MergeStats) :
    Plan.Fulfils medium.respond (.alone _)
      (fun m => medium.InOrder m ∧ HoldsAll authoritative r medium m)
      (evictAll (evictions stale r) stats)
      (fun _ m => medium.InOrder m ∧ HoldsAll authoritative r medium m) bad := by
  have hbears : Bears medium.respond (.alone _) medium.Tells
      fun m => medium.InOrder m ∧ HoldsAll authoritative r medium m := by
    refine ⟨Plan.Conduct.stable_alone _, fun t ids filter m ht h => ?_,
      fun t ids related targets m ht hrelated h => ?_⟩
    · have hread := medium.keepsEntities.reads (.entities t ids filter) m rfl
      refine ⟨trivial, hread.symm ▸ h, fun es hes e he related hmem => ?_⟩
      exact h.1.tells_of_entities ht hes he hmem
    · exact ⟨trivial, h.1.respond (q := .unlink t ids related targets) ⟨ht, hrelated⟩, fun t' e he =>
        (h.2 t' e he).unlink (tells_partOf hr he) (tells_of_mem_entitiesOf hr he) ht ids hrelated targets⟩
  refine fulfils_evictAll (fun _ m => medium.InOrder m ∧ HoldsAll authoritative r medium m)
    (fun _ => Plan.Conduct.stable_alone _) (fun t ids rest hmem => ?_) (fun _ _ _ h => h)
    (fun t ids rest hmem m h => ?_) stats
  · exact hbears.fulfils_cascade (tells_of_mem_evictions hr hstale (StringMap.mem_of_mem_toList hmem)) _
  · have ht := tells_of_mem_evictions hr hstale (StringMap.mem_of_mem_toList hmem)
    refine ⟨trivial, respond_evict_snd t ids.toList m,
      h.1.respond (q := .evict t ids.toList) ht, fun t' e he => ?_⟩
    refine (h.2 t' e he).evict h.1 (tells_of_mem_entitiesOf hr he) ht (tells_partOf hr he) fun htt => ?_
    subst htt
    rw [id_partOf, Std.ExtTreeSet.mem_toList, ← StringMap.find_of_mem_toList hmem]
    exact not_mem_evictions hnot (mem_ids_of_mem_entitiesOf he)

/-- Applied to what it has left, a report changes nothing, if no reference that it writes has been taken
away; in any case all of them are there in the end. -/
theorem fulfils_apply_again (haccepts : engine.Accepts r)
    (hids : ∀ type, ((r.entitiesOf type).map Entity.id).Nodup) {m₀ : medium.View}
    (h₀ : medium.InOrder m₀) (hwritten : HoldsAll authoritative r medium m₀)
    (hlacks : medium.Lacks (evictions stale r) m₀) :
    Plan.Fulfils medium.respond (.alone _) (fun m => m = m₀) (apply authoritative r stale)
      (fun _ m => medium.InOrder m ∧ BoundAll authoritative r medium m ∧
        (BoundAll authoritative r medium m₀ → medium.Same m₀ m)) fun _ _ => False := by
  refine Plan.fulfils_bind (fun _ m => medium.InOrder m ∧ medium.Lacks (evictions stale r) m ∧
    BoundAll authoritative r medium m ∧ (BoundAll authoritative r medium m₀ → medium.Same m₀ m))
    ?_ fun stats => ?_
  · refine (fulfils_writes haccepts hr hids (fun m => medium.Lacks (evictions stale r) m ∧
      HoldsAll authoritative r medium m ∧ (BoundAll authoritative r medium m₀ → medium.Same m₀ m))
      ?_).mono ?_ (fun _ m h => ⟨h.1.1, h.1.2.1, h.2.2, h.1.2.2.2⟩) fun _ _ h => h
    · rintro t hne m hm ⟨hl, hw, hsame⟩
      have hsuits := suits_write authoritative hr hne (modeOf authoritative t)
      refine ⟨hl.write hm hsuits.1 fun e' he' => ⟨isEmpty_of_mem_partOf haccepts he', ?_⟩,
        hw.write haccepts hr hids hm hne, fun hb => ?_⟩
      · obtain ⟨e, he, rfl⟩ := List.mem_map.1 he'
        rw [id_partOf]
        exact not_mem_evictions hnot (mem_ids_of_mem_entitiesOf he)
      · have hbound : BoundAll authoritative r medium m := hb.of_same hr h₀ hwritten (hsame hb)
        exact (hsame hb).trans (hw.same_write haccepts hr hids hm hbound hne)
    · rintro m rfl
      exact ⟨h₀, hlacks, hwritten, fun _ => .refl medium m⟩
  · have habsent : ∀ {t ids}, (t, ids) ∈ (evictions stale r).toList →
        medium.Tells t ∧ ∀ m, medium.Lacks (evictions stale r) m →
          ∀ id ∈ ids.toList, id ∉ medium.ids t m := by
      intro t ids hmem
      have ht := tells_of_mem_evictions hr hstale (StringMap.mem_of_mem_toList hmem)
      refine ⟨ht, fun m hl id hid => hl t ht id ?_⟩
      rw [StringMap.find_of_mem_toList hmem]
      exact Std.ExtTreeSet.mem_toList.1 hid
    refine (fulfils_evictAll (fun _ m => medium.InOrder m ∧
      medium.Lacks (evictions stale r) m ∧ BoundAll authoritative r medium m ∧
      (BoundAll authoritative r medium m₀ → medium.Same m₀ m)) (fun _ => Plan.Conduct.stable_alone _)
      (fun t ids rest hmem => ?_) (fun _ _ _ h => h) (fun t ids rest hmem m h => ?_) stats).mono
      (fun _ h => h) (fun _ m h => ⟨h.1, h.2.2⟩) fun _ _ h => h
    · exact fulfils_cascade_absent (Plan.Conduct.stable_alone _) (fun _ => trivial) fun m h =>
        respond_entities_absent ((habsent hmem).2 m h.2.1) none
    · obtain ⟨ht, hids'⟩ := habsent hmem
      obtain ⟨hm, hl, hb, hsame⟩ := h
      refine ⟨trivial, respond_evict_snd t ids.toList m, hm.respond (q := .evict t ids.toList) ht,
        hl.evict hm ht ids.toList, fun t' e he => ?_,
        fun hb₀ => (hsame hb₀).trans (same_evict hm ht (hids' m hl))⟩
      refine (hb t' e he).evict hm (tells_of_mem_entitiesOf hr he) ht (tells_partOf hr he) fun htt => ?_
      subst htt
      rw [id_partOf, Std.ExtTreeSet.mem_toList, ← StringMap.find_of_mem_toList hmem]
      exact not_mem_evictions hnot (mem_ids_of_mem_entitiesOf he)

end Apply

/-! ## What is read -/

variable {s s' : medium.backend.State} {id related x : String} {f : Entity}

/-- A state that requests lead to from the beginning, with names that can be told apart. -/
def Occurs (medium : Medium) (s : medium.backend.State) : Prop :=
  ∃ c, medium.IsFresh c ∧ medium.backend.Reaches (CacheRequest.Suits medium.Tells fun _ => True) c s

theorem Occurs.inOrder (h : medium.Occurs s) : medium.Sound s ∧ medium.InOrder (medium.view s) := by
  obtain ⟨c, hc, hs⟩ := h
  exact hc.valid_of_reaches medium.inOrder_fresh (fun _ _ hq hm => hm.respond hq) hs

/-- Every read about names that can be told apart has the same answer in two states. -/
def ReadAlike (medium : Medium) (s s' : medium.backend.State) : Prop :=
  ∀ q : CacheRequest, q.isRead → medium.Tells q.type →
    ∃ reply, medium.backend.Replies s q reply ∧ medium.backend.Replies s' q reply

theorem readAlike_of_same (hs : medium.Sound s) (hs' : medium.Sound s')
    (h : medium.Same (medium.view s) (medium.view s')) : medium.ReadAlike s s' := fun q hq ht =>
  ⟨_, replies hs q, h.reply hq ht ▸ replies hs' q⟩

/-- Whether an id is there among the related ids of an entity. -/
def Relates : (medium : Medium) → (type id related x : String) → medium.View → Prop
  | memory _, type, id, related, x => fun m : Memory =>
      x ∈ StringMap.find (Memory.recordAt (m.recordsOf type) id).relationships related
  | node o _, type, id, related, x => fun m : Cells =>
      x ∈ (m (o.relationshipKey type id related)).members

theorem bound_iff : medium.Bound type e m ↔ ∀ related x, x ∈ StringMap.find e.relationships related →
    medium.Relates type e.id related x m := by
  cases medium <;> exact Iff.rfl

/-- What is shown of the relationships of an entity is there. -/
theorem mem_of_shows (hs : medium.Sound s) (h : medium.InOrder (medium.view s)) (ht : medium.Tells type)
    (hshows : medium.Shows s type id f) : x ∈ StringMap.find f.relationships related ↔
      medium.Tells related ∧ medium.Relates type id related x (medium.view s) := by
  have hreply := (replies hs (.entities type (some [id]) none)).unique hshows
  cases medium with
  | memory name =>
      have hentities : Memory.entities s type (some [id]) none = [f] := Except.ok.inj hreply
      obtain ⟨r, hr, rfl⟩ := Memory.entities_eq_singleton_iff.1 hentities
      refine (r.mem_find_entity id (by simp) related x).trans ?_
      change _ ↔ True ∧ x ∈ StringMap.find
        (Memory.recordAt (Memory.recordsOf s type) id).relationships related
      rw [Memory.recordAt_of_getElem? hr]
      simp
  | node o name => exact mem_of_entities (h type ht).2 hreply

end Medium

/-- Whether a report writes a reference. -/
def Report.Writes (r : Report) (ref : Reference) : Prop :=
  ∃ e ∈ r.entitiesOf ref.holderType, e.id = ref.holder ∧
    ref.id ∈ StringMap.find e.relationships ref.type

namespace Medium

variable {medium : Medium} {s s' : medium.backend.State} {authoritative : StringSet} {r : Report}

section References

variable (hs : medium.Sound s) (h : medium.InOrder (medium.view s))
  (hr : r.Suits medium.Tells fun _ => True)

include hs h hr

theorem boundAll_of_refers (hrefers : ∀ ref, r.Writes ref → medium.Refers s ref) :
    BoundAll authoritative r medium (medium.view s) := by
  refine fun type e he => bound_iff.2 fun related x hx => ?_
  rw [relationships_partOf] at hx
  rw [id_partOf]
  obtain ⟨f, hshows, hmem⟩ := hrefers ⟨type, e.id, related, x⟩ ⟨e, he, rfl, hx⟩
  exact ((mem_of_shows hs h (tells_of_mem_entitiesOf hr he) hshows).1 hmem).2

theorem refers_of_boundAll (hbound : BoundAll authoritative r medium (medium.view s)) {ref : Reference}
    (href : r.Writes ref) {f : Entity} (hshows : medium.Shows s ref.holderType ref.holder f) :
    medium.Refers s ref := by
  obtain ⟨e, he, hid, hx⟩ := href
  have hrelates := bound_iff.1 (hbound ref.holderType e he) ref.type ref.id
    (by rwa [relationships_partOf])
  rw [id_partOf, hid] at hrelates
  refine ⟨f, hshows, (mem_of_shows hs h (tells_of_mem_entitiesOf hr he) hshows).2 ⟨?_, hrelates⟩⟩
  exact (hr.entities ref.holderType e he).related ref.type
    (StringMap.mem_of_mem_toList (StringMap.mem_toList_of_mem_find hx))

end References

end Medium

/-! ## Merging twice -/

/-- In every state that a cache can be in, a merge that succeeds can be repeated: the second succeeds, it
evicts nothing that is there and leaves all ids. Every read is answered as after the first if every
reference that the report writes is read after it, and only if every one of them is that can be read after
the second. -/
theorem merge_twice {medium : Medium} {s : medium.backend.State} (hs : medium.Occurs s)
    (engine : Engine) (source : Source) {authoritative : StringSet}
    (ht : ∀ t ∈ authoritative, medium.Tells t) {r : Report} (hr : r.Suits medium.Tells fun _ => True)
    (hids : ∀ type, ((r.entitiesOf type).map Entity.id).Nodup) {s' : medium.backend.State}
    {stats : MergeStats}
    (hends : medium.backend.EndsIn (engine.mergeSnapshot source authoritative r) s s' (.ok stats)) :
    ∃ s'' stats', medium.backend.EndsIn (engine.mergeSnapshot source authoritative r) s' s'' (.ok stats') ∧
      (∀ type, medium.Tells type → ∃ ids, medium.backend.Replies s' (.identifiers type) (.ok ids) ∧
        medium.backend.Replies s'' (.identifiers type) (.ok ids) ∧
        engine.staleOf source authoritative r type ids = ∅ ∧ ∀ id ∈ explicitIds r type, id ∉ ids) ∧
      ((∀ ref, r.Writes ref → medium.Refers s' ref) → medium.ReadAlike s' s'') ∧
      (medium.ReadAlike s' s'' → ∀ ref, r.Writes ref →
        (∃ e, medium.Shows s'' ref.holderType ref.holder e) → medium.Refers s' ref) := by
  obtain ⟨hsound, hm⟩ := hs.inOrder
  obtain ⟨hsound', hrun⟩ := Medium.run_of_endsIn hsound hends
  have hnot : ∀ (m : medium.View) (stale : StringMap StringSet),
      (∀ t, StringMap.find stale t = staleOf engine source authoritative r t (medium.ids t m)) →
        ∀ t, ∀ x ∈ StringMap.find stale t, x ∉ r.ids t := fun m stale hfind t x hx =>
    KeepsIds.not_mem_ids_of_mem_staleOf engine source authoritative r (hfind t ▸ hx)
  -- The first merge writes all entities, and what it evicts is gone.
  obtain ⟨haccepts, hm', hwritten⟩ := (Medium.fulfils_mergeSnapshot engine source authoritative r
    (fun _ m => medium.InOrder m ∧ Medium.HoldsAll authoritative r medium m)
    fun haccepts stale hfind htypes => Plan.fulfils_bind _
      ((Medium.fulfils_writes haccepts hr hids (fun _ => True) fun _ _ _ _ h => h).mono
        (fun m h => h ▸ ⟨hm, trivial⟩) (fun _ m h => ⟨h.1.1, h.2.1⟩) fun _ _ h => h) fun written =>
      Medium.fulfils_evictions_holds hr (fun t h => ht t (htypes t h))
        (hnot (medium.view s) stale hfind) written).run rfl hrun
  have hmerged : ∀ type, medium.Tells type → medium.ids type (medium.view s') = merged r type
      (medium.ids type (medium.view s))
      (staleOf engine source authoritative r type (medium.ids type (medium.view s))) := fun type htype =>
    ((Medium.keepsIds htype).run_mergeSnapshot engine source authoritative r (hm.takesIds htype) hrun).2
  -- The second finds nothing to evict.
  obtain ⟨s'', hends', hsound'', hview⟩ :=
    Medium.exists_endsIn hsound' (engine.mergeSnapshot source authoritative r)
  have hsecond := (Medium.fulfils_mergeSnapshot engine source authoritative r
    (fun _ m => medium.InOrder m ∧ Medium.BoundAll authoritative r medium m ∧
      (Medium.BoundAll authoritative r medium (medium.view s') → medium.Same (medium.view s') m))
    fun _ stale hfind htypes => Medium.fulfils_apply_again hr (fun t h => ht t (htypes t h))
      (hnot (medium.view s') stale hfind) haccepts hids hm' hwritten fun t htells x hx => by
        rw [KeepsIds.mem_evictions, hfind, hmerged t htells, staleOf_merged] at hx
        rw [hmerged t htells, mem_merged_staleOf]
        exact fun hmem => hmem.2 (hx.imp_left fun h => absurd h Std.ExtTreeSet.not_mem_empty)).run
    rfl (Prod.eta _).symm
  cases hresult : ((engine.mergeSnapshot source authoritative r).run medium.respond
      (medium.view s')).2 with
  | error e =>
      rw [hresult] at hsecond
      exact absurd haccepts hsecond.2
  | ok stats' =>
      rw [hresult] at hsecond hends'
      rw [← hview] at hsecond
      obtain ⟨-, hm'', hbound, hsame⟩ := hsecond
      refine ⟨s'', stats', hends', fun type htype => ?_, fun hrefers => ?_,
        fun halike ref href hshows => ?_⟩
      · have hids' : medium.ids type (medium.view s'') = medium.ids type (medium.view s') := by
          rw [hview, ((Medium.keepsIds htype).run_mergeSnapshot engine source authoritative r
            (hm'.takesIds htype) (Prod.ext rfl hresult)).2, hmerged type htype]
          exact merged_merged engine source authoritative r _
        have hreply' := Medium.replies_ids htype hsound' (hm'.takesIds htype)
        have hreply'' := Medium.replies_ids htype hsound'' (hm''.takesIds htype)
        rw [hids'] at hreply''
        refine ⟨_, hreply', hreply'', ?_, fun id hid => ?_⟩
        · rw [hmerged type htype, staleOf_merged]
        · rw [hmerged type htype]
          exact not_mem_merged_of_explicit engine source authoritative r _ hid
      · exact Medium.readAlike_of_same hsound' hsound''
          (hsame (Medium.boundAll_of_refers hsound' hm' hr hrefers))
      · obtain ⟨e, hshows⟩ := hshows
        obtain ⟨f, hf, hmem⟩ := Medium.refers_of_boundAll hsound'' hm'' hr hbound href hshows
        obtain ⟨reply, hreply', hreply''⟩ := halike
          (.entities ref.holderType (some [ref.holder]) none) rfl
          (tells_of_mem_entitiesOf hr href.choose_spec.1)
        obtain rfl := hreply''.unique hf
        exact ⟨f, hreply', hmem⟩

/-! ## Two examples -/

/-- A source that answers for everything. -/
def ofAll : Source := { agent := "agent", scope := .everything }

/-- An entity that is related to another one. -/
def relatedTo (id type related : String) : Entity :=
  { id, relationships := Relationships.add ∅ type [related] }

theorem tells_relatedTo {tells : String → Prop} {id type related : String} (h : tells type) :
    ∀ t ∈ (relatedTo id type related).relationships, tells t := by
  intro t ht
  rw [relatedTo, Relationships.add, StringMap.mem_insert_iff] at ht
  rcases ht with rfl | ht
  · exact h
  · simp at ht

/-- A report on one entity that is related to another one. -/
def oneRelated : Report where
  entities := (∅ : StringMap (List Entity)).insert "r" [relatedTo "t" "n" "e"]

theorem entitiesOf_oneRelated (type : String) :
    oneRelated.entitiesOf type = if "r" = type then [relatedTo "t" "n" "e"] else [] := by
  rw [Report.entitiesOf, StringMap.find, oneRelated, Std.ExtTreeMap.getElem?_insert]
  by_cases h : "r" = type <;> simp [h]

theorem suits_oneRelated {tells : String → Prop} (hr : tells "r") (hn : tells "n") :
    oneRelated.Suits tells fun _ => True where
  types type h := by
    obtain rfl : "r" = type := by simpa [oneRelated, StringMap.mem_insert_iff] using h
    exact hr
  evictedTypes type h := by simp [oneRelated] at h
  entities type e he := by
    rw [entitiesOf_oneRelated] at he
    split at he
    · obtain rfl := List.mem_singleton.1 he
      exact ⟨fun _ => trivial, tells_relatedTo hn⟩
    · simp at he

theorem nodup_oneRelated (type : String) : ((oneRelated.entitiesOf type).map Entity.id).Nodup := by
  rw [entitiesOf_oneRelated]
  split <;> simp

/-- What the report is merged into: an entity that is related to the one reported, and one that is not
reported. -/
def before : List CacheRequest :=
  [.write .union "n" [relatedTo "e" "r" "t"], .write .union "r" [{ id := "old" }]]

theorem suits_before {tells : String → Prop} (hr : tells "r") (hn : tells "n") :
    ∀ q ∈ before, q.Suits tells fun _ => True := by
  refine List.forall_mem_cons.2 ⟨⟨hn, ?_⟩, List.forall_mem_singleton.2 ⟨hr, ?_⟩⟩
  · exact List.forall_mem_singleton.2 ⟨fun _ => trivial, tells_relatedTo hr⟩
  · exact List.forall_mem_singleton.2 ⟨fun _ => trivial, fun t ht => by simp at ht⟩

/-- What the run of work shows on the cells of a node that has answered some requests. -/
theorem Medium.exists_endsIn_of_isOk (o : Options) (name : String) {qs : List CacheRequest}
    (hqs : ∀ q ∈ qs, q.Suits Plain fun _ => True) {p : CachePlan MergeStats}
    (h : (p.run (Backend.respond o) ((CachePlan.inTurn qs).run (Backend.respond o)
      (Store.single { name }).cells).1).2.isOk) :
    ∃ s s' stats, (node o name).Occurs s ∧ (node o name).backend.EndsIn p s s' (.ok stats) := by
  obtain ⟨s, hreach, hhealthy, hcells⟩ := Backend.keyValue_endsIn (o := o)
    (Store.healthy_fresh name) (CachePlan.inTurn qs)
  obtain ⟨s', hends, -⟩ := Backend.keyValue_endsIn (o := o) hhealthy p
  obtain ⟨stats, hstats⟩ := Plan.exists_of_isOk h
  rw [hcells, hstats] at hends
  exact ⟨s, s', stats, ⟨_, .single name, _, _, CachePlan.asks_inTurn hqs, hreach⟩, hends⟩

/-- A merge of the report by a source that answers for its type, which evicts the entity that it does not
name, can be repeated. -/
theorem merge_twice_on_node : ∃ s s' stats,
    (Medium.node {} "kv").Occurs s ∧
    (∀ t ∈ (.ofList ["r"] : StringSet), (Medium.node {} "kv").Tells t) ∧
    oneRelated.Suits (Medium.node {} "kv").Tells (fun _ => True) ∧
    (∀ type, ((oneRelated.entitiesOf type).map Entity.id).Nodup) ∧
    (Medium.node {} "kv").backend.EndsIn
      (unchecked.mergeSnapshot ofAll (.ofList ["r"]) oneRelated) s s' (.ok stats) ∧
    ∃ s'' stats', (Medium.node {} "kv").backend.EndsIn
      (unchecked.mergeSnapshot ofAll (.ofList ["r"]) oneRelated) s' s'' (.ok stats') := by
  have hr : (Medium.node {} "kv").Tells "r" ∧ (Medium.node {} "kv").Tells "n" := by
    change Plain "r" ∧ Plain "n"
    decide
  have hsuits := suits_oneRelated hr.1 hr.2
  have ht : ∀ t ∈ (.ofList ["r"] : StringSet), (Medium.node {} "kv").Tells t := by
    intro t ht
    obtain rfl : "r" = t := by simpa using ht
    exact hr.1
  obtain ⟨s, s', stats, hs, hends⟩ := Medium.exists_endsIn_of_isOk {} "kv" (suits_before hr.1 hr.2)
    (p := unchecked.mergeSnapshot ofAll (.ofList ["r"]) oneRelated) (by decide +kernel)
  obtain ⟨s'', stats', hagain, -⟩ := merge_twice hs unchecked ofAll ht hsuits nodup_oneRelated hends
  exact ⟨s, s', stats, hs, ht, hsuits, nodup_oneRelated, hends, s'', stats', hagain⟩

/-- In memory an entity refers to what is among its related ids. -/
theorem Medium.refers_memory_iff {name : String} {m : Memory} {ref : Reference} :
    (Medium.memory name).Refers m ref ↔ ref.id ∈ StringMap.find
      (Memory.recordAt (m.recordsOf ref.holderType) ref.holder).relationships ref.type := by
  have hhas : (Memory.sights m).Has ref ↔ True ∧ (Medium.memory name).Refers m ref :=
    @has_iff (.memory name) m trivial trivial ref
  refine (hhas.trans (and_iff_right trivial)).symm.trans ?_
  change (∃ v, Memory.sights m ref.holderType ref.holder = some v ∧ _) ↔ _
  unfold Memory.sights Memory.recordAt
  cases (m.recordsOf ref.holderType)[ref.holder]? <;> simp [StringMap.find]

/-- What merging the report makes of memory, by a source that answers for the other type. -/
def mergeOnce (m : Memory) : Memory × Except Error MergeStats :=
  (unchecked.mergeSnapshot ofAll (.ofList ["n"]) oneRelated).run Backend.remember m

/-- What the requests make of empty memory. -/
def memoryBefore : Memory := ((CachePlan.inTurn before).run Backend.remember {}).1

/-- The source evicts the entity to which the report refers, and takes the reference away with it. The
second merge writes the reference again, and there is nothing more to evict. -/
theorem second_merge_restores_reference : ∃ s s' s'' stats stats',
    (Medium.memory "memory").Occurs s ∧
    (∀ type, ((oneRelated.entitiesOf type).map Entity.id).Nodup) ∧
    (Medium.memory "memory").backend.EndsIn
      (unchecked.mergeSnapshot ofAll (.ofList ["n"]) oneRelated) s s' (.ok stats) ∧
    (Medium.memory "memory").backend.EndsIn
      (unchecked.mergeSnapshot ofAll (.ofList ["n"]) oneRelated) s' s'' (.ok stats') ∧
    ¬ (Medium.memory "memory").Refers s' ⟨"r", "t", "n", "e"⟩ ∧
    (Medium.memory "memory").Refers s'' ⟨"r", "t", "n", "e"⟩ := by
  have hs : (Medium.memory "memory").Occurs memoryBefore :=
    ⟨_, rfl, _, _, CachePlan.asks_inTurn (suits_before trivial trivial),
      Backend.memory_endsIn "memory" _ _⟩
  obtain ⟨stats, hstats⟩ := Plan.exists_of_isOk (x := (mergeOnce memoryBefore).2) (by decide +kernel)
  obtain ⟨stats', hstats'⟩ := Plan.exists_of_isOk
    (x := (mergeOnce (mergeOnce memoryBefore).1).2) (by decide +kernel)
  have hends := Backend.memory_endsIn "memory"
    (unchecked.mergeSnapshot ofAll (.ofList ["n"]) oneRelated) memoryBefore
  have hends' := Backend.memory_endsIn "memory"
    (unchecked.mergeSnapshot ofAll (.ofList ["n"]) oneRelated) (mergeOnce memoryBefore).1
  refine ⟨memoryBefore, (mergeOnce memoryBefore).1, (mergeOnce (mergeOnce memoryBefore).1).1, stats,
    stats', hs, nodup_oneRelated, hstats ▸ hends, hstats' ▸ hends', ?_, ?_⟩
  · rw [Medium.refers_memory_iff]
    decide +kernel
  · rw [Medium.refers_memory_iff]
    decide +kernel

end Inventory
