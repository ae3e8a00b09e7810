import Inventory.Proofs.Merge.Backends
import Inventory.Proofs.Merge.Evictions
import Inventory.Proofs.Merge.Ids
import Inventory.Proofs.Merge.Sights

/-!
# Inventory.Proofs.Merge.Unlinking

Which references a merge removes, in memory and over a key-value store.

An entity that is not evicted loses exactly its references to evicted entities that referred back to it
(`Medium.Unlinks`), in every state that a cache can be in. As long as no evicted entity referred to
another, the merge counts the references that are lost (`merge_unlinks`).
-/

namespace Inventory

open KeyValue Engine

namespace Medium

/-- Attributes that can be read after they have been stored. -/
def Stores : Medium → Attributes → Prop
  | memory _, _ => True
  | node o _, a => Storable o a

/-- A state that requests lead to from the beginning, with names that can be told apart and attributes
that can be stored. -/
def Arises (medium : Medium) (s : medium.backend.State) : Prop :=
  medium.backend.Reaches (CacheRequest.Suits medium.Tells medium.Stores) medium.fresh s

/-- A read of an id shows an entity. -/
def Shows (medium : Medium) (s : medium.backend.State) (type id : String) (e : Entity) : Prop :=
  medium.backend.Replies s (.entities type (some [id]) none) (.ok [e])

/-- An entity is there that holds a reference. -/
def Refers (medium : Medium) (s : medium.backend.State) (r : Reference) : Prop :=
  ∃ e, medium.Shows s r.holderType r.holder e ∧ r.id ∈ StringMap.find e.relationships r.type

/-- A reference that an entity held before and does not hold after. -/
def Loses (medium : Medium) (s s' : medium.backend.State) (r : Reference) : Prop :=
  medium.Tells r.holderType ∧ medium.Refers s r ∧
    ∃ e, medium.Shows s' r.holderType r.holder e ∧ r.id ∉ StringMap.find e.relationships r.type

/-- Evictions lead from one state to another: entities that are evicted are gone, the others lose
their references to evicted entities that referred back, and nothing else. No step fails, and if no
evicted entity referred to one that is evicted too, the references lost have been counted. -/
structure Unlinks (medium : Medium) (evicted : String → StringSet) (s s' : medium.backend.State)
    (stats : MergeStats) : Prop where
  stays : ∀ type id e, medium.Tells type → medium.Shows s type id e → id ∉ evicted type →
    ∃ e', medium.Shows s' type id e'
  survives : ∀ type id e', medium.Tells type → medium.Shows s' type id e' → id ∉ evicted type ∧
    ∃ e, medium.Shows s type id e ∧ e'.attributes = e.attributes ∧
      ∀ related x, x ∈ StringMap.find e'.relationships related ↔
        x ∈ StringMap.find e.relationships related ∧
          ¬ (x ∈ evicted related ∧ medium.Refers s ⟨related, x, type, id⟩)
  failures : stats.cascadeFailures = 0
  unlinked : (∀ r, medium.Refers s r → r.holder ∈ evicted r.holderType → r.id ∈ evicted r.type →
    ∀ e, ¬ medium.Shows s r.type r.id e) → {r | medium.Loses s s' r}.encard = stats.unlinked

/-- A merge writes, and then it evicts what became stale and what the report names. -/
def Merges (medium : Medium) (authoritative : StringSet) (r : Report)
    (stale : String → StringSet → StringSet) (s s' : medium.backend.State) (stats : MergeStats) : Prop :=
  ∃ w written evicted, medium.backend.EndsIn (writeAll authoritative r) s w (.ok written) ∧
    (∀ type before, medium.Tells type → medium.backend.Replies s (.identifiers type) (.ok before) →
      ∀ x, x ∈ evicted type ↔ x ∈ stale type before ∨ x ∈ explicitIds r type) ∧
    medium.Unlinks evicted w s' stats

/-! ## What is seen in a state -/

/-- Whether requests with names that can be told apart can lead to what requests are answered from. -/
def Valid : (medium : Medium) → medium.View → Prop
  | memory _, _ => True
  | node o _, m => ∀ type, Plain type → Listed o type m

/-- What is seen of the entities. -/
def sights : (medium : Medium) → medium.View → Scene
  | memory _ => Memory.sights
  | node o _ => KeyValue.sights o

variable {medium : Medium} {s s' : medium.backend.State} {type id : String} {v : Sight}
  {evicted : String → StringSet} {stats : MergeStats}

theorem keepsEntities (medium : Medium) :
    KeepsEntities medium.respond medium.Tells medium.Stores medium.Valid medium.sights := by
  cases medium with
  | memory name => exact keepsEntities_memory
  | node o name => exact keepsEntities_keyValue o

theorem valid_fresh (medium : Medium) : medium.Valid (medium.view medium.fresh) := by
  cases medium with
  | memory name => trivial
  | node o name =>
      have hfresh : (node o name).view (node o name).fresh = fun _ => {} := Store.cells_fresh name
      rw [hfresh]
      exact fun type _ => Listed.empty o type

theorem Arises.valid (h : medium.Arises s) : medium.Sound s ∧ medium.Valid (medium.view s) :=
  valid_of_reaches medium.valid_fresh (fun r m hr hm => medium.keepsEntities.stays r m hr hm) h

/-- All that is seen has names that can be told apart. -/
theorem tells_of_sights {m : medium.View} (h : medium.sights m type id = some v) :
    medium.Tells type ∧ ∀ related x, v.related related x → medium.Tells related := by
  cases medium with
  | memory name => exact ⟨trivial, fun _ _ _ => trivial⟩
  | node o name =>
      have hsight : KeyValue.sights o m type id = some v := h
      unfold KeyValue.sights at hsight
      split at hsight
      · next hc =>
        obtain rfl := Option.some.inj hsight
        exact ⟨hc.1, fun related x hx => hx.1⟩
      · contradiction

/-- A read of one id shows what is seen there. -/
theorem exists_shows (hs : medium.Sound s) (hv : medium.Valid (medium.view s))
    (h : medium.sights (medium.view s) type id = some v) :
    ∃ e, medium.Shows s type id e ∧ v.attributes = .ok e.attributes ∧
      ∀ related x, x ∈ StringMap.find e.relationships related ↔ v.related related x := by
  obtain ⟨es, hreply, hreads⟩ :=
    medium.keepsEntities.entities _ type [id] none (by simp) hv (tells_of_sights h).1
  have hids : es.map Entity.id = [id] := by
    rw [hreads.ids]
    simp [h]
  obtain ⟨e, rfl, rfl⟩ := List.map_eq_singleton_iff.1 hids
  obtain ⟨v', hv', hattributes, hrelated⟩ := hreads.sight e (List.mem_singleton_self e)
  obtain rfl := Option.some.inj (hv'.symm.trans h)
  refine ⟨e, ?_, hattributes, fun related x => (hrelated related x).trans (and_iff_left rfl)⟩
  have hreplies := medium.replies hs (.entities type (some [e.id]) none)
  rwa [hreply] at hreplies

/-- What a read of one id shows is seen there. -/
theorem sight_of_shows (hs : medium.Sound s) (hv : medium.Valid (medium.view s))
    (ht : medium.Tells type) {e : Entity} (h : medium.Shows s type id e) :
    ∃ v, medium.sights (medium.view s) type id = some v ∧ v.attributes = .ok e.attributes ∧
      ∀ related x, x ∈ StringMap.find e.relationships related ↔ v.related related x := by
  obtain ⟨es, hreply, hreads⟩ := medium.keepsEntities.entities _ type [id] none (by simp) hv ht
  have hreplies := medium.replies hs (.entities type (some [id]) none)
  rw [hreply] at hreplies
  obtain rfl := Except.ok.inj (hreplies.unique h)
  have hid : e.id = id := by
    have hids := hreads.ids
    by_cases hsome : (medium.sights (medium.view s) type id).isSome
    · simpa [hsome] using hids
    · simp [hsome] at hids
  obtain ⟨v, hv, hattributes, hrelated⟩ := hreads.sight e (List.mem_singleton_self e)
  rw [hid] at hv
  exact ⟨v, hv, hattributes, fun related x => (hrelated related x).trans (and_iff_left rfl)⟩

/-- An entity holds the references that are seen. -/
theorem has_iff (hs : medium.Sound s) (hv : medium.Valid (medium.view s)) (r : Reference) :
    (medium.sights (medium.view s)).Has r ↔ medium.Tells r.holderType ∧ medium.Refers s r := by
  constructor
  · rintro ⟨v, hsight, hr⟩
    obtain ⟨e, he, -, hrelated⟩ := exists_shows hs hv hsight
    exact ⟨(tells_of_sights hsight).1, e, he, (hrelated r.type r.id).2 hr⟩
  · rintro ⟨ht, e, he, hr⟩
    obtain ⟨v, hsight, -, hrelated⟩ := sight_of_shows hs hv ht he
    exact ⟨v, hsight, (hrelated r.type r.id).1 hr⟩

/-! ## What evictions leave -/

theorem Shows.unique {e e' : Entity} (h : medium.Shows s type id e) (h' : medium.Shows s type id e') :
    e = e' := by
  simpa using Backend.Replies.unique h h'

section Evictions

variable (hs : medium.Sound s) (hv : medium.Valid (medium.view s)) (hs' : medium.Sound s')
  (hv' : medium.Valid (medium.view s'))

include hs hv hs' hv'

/-- An entity that is not evicted stays. -/
theorem stays_of_without
    (h : medium.sights (medium.view s') = (medium.sights (medium.view s)).without evicted)
    (ht : medium.Tells type) {e : Entity} (he : medium.Shows s type id e) (hid : id ∉ evicted type) :
    ∃ e', medium.Shows s' type id e' := by
  obtain ⟨v, hsight, -⟩ := sight_of_shows hs hv ht he
  have hsome : ((medium.sights (medium.view s')) type id).isSome := by
    rw [h, Scene.without, if_neg hid, Scene.lose, hsight]
    rfl
  obtain ⟨v', hsight'⟩ := Option.isSome_iff_exists.1 hsome
  obtain ⟨e', he', -⟩ := exists_shows hs' hv' hsight'
  exact ⟨e', he'⟩

/-- What is left of an entity that stays. -/
theorem survives_of_without
    (h : medium.sights (medium.view s') = (medium.sights (medium.view s)).without evicted)
    (ht : medium.Tells type) {e' : Entity} (he' : medium.Shows s' type id e') :
    id ∉ evicted type ∧ ∃ e, medium.Shows s type id e ∧ e'.attributes = e.attributes ∧
      ∀ related x, x ∈ StringMap.find e'.relationships related ↔
        x ∈ StringMap.find e.relationships related ∧
          ¬ (x ∈ evicted related ∧ medium.Refers s ⟨related, x, type, id⟩) := by
  obtain ⟨v', hsight', hattributes', hrelated'⟩ := sight_of_shows hs' hv' ht he'
  rw [h, Scene.without] at hsight'
  split at hsight'
  · contradiction
  · next hid =>
    obtain ⟨v, hsight, rfl⟩ := Scene.lose_eq_some.1 hsight'
    obtain ⟨e, he, hattributes, hrelated⟩ := exists_shows hs hv hsight
    refine ⟨hid, e, he, Except.ok.inj (hattributes'.symm.trans hattributes), fun related x => ?_⟩
    rw [hrelated', hrelated]
    refine and_congr_right fun hx => not_congr (and_congr_right fun _ => ?_)
    exact (has_iff hs hv _).trans (and_iff_right ((tells_of_sights hsight).2 related x hx))

/-- The references that are lost are those to evicted entities that referred back, if no evicted
entity referred to one that is evicted too. -/
theorem loses_iff
    (h : medium.sights (medium.view s') = (medium.sights (medium.view s)).without evicted)
    (haloof : (medium.sights (medium.view s)).Aloof evicted) (r : Reference) :
    medium.Loses s s' r ↔ r.id ∈ evicted r.type ∧ (medium.sights (medium.view s)).Has r ∧
      (medium.sights (medium.view s)).Has r.back := by
  have hback : (medium.sights (medium.view s)).Has r →
      ((medium.sights (medium.view s)).Has r.back ↔ medium.Refers s r.back) := by
    rintro ⟨v, hsight, hrelated⟩
    exact (has_iff hs hv _).trans (and_iff_right ((tells_of_sights hsight).2 r.type r.id hrelated))
  constructor
  · rintro ⟨ht, hr, e', he', hlost⟩
    have hhas : (medium.sights (medium.view s)).Has r := (has_iff hs hv r).2 ⟨ht, hr⟩
    obtain ⟨-, e, he, -, hsame⟩ := survives_of_without hs hv hs' hv' h ht he'
    obtain ⟨f, hf, hheld⟩ := hr
    obtain rfl := he.unique hf
    obtain ⟨hid, hrefers⟩ := not_not.1 fun hkept => hlost ((hsame r.type r.id).2 ⟨hheld, hkept⟩)
    exact ⟨hid, hhas, (hback hhas).2 hrefers⟩
  · rintro ⟨hid, hhas, hanswer⟩
    obtain ⟨ht, e, he, hheld⟩ := (has_iff hs hv r).1 hhas
    obtain ⟨e', he'⟩ :=
      stays_of_without hs hv hs' hv' h ht he (haloof.not_mem hhas hanswer hid)
    obtain ⟨-, f, -, -, hsame⟩ := survives_of_without hs hv hs' hv' h ht he'
    refine ⟨ht, ⟨e, he, hheld⟩, e', he', fun hkept => ((hsame r.type r.id).1 hkept).2 ⟨hid, ?_⟩⟩
    exact (hback hhas).1 hanswer

/-- Evictions that are right for what is seen are right for what is read. -/
theorem unlinks_of_severs
    (h : (medium.sights (medium.view s)).Severs evicted (medium.sights (medium.view s')) stats) :
    medium.Unlinks evicted s s' stats where
  stays _ _ _ ht he hid := stays_of_without hs hv hs' hv' h.scene ht he hid
  survives _ _ _ ht he := survives_of_without hs hv hs' hv' h.scene ht he
  failures := h.failures
  unlinked haloof := by
    have hscene : (medium.sights (medium.view s)).Aloof evicted := by
      intro r hr hholder hid
      cases hsight : medium.sights (medium.view s) r.type r.id with
      | none => rfl
      | some v =>
          obtain ⟨e, he, -⟩ := exists_shows hs hv hsight
          exact absurd he (haloof r ((has_iff hs hv r).1 hr).2 hholder hid e)
    rw [← h.unlinked hscene]
    exact congrArg Set.encard (Set.ext (loses_iff hs hv hs' hv' h.scene hscene))

end Evictions

/-! ## Merging -/

variable {authoritative : StringSet} {r : Report}

/-- What is stale, given the ids that are there. -/
theorem find_stale (hs : medium.Arises s) (engine : Engine) (source : Source)
    {stale : StringMap StringSet} {m : medium.View}
    (h : (staleIds engine source authoritative r).run medium.respond (medium.view s) = (m, .ok stale))
    (ht : medium.Tells type) {before : StringSet}
    (hbefore : medium.backend.Replies s (.identifiers type) (.ok before)) :
    StringMap.find stale type = engine.staleOf source authoritative r type before := by
  obtain ⟨valid, ids, K, hfresh⟩ := exists_keepsIds ht
  obtain ⟨hsound, hvalid⟩ := valid_of_reaches hfresh (fun r m _ hm => K.stays r m hm) hs
  have hreplies := replies hsound (.identifiers type)
  rw [K.identifiers _ hvalid] at hreplies
  obtain rfl := Except.ok.inj (hreplies.unique hbefore)
  exact (K.run_staleIds engine source authoritative r hvalid h).2.2

/-- A run of the writes and evictions of a merge is what work over the backend does. -/
theorem merges_of_run (hs : medium.Sound s) (hs' : medium.Sound s') {stale : StringMap StringSet}
    {change : String → StringSet → StringSet} (hstale : ∀ type before, medium.Tells type →
      medium.backend.Replies s (.identifiers type) (.ok before) →
      StringMap.find stale type = change type before)
    (h : ∃ m written, (writeAll authoritative r).run medium.respond (medium.view s) =
        (m, .ok written) ∧ medium.Valid m ∧ medium.Valid (medium.view s') ∧
      (medium.sights m).Severs (StringMap.find (evictions stale r)) (medium.sights (medium.view s'))
        stats) : medium.Merges authoritative r change s s' stats := by
  obtain ⟨m, written, hwrite, hm, hv', hsevers⟩ := h
  obtain ⟨w, hends, hw, hview⟩ := exists_endsIn hs (writeAll authoritative r)
  rw [hwrite] at hends hview
  obtain rfl : medium.view w = m := hview
  refine ⟨w, written, _, hends, fun type before ht hbefore x => ?_, unlinks_of_severs hw hm hs' hv' hsevers⟩
  rw [KeepsIds.mem_evictions, hstale type before ht hbefore]

end Medium

/-- In every state that a cache can be in, a merge that succeeds leaves of its writes what its evictions
leave, with exactly the references removed to evicted entities that referred back, none of them
failing, and counted; so does an eviction of what is gone. -/
theorem merge_unlinks {medium : Medium} {s : medium.backend.State} (hs : medium.Arises s)
    (engine : Engine) (source : Source) {authoritative : StringSet}
    (ht : ∀ t ∈ authoritative, medium.Tells t) {r : Report} (hr : r.Suits medium.Tells medium.Stores)
    {type : String} (htype : medium.Tells type) (ids : List String) :
    (∀ s' stats,
      medium.backend.EndsIn (engine.mergeSnapshot source authoritative r) s s' (.ok stats) →
      medium.Merges authoritative r (engine.staleOf source authoritative r) s s' stats) ∧
    (∀ s' stats,
      medium.backend.EndsIn (engine.mergePartial source authoritative r) s s' (.ok stats) →
      medium.Merges authoritative r (fun _ _ => ∅) s s' stats) ∧
    ∀ s' stats, medium.backend.EndsIn (engine.evictDeleted type ids) s s' (.ok stats) →
      medium.Unlinks (fun t => if t = type then .ofList ids else ∅) s s' stats := by
  obtain ⟨hsound, hvalid⟩ := hs.valid
  refine ⟨fun s' stats hends => ?_, fun s' stats hends => ?_, fun s' stats hends => ?_⟩
  · obtain ⟨hsound', hrun⟩ := Medium.run_of_endsIn hsound hends
    obtain ⟨stale, w, written, hstale, happlied⟩ :=
      medium.keepsEntities.run_mergeSnapshot engine source hvalid ht hr hrun
    exact Medium.merges_of_run hsound hsound'
      (fun t before ht hbefore => Medium.find_stale hs engine source hstale ht hbefore)
      ⟨w, written, happlied⟩
  · obtain ⟨hsound', hrun⟩ := Medium.run_of_endsIn hsound hends
    exact Medium.merges_of_run hsound hsound' (fun t before _ _ => by simp [StringMap.find])
      (medium.keepsEntities.run_mergePartial engine source hvalid hr hrun)
  · obtain ⟨hsound', hrun⟩ := Medium.run_of_endsIn hsound hends
    obtain ⟨hvalid', hsevers⟩ := medium.keepsEntities.run_evictDeleted engine hvalid htype hrun
    exact Medium.unlinks_of_severs hsound hvalid hsound' hvalid' hsevers

/-! ## An example on one node -/

/-- An entity that is related to two others, of which one is related to it. -/
def oneAnswer : List CacheRequest :=
  [.write .union "t" [linked],
    .write .union "u" [{ id := "x", relationships := Relationships.add ∅ "t" ["a"] }, { id := "y" }]]

theorem suits_oneAnswer : ∀ r ∈ oneAnswer, r.Suits Plain (Storable {}) := by
  have hplain : Plain "t" ∧ Plain "u" := by decide
  have hstorable : Storable {} linked.attributes := by
    have hdecode := (faithful_oneOrTwo {}).decode linked.attributes (.inl rfl)
    rw [Storable, hdecode]
    rfl
  have hback : ∀ type ∈ Relationships.add ∅ "t" ["a"], Plain type := by
    intro type h
    rw [Relationships.add, StringMap.mem_insert_iff] at h
    rcases h with rfl | h
    · exact hplain.1
    · simp at h
  refine List.forall_mem_cons.2 ⟨⟨hplain.1, ?_⟩, List.forall_mem_singleton.2 ⟨hplain.2, ?_⟩⟩
  · exact List.forall_mem_singleton.2 ⟨fun _ => hstorable, fits_linked.related⟩
  · exact List.forall_mem_cons.2 ⟨⟨fun h => absurd rfl h, hback⟩,
      List.forall_mem_singleton.2 ⟨fun h => absurd rfl h, fun type h => by simp at h⟩⟩

/-- Whether a merge succeeded and removed one reference. -/
def removesOne : Except Error MergeStats → Bool
  | .ok stats => stats.unlinked == 1
  | .error _ => false

theorem exists_of_removesOne {x : Except Error MergeStats} (h : removesOne x) :
    ∃ stats, x = .ok stats ∧ stats.unlinked = 1 := by
  cases x with
  | ok stats => exact ⟨stats, rfl, by simpa [removesOne] using h⟩
  | error e => contradiction

/-- An empty report makes the entity stale, and one reference is removed with it: that of the entity
which is related to it. -/
theorem one_reference_removed : (∀ r ∈ oneAnswer, r.Suits Plain (Storable {})) ∧ ∃ s s' stats,
    (Medium.node {} "kv").Arises s ∧
    (Medium.node {} "kv").backend.EndsIn
      (unchecked.mergeSnapshot ofTwo (.ofList ["t"]) {}) s s' (.ok stats) ∧
    stats.unlinked = 1 ∧
    (Medium.node {} "kv").Merges (.ofList ["t"]) {} (unchecked.staleOf ofTwo (.ofList ["t"]) {}) s s'
      stats := by
  have ht : ∀ t ∈ (.ofList ["t"] : StringSet), (Medium.node {} "kv").Tells t := by
    intro t ht
    obtain rfl : "t" = t := by simpa using ht
    change Plain "t"
    decide
  have hr : ({} : Report).Suits (Medium.node {} "kv").Tells (Medium.node {} "kv").Stores :=
    ⟨fun type h => by simp at h, fun type h => by simp at h, fun type e he => by
      simp [Report.entitiesOf, StringMap.find] at he⟩
  obtain ⟨s, hreach, hhealthy, hcells⟩ := Backend.keyValue_endsIn (o := {})
    (Store.healthy_fresh "kv") (CachePlan.inTurn oneAnswer)
  have hs : (Medium.node {} "kv").Arises s :=
    ⟨_, _, CachePlan.asks_inTurn suits_oneAnswer, hreach⟩
  obtain ⟨s', hends, -⟩ := Backend.keyValue_endsIn (o := {}) hhealthy
    (unchecked.mergeSnapshot ofTwo (.ofList ["t"]) {})
  rw [hcells] at hends
  obtain ⟨stats, hstats, hunlinked⟩ := exists_of_removesOne (x := Prod.snd (Plan.run
    (Backend.respond {}) (Plan.run (Backend.respond {}) (Store.single { name := "kv" }).cells
      (CachePlan.inTurn oneAnswer)).1 (unchecked.mergeSnapshot ofTwo (.ofList ["t"]) {})))
    (by decide +kernel)
  rw [hstats] at hends
  exact ⟨suits_oneAnswer, s, s', stats, hs, hends, hunlinked,
    (merge_unlinks hs unchecked ofTwo ht hr (ht "t" (by simp)) []).1 s' stats hends⟩

end Inventory
