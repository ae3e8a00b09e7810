import Inventory.Proofs.Agent.Authority
import Inventory.Proofs.Key.Segments
import Inventory.Proofs.Merge.Attributes

/-!
# Inventory.Proofs.Merge.Disjoint

Two merges at a time, by sources whose scopes do not overlap.

What a merge is about to evict it has found some requests ago, and by then another merge may have written
and evicted. As long as every id that either of them writes or evicts is in the scope of its source, and
no id is in both, neither sees anything of the other (`Medium.fulfils_merge_apart`): each scope is left
with what its source has reported, and the rest of the cache with what was there
(`disjoint_merges`).
-/

namespace Inventory

open KeyValue Engine

/-- Whether a source answers for an id. -/
def Engine.Covers (engine : Engine) (source : Source) (id : String) : Prop :=
  source.scope.contains engine.parsers id

/-- The attributes of the entities that are there, by type and id. -/
abbrev Looks := String → String → Option (Except Error Attributes)

namespace Looks

variable (authoritative : StringSet) (r : Report) (mine other : String → Prop)

/-- Something that has nothing to do with the ids of others. -/
def Heedless (p : Looks → Prop) : Prop :=
  ∀ f f' : Looks, (∀ type id, ¬ other id → f' type id = f type id) → p f → p f'

/-- The ids of neither party are as they were. -/
def Untouched (start f : Looks) : Prop :=
  ∀ type id, ¬ mine id → ¬ other id → f type id = start type id

/-- What is there of one's own ids has been reported, or it is among what is yet to be evicted. -/
def Bounded (rest : List (String × StringSet)) (f : Looks) : Prop :=
  ∀ type ∈ authoritative, ∀ id, mine id → (f type id).isSome →
    id ∈ r.ids type ∨ ∃ ids, (type, ids) ∈ rest ∧ id ∈ ids

/-- The entity is there with the attributes it was written with, if there were any. -/
def Carries (type : String) (e : Entity) (f : Looks) : Prop :=
  ∃ a, f type e.id = some (.ok a) ∧ (e.attributes ≠ [] → a = e.attributes)

/-- All entities of a report are there with their attributes. -/
def CarriesAll (f : Looks) : Prop := ∀ type, ∀ e ∈ r.entitiesOf type, Carries type e f

/-- The report has been written, and some of its source's ids are yet to be evicted. -/
structure Evicting (start : Looks) (rest : List (String × StringSet)) (f : Looks) : Prop where
  untouched : Untouched mine other start f
  bounded : Bounded authoritative r mine rest f
  carries : CarriesAll r f

variable {authoritative r mine other} {p q : Looks → Prop} {f f' start : Looks}

theorem Heedless.and (hp : Heedless other p) (hq : Heedless other q) :
    Heedless other fun f => p f ∧ q f :=
  fun f f' h hf => ⟨hp f f' h hf.1, hq f f' h hf.2⟩

theorem heedless_untouched : Heedless other (Untouched mine other start) :=
  fun _ _ h hf type id hmine hother => (h type id hother).trans (hf type id hmine hother)

theorem heedless_bounded (hmine : ∀ id, mine id → ¬ other id) {rest : List (String × StringSet)} :
    Heedless other (Bounded authoritative r mine rest) := fun f f' h hf type ht id hid hsome => by
  rw [h type id (hmine id hid)] at hsome
  exact hf type ht id hid hsome

theorem Carries.of_eq {type : String} {e : Entity} (h : Carries type e f)
    (hf : f' type e.id = f type e.id) : Carries type e f' := by
  rwa [Carries, hf]

theorem heedless_evicting (hmine : ∀ id, mine id → ¬ other id)
    (hr : ∀ type, ∀ e ∈ r.entitiesOf type, mine e.id) (rest : List (String × StringSet)) :
    Heedless other (Evicting authoritative r mine other start rest) := fun f f' h hf =>
  ⟨heedless_untouched f f' h hf.untouched, heedless_bounded hmine f f' h hf.bounded,
    fun type e he => (hf.carries type e he).of_eq (h type e.id (hmine e.id (hr type e he)))⟩

end Looks

namespace Medium

open Looks

variable {medium : Medium} {W : Attributes → Prop} {mine other : String → Prop} {p : Looks → Prop}
  {m m' m'' : medium.View}

/-! ## Two parties -/

/-- Whatever is done to the cache, some ids are left as they are. -/
def Spares (medium : Medium) (W : Attributes → Prop) (spared : String → Prop)
    (m m' : medium.View) : Prop :=
  medium.Keeps W m → medium.Keeps W m' ∧
    ∀ type id, spared id → medium.look m' type id = medium.look m type id

/-- Neither party changes anything but its own ids. -/
def apart (medium : Medium) (W : Attributes → Prop) (mine other : String → Prop) :
    Plan.Conduct medium.View where
  relies := medium.Spares W fun id => ¬ other id
  guarantees := medium.Spares W fun id => ¬ mine id

/-- Requests can be answered, and something is seen. -/
def Seen (medium : Medium) (W : Attributes → Prop) (p : Looks → Prop) (m : medium.View) : Prop :=
  medium.Keeps W m ∧ p (medium.look m)

theorem Spares.refl (medium : Medium) (W : Attributes → Prop) (spared : String → Prop) (m : medium.View) :
    medium.Spares W spared m m := fun h => ⟨h, fun _ _ _ => rfl⟩

theorem Spares.trans {spared : String → Prop} (h : medium.Spares W spared m m')
    (h' : medium.Spares W spared m' m'') : medium.Spares W spared m m'' := by
  intro hm
  obtain ⟨hm', hlook⟩ := h hm
  obtain ⟨hm'', hlook'⟩ := h' hm'
  exact ⟨hm'', fun type id hid => (hlook' type id hid).trans (hlook type id hid)⟩

theorem lawful_apart : (medium.apart W mine other).Lawful where
  refl m := .refl medium W _ m
  trans _ _ _ := .trans

/-- What has nothing to do with the ids of others they do not make untrue. -/
theorem stable_seen (hp : Heedless other p) : (medium.apart W mine other).Stable (medium.Seen W p) :=
  fun _ _ h hs => ⟨(h hs.1).1, hp _ _ (h hs.1).2 hs.2⟩

/-- Neither reads nor removals of references change attributes. -/
theorem bears_seen (hW : medium.Saves W) (hp : Heedless other p) :
    Bears medium.respond (medium.apart W mine other) medium.Tells (medium.Seen W p) where
  stable := stable_seen hp
  entities type ids filter m ht hm := by
    have hread := medium.keepsEntities.reads (.entities type ids filter) m rfl
    rw [hread]
    exact ⟨.refl medium W _ m, hm, fun es hes e he related hrelated =>
      hm.1.inOrder.tells_of_entities ht hes he hrelated⟩
  unlink type ids related targets m ht hr hm := by
    have hkeeps := hm.1.respond hW (q := .unlink type ids related targets) ⟨ht, hr⟩
    have hlook := look_unlink hm.1 ht ids hr targets
    exact ⟨fun _ => ⟨hkeeps, fun _ _ _ => by rw [hlook]⟩, hkeeps, hlook.symm ▸ hm.2⟩

/-! ## One merge next to another -/

/-- A report that a source may merge next to others: on types for which it has authority, with ids from
its scope that are accepted and different in each type. -/
structure Contributes (medium : Medium) (W : Attributes → Prop) (engine : Engine) (source : Source)
    (authoritative : StringSet) (r : Report) : Prop where
  tells : ∀ type ∈ authoritative, medium.Tells type
  suits : r.Suits medium.Tells W
  accepts : engine.Accepts r
  ids : ∀ type, ((r.entitiesOf type).map Entity.id).Nodup
  types : ∀ type, ∀ e ∈ r.entitiesOf type, type ∈ authoritative
  entities : ∀ type, ∀ e ∈ r.entitiesOf type, engine.Covers source e.id
  evictions : ∀ type, ∀ id ∈ r.evictionsOf type, engine.Covers source id

section Merge

variable {engine : Engine} {source : Source} {authoritative : StringSet} {r : Report} {start : Looks}
  {type : String} (hW : medium.Saves W) (hc : medium.Contributes W engine source authoritative r)
  (hmine : ∀ id, engine.Covers source id → ¬ other id)

include hW hc

/-- What a write of the report makes of attributes. -/
theorem look_write_own (hne : r.entitiesOf type ≠ []) (h : medium.Keeps W m) :
    let m' := (medium.respond (.write (modeOf authoritative type) type
      ((r.entitiesOf type).map (partOf authoritative type))) m).1
    medium.Keeps W m' ∧
      (∀ type' id, (type' = type → id ∉ (r.entitiesOf type).map Entity.id) →
        medium.look m' type' id = medium.look m type' id) ∧
      ∀ e ∈ r.entitiesOf type, Carries type e (medium.look m') := by
  have hsuits := suits_write authoritative hc.suits hne (modeOf authoritative type)
  have hids := map_id_partOf authoritative type (r.entitiesOf type)
  have hnodup : (((r.entitiesOf type).map (partOf authoritative type)).map Entity.id).Nodup :=
    hids ▸ hc.ids type
  have hempty : ∀ e ∈ (r.entitiesOf type).map (partOf authoritative type), e.id.isEmpty = false :=
    fun e he => isEmpty_of_mem_partOf hc.accepts he
  refine ⟨h.respond hW hsuits, fun type' id hid => ?_, fun e he => ?_⟩
  · exact look_write_of_not_mem h hsuits hnodup hempty (hids ▸ hid)
  · have hwhole : partOf authoritative type e = e := if_pos (.inl (hc.types type e he))
    have hlook := look_write_of_mem h hsuits hnodup hempty hW (List.mem_map_of_mem he)
    rwa [hwhole] at hlook

include hmine

/-- The writes carry all entities of the report and leave other ids alone. -/
theorem fulfils_writeAll_apart {rest : List (String × StringSet)} {bad : Error → medium.View → Prop} :
    Plan.Fulfils medium.respond (medium.apart W (engine.Covers source) other)
      (medium.Seen W fun f => Untouched (engine.Covers source) other start f ∧
        Bounded authoritative r (engine.Covers source) rest f)
      (writeAll authoritative r)
      (fun _ => medium.Seen W (Evicting authoritative r (engine.Covers source) other start rest)) bad := by
  refine (fulfils_writeAll_each authoritative r _ (fun type e m => Carries type e (medium.look m))
    (stable_seen (heedless_untouched.and (heedless_bounded hmine))) (fun type e he s s' hs hm h => ?_)
    fun type hne m hm => ?_).mono (fun _ h => h) (fun _ m h => ⟨h.1.1, h.1.2.1, h.1.2.2, h.2⟩)
    fun _ _ h => h
  · exact h.of_eq ((hs hm.1).2 type e.id (hmine e.id (hc.entities type e he)))
  · obtain ⟨hkeeps, huntouched, hbounded⟩ := hm
    obtain ⟨hkept, hsame, hcarries⟩ := look_write_own hW hc hne hkeeps
    have hothers : ∀ type' id, ¬ engine.Covers source id → _ := fun type' id hid =>
      hsame type' id fun _ hmem => by
        obtain ⟨e, he, rfl⟩ := List.mem_map.1 hmem
        exact hid (hc.entities type e he)
    refine ⟨fun _ => ⟨hkept, hothers⟩,
      respond_write_snd _ _ (fun e he => isEmpty_of_mem_partOf hc.accepts he) m,
      ⟨hkept, fun type' id hid hother => (hothers type' id hid).trans (huntouched type' id hid hother),
        fun type' ht' id hid hsome => ?_⟩, hcarries, fun type' hne' e he h => ?_⟩
    · by_cases hmem : type' = type ∧ id ∈ (r.entitiesOf type).map Entity.id
      · obtain ⟨rfl, hmem⟩ := hmem
        obtain ⟨e, he, rfl⟩ := List.mem_map.1 hmem
        exact .inl (mem_ids_of_mem_entitiesOf he)
      · rw [hsame type' id fun ht hid => hmem ⟨ht, hid⟩] at hsome
        exact hbounded type' ht' id hid hsome
    · exact h.of_eq (hsame type' e.id fun ht => absurd ht hne')

/-- The evictions evict what is not of the report, and leave other ids alone. -/
theorem fulfils_evictAll_apart {gone : StringMap StringSet} {bad : Error → medium.View → Prop}
    (hgone : ∀ type ids, (type, ids) ∈ gone.toList → medium.Tells type ∧
      ∀ x ∈ ids, engine.Covers source x ∧ x ∉ r.ids type) (stats : MergeStats) :
    Plan.Fulfils medium.respond (medium.apart W (engine.Covers source) other)
      (medium.Seen W (Evicting authoritative r (engine.Covers source) other start gone.toList))
      (evictAll gone stats)
      (fun _ => medium.Seen W (Evicting authoritative r (engine.Covers source) other start [])) bad := by
  have hheedless : ∀ rest,
      Heedless other (Evicting authoritative r (engine.Covers source) other start rest) :=
    heedless_evicting hmine hc.entities
  refine fulfils_evictAll
    (fun rest => medium.Seen W (Evicting authoritative r (engine.Covers source) other start rest))
    (fun rest => stable_seen (hheedless rest)) (fun type ids rest hmem stats => ?_)
    (fun type rest m hm => ?_) (fun type ids rest hmem m hm => ?_) stats
  · exact (bears_seen hW (hheedless _)).fulfils_cascade (hgone type ids hmem).1 _ stats
  · obtain ⟨hkeeps, huntouched, hbounded, hcarries⟩ := hm
    refine ⟨hkeeps, huntouched, fun type' ht' id hid hsome => ?_, hcarries⟩
    refine (hbounded type' ht' id hid hsome).imp_right ?_
    rintro ⟨ids, hids, hmem⟩
    rcases List.mem_cons.1 hids with heq | hrest
    · obtain rfl : ids = ∅ := congrArg Prod.snd heq
      exact absurd hmem Std.ExtTreeSet.not_mem_empty
    · exact ⟨ids, hrest, hmem⟩
  · obtain ⟨hkeeps, huntouched, hbounded, hcarries⟩ := hm
    obtain ⟨ht, hids⟩ := hgone type ids hmem
    have hkept := hkeeps.respond hW (q := .evict type ids.toList) ht
    have hlook := look_evict hkeeps ht ids.toList
    simp only [Std.ExtTreeSet.mem_toList] at hlook
    have hothers : ∀ type' id, ¬ engine.Covers source id →
        medium.look (medium.respond (.evict type ids.toList) m).1 type' id = medium.look m type' id :=
      fun type' id hid => (hlook type' id).trans (if_neg fun hc => hid (hids id hc.2).1)
    refine ⟨fun _ => ⟨hkept, hothers⟩, respond_evict_snd type ids.toList m, hkept,
      fun type' id hid hother => (hothers type' id hid).trans (huntouched type' id hid hother),
      fun type' ht' id hid hsome => ?_, fun type' e he => ?_⟩
    · rw [hlook] at hsome
      by_cases hnow : type' = type ∧ id ∈ ids
      · rw [if_pos hnow] at hsome
        contradiction
      · rw [if_neg hnow] at hsome
        refine (hbounded type' ht' id hid hsome).imp_right ?_
        rintro ⟨ids', hids', hmem'⟩
        rcases List.mem_cons.1 hids' with heq | hrest
        · cases heq
          exact absurd ⟨rfl, hmem'⟩ hnow
        · exact ⟨ids', hrest, hmem'⟩
    · refine (hcarries type' e he).of_eq ((hlook type' e.id).trans (if_neg ?_))
      rintro ⟨rfl, hid⟩
      exact (hids e.id hid).2 (mem_ids_of_mem_entitiesOf he)

/-- Next to whatever is done to ids of others, a merge succeeds and leaves its scope with the report. -/
theorem fulfils_merge_apart (start : Looks) :
    Plan.Fulfils medium.respond (medium.apart W (engine.Covers source) other)
      (medium.Seen W (Untouched (engine.Covers source) other start))
      (mergeSnapshot engine source authoritative r)
      (fun _ => medium.Seen W (Evicting authoritative r (engine.Covers source) other start []))
      fun _ _ => False := by
  refine Plan.fulfils_bind _ ((engine.fulfils_checkAll source (namedIds r)).mono (fun _ h => h)
    (fun _ _ h => h.1) fun _ _ h => h.2 hc.accepts) fun _ => ?_
  refine Plan.fulfils_bind _ (engine.fulfils_staleIds source authoritative r
    (stable_seen heedless_untouched) (fun m => .refl medium W _ m) (fun t _ => medium.lists _ t)
    fun t ht m m' hs hm => Std.ExtTreeSet.ext_mem fun id => ?_) fun stale m hm => ?_
  · rw [StringSet.mem_filter, StringSet.mem_filter]
    refine and_congr_left fun hid => ?_
    rw [mem_ids_iff (hc.tells t ht), mem_ids_iff (hc.tells t ht), (hs hm.1).2 t id (hmine id hid)]
  · obtain ⟨⟨hkeeps, huntouched⟩, hfind, htypes⟩ := hm
    have hstale : ∀ t, ∀ x ∈ StringMap.find stale t, engine.Covers source x ∧ x ∉ r.ids t := by
      intro t x hx
      rw [hfind] at hx
      refine ⟨?_, KeepsIds.not_mem_ids_of_mem_staleOf engine source authoritative r hx⟩
      unfold staleOf at hx
      split at hx
      · rw [staleIn_eq, StringSet.mem_filter, StringSet.mem_filter] at hx
        exact hx.1.2
      · exact absurd hx Std.ExtTreeSet.not_mem_empty
    refine Plan.fulfils_bind _ (fulfils_writeAll_apart hW hc hmine) (fun written =>
      fulfils_evictAll_apart hW hc hmine (fun t ids hmem => ?_) written) m
      ⟨hkeeps, huntouched, fun t ht id hid hsome => ?_⟩
    · refine ⟨tells_of_mem_evictions hc.suits (fun t h => hc.tells t (htypes t h))
        (StringMap.mem_of_mem_toList hmem), fun x hx => ?_⟩
      rw [← StringMap.find_of_mem_toList hmem] at hx
      refine ⟨?_, fun hmem => not_mem_evictions (fun t x h => (hstale t x h).2) hmem hx⟩
      rcases (KeepsIds.mem_evictions r stale x).1 hx with h | h
      · exact (hstale t x h).1
      · exact hc.evictions t x (List.mem_of_mem_filter h)
    · by_cases hreported : id ∈ r.ids t
      · exact .inl hreported
      · refine .inr ⟨_, StringMap.mem_toList_of_mem_find (x := id) ?_, ?_⟩
        all_goals
          rw [KeepsIds.mem_evictions, hfind, staleOf, if_pos ht, staleIn_eq, StringSet.mem_filter,
            StringSet.mem_filter, mem_ids_iff (hc.tells t ht)]
          exact .inl ⟨⟨hsome, hid⟩, by simpa [← Std.ExtTreeSet.contains_iff_mem] using hreported⟩

end Merge

/-! ## What is read afterwards -/

variable {s s' : medium.backend.State} {type id : String} {α β : Type}

/-- Two plans are followed to their ends, a request of the one or of the other at a time. -/
def Interleaves (medium : Medium) (p : CachePlan α) (q : CachePlan β) (s s' : medium.backend.State)
    (x : Except Error α) (y : Except Error β) : Prop :=
  Plan.Interleaved (fun q s s' reply => medium.backend.EndsIn (.perform q) s s' reply) p q s s' x y

/-- The ids in the scope of a source are those of its report, and its entities have their attributes. -/
structure Reflects (medium : Medium) (engine : Engine) (source : Source) (authoritative : StringSet)
    (r : Report) (s : medium.backend.State) : Prop where
  ids : ∀ type ∈ authoritative, ∃ ids, medium.backend.Replies s (.identifiers type) (.ok ids) ∧
    ids.filter (source.scope.contains engine.parsers) = r.ids type
  attributes : ∀ type, ∀ e ∈ r.entitiesOf type, e.attributes ≠ [] →
    ∃ e', medium.Shows s type e.id e' ∧ e'.attributes = e.attributes

/-- An id is there in both states or in neither, with the same attributes. -/
structure Leaves (medium : Medium) (s s' : medium.backend.State) (type id : String) : Prop where
  ids : ∃ before after, medium.backend.Replies s (.identifiers type) (.ok before) ∧
    medium.backend.Replies s' (.identifiers type) (.ok after) ∧ (id ∈ after ↔ id ∈ before)
  attributes : ∀ a, (∃ e, medium.Shows s' type id e ∧ e.attributes = a) ↔
    ∃ e, medium.Shows s type id e ∧ e.attributes = a

theorem shows_iff (hs : medium.Sound s) (h : medium.Keeps W (medium.view s)) (ht : medium.Tells type)
    (a : Attributes) : (∃ e, medium.Shows s type id e ∧ e.attributes = a) ↔
      medium.look (medium.view s) type id = some (.ok a) := by
  constructor
  · rintro ⟨e, he, rfl⟩
    obtain ⟨v, hv, hattributes, -⟩ := sight_of_shows hs h.valid ht he
    rw [look, hv, Option.map_some, hattributes]
  · intro hlook
    obtain ⟨v, hv, hread⟩ := Option.map_eq_some_iff.1 hlook
    obtain ⟨e, he, hattributes, -⟩ := exists_shows hs h.valid hv
    exact ⟨e, he, Except.ok.inj (hattributes.symm.trans hread)⟩

section Ends

variable (hs' : medium.Sound s')

include hs'

theorem reflects_of_seen {engine : Engine} {source : Source} {authoritative : StringSet} {r : Report}
    (hc : medium.Contributes W engine source authoritative r)
    {other : String → Prop} {start : Looks}
    (h : medium.Seen W (Evicting authoritative r (engine.Covers source) other start [])
      (medium.view s')) : medium.Reflects engine source authoritative r s' where
  ids t ht := by
    have ht' := hc.tells t ht
    refine ⟨_, replies_ids ht' hs' (h.1.inOrder.takesIds ht'), Std.ExtTreeSet.ext_mem fun id => ?_⟩
    rw [StringSet.mem_filter, mem_ids_iff ht']
    constructor
    · rintro ⟨hsome, hid⟩
      exact (h.2.bounded t ht id hid hsome).resolve_right fun ⟨_, hnone, _⟩ => List.not_mem_nil hnone
    · intro hid
      rw [Report.ids, Std.ExtTreeSet.mem_ofList, List.contains_iff_mem] at hid
      obtain ⟨e, he, rfl⟩ := List.mem_map.1 hid
      obtain ⟨a, ha, -⟩ := h.2.carries t e he
      exact ⟨by rw [ha]; rfl, hc.entities t e he⟩
  attributes t e he hne := by
    obtain ⟨a, ha, hsame⟩ := h.2.carries t e he
    obtain rfl := hsame hne
    exact (shows_iff hs' h.1 (hc.tells t (hc.types t e he)) e.attributes).2 ha

theorem leaves_of_look (hs : medium.Sound s) (h : medium.Keeps W (medium.view s))
    (h' : medium.Keeps W (medium.view s')) (ht : medium.Tells type)
    (hlook : medium.look (medium.view s') type id = medium.look (medium.view s) type id) :
    medium.Leaves s s' type id where
  ids := ⟨_, _, replies_ids ht hs (h.inOrder.takesIds ht),
    replies_ids ht hs' (h'.inOrder.takesIds ht), by rw [mem_ids_iff ht, mem_ids_iff ht, hlook]⟩
  attributes a := by rw [shows_iff hs' h' ht, shows_iff hs h ht, hlook]

end Ends

/-- Two plans can be followed with their requests in turn. -/
theorem exists_interleaves (hs : medium.Sound s) (p : CachePlan α) (q : CachePlan β) :
    ∃ s' x y, medium.Interleaves p q s s' x y := by
  induction p generalizing q s with
  | done x =>
      induction q generalizing s with
      | done y => exact ⟨s, x, y, .ended x y s⟩
      | ask r next ih =>
          obtain ⟨s₁, hask, hs₁, -⟩ := exists_endsIn hs (.perform r)
          obtain ⟨s', x, y, h⟩ := ih _ hs₁
          exact ⟨s', x, y, .right hask h⟩
      | note a q ih =>
          obtain ⟨s', x, y, h⟩ := ih hs
          exact ⟨s', x, y, .noteRight h⟩
  | ask r next ih =>
      obtain ⟨s₁, hask, hs₁, -⟩ := exists_endsIn hs (.perform r)
      cases q with
      | done y =>
          obtain ⟨s', x, y, h⟩ := ih _ hs₁ (.done y)
          exact ⟨s', x, y, .left hask h⟩
      | ask r' next' =>
          obtain ⟨s₂, hask', hs₂, -⟩ := exists_endsIn hs₁ (.perform r')
          obtain ⟨s', x, y, h⟩ := ih _ hs₂ (next' _)
          exact ⟨s', x, y, .left hask (.right hask' h)⟩
      | note a q =>
          obtain ⟨s', x, y, h⟩ := ih _ hs₁ q
          exact ⟨s', x, y, .left hask (.noteRight h)⟩
  | note a p ih =>
      obtain ⟨s', x, y, h⟩ := ih hs q
      exact ⟨s', x, y, .noteLeft h⟩

end Medium

/-! ## Two merges -/

/-- In every state that a cache can be in: if two sources whose scopes do not overlap merge reports on
what is their own, then however their requests are interleaved both merges succeed, each scope is left
with what its source has reported, and what is in neither scope as it was. -/
theorem disjoint_merges {medium : Medium} {W : Attributes → Prop} (hW : medium.Saves W)
    {c s : medium.backend.State} (hc : medium.IsFresh c)
    (hs : medium.backend.Reaches (CacheRequest.Suits medium.Tells W) c s) {engine : Engine}
    {source source' : Source} (hscopes : source.scope.overlaps source'.scope = false)
    {authoritative authoritative' : StringSet} {r r' : Report}
    (hr : medium.Contributes W engine source authoritative r)
    (hr' : medium.Contributes W engine source' authoritative' r') {s' : medium.backend.State}
    {x y : Except Error MergeStats}
    (hends : medium.Interleaves (engine.mergeSnapshot source authoritative r)
      (engine.mergeSnapshot source' authoritative' r') s s' x y) :
    (∃ stats, x = .ok stats) ∧ (∃ stats, y = .ok stats) ∧
      medium.Reflects engine source authoritative r s' ∧
      medium.Reflects engine source' authoritative' r' s' ∧
      ∀ type id, medium.Tells type → source.scope.contains engine.parsers id = false →
        source'.scope.contains engine.parsers id = false → medium.Leaves s s' type id := by
  obtain ⟨hsound, hkeeps⟩ := hc.valid_of_reaches (medium.keeps_fresh W)
    (fun _ _ hq hm => hm.respond hW hq) hs
  have hmine : ∀ id, engine.Covers source id → ¬ engine.Covers source' id := fun id hid hid' =>
    Bool.false_ne_true (hscopes.symm.trans (Scope.overlaps_of_contains hid hid'))
  have hmine' : ∀ id, engine.Covers source' id → ¬ engine.Covers source id := fun id hid' hid =>
    hmine id hid hid'
  have hstart := Medium.fulfils_merge_apart hW hr hmine (medium.look (medium.view s)) _
    ⟨hkeeps, fun _ _ _ _ => rfl⟩
  have hstart' := Medium.fulfils_merge_apart hW hr' hmine' (medium.look (medium.view s)) _
    ⟨hkeeps, fun _ _ _ _ => rfl⟩
  have hstep : ∀ (q : CacheRequest) t t' reply, medium.Sound t →
      medium.backend.EndsIn (.perform q) t t' reply →
      medium.Sound t' ∧ medium.respond q (medium.view t) = (medium.view t', reply) :=
    fun _ _ _ _ ht hask => Medium.run_of_endsIn ht hask
  obtain ⟨hsound', hend, hend'⟩ := Plan.Interleaved.assures hstep Medium.lawful_apart Medium.lawful_apart
    (fun _ _ h => h) (fun _ _ h => h)
    (Plan.stable_ends (fun _ => Medium.stable_seen (Looks.heedless_evicting hmine hr.entities []))
      fun _ _ _ _ h => h)
    (Plan.stable_ends (fun _ => Medium.stable_seen (Looks.heedless_evicting hmine' hr'.entities []))
      fun _ _ _ _ h => h) hends hsound hstart hstart'
  cases x with
  | error e => exact hend.elim
  | ok stats =>
      cases y with
      | error e => exact hend'.elim
      | ok stats' =>
          refine ⟨⟨stats, rfl⟩, ⟨stats', rfl⟩, Medium.reflects_of_seen hsound' hr hend,
            Medium.reflects_of_seen hsound' hr' hend', fun type id ht hid hid' => ?_⟩
          exact Medium.leaves_of_look hsound' hsound hkeeps hend.1 ht
            (hend.2.untouched type id (by simp [Engine.Covers, hid]) (by simp [Engine.Covers, hid']))

/-! ## An example on two nodes -/

/-- A source that answers for an account. -/
def ofAccount (name : String) : Source := { agent := name, scope := .account "cloud" name none }

/-- The key of a resource in an account. -/
def keyIn (account name : String) : Key := ⟨"cloud", "t", account, "east", name, []⟩

/-- An entity in an account, with a number. -/
def entityIn (account name : String) (n : Int) : Entity :=
  { id := (keyIn account name).text, attributes := numbered n }

/-- A report on one entity. -/
def reportOf (e : Entity) : Report where
  entities := (∅ : StringMap (List Entity)).insert "t" [e]

theorem entitiesOf_reportOf (e : Entity) (type : String) :
    (reportOf e).entitiesOf type = if "t" = type then [e] else [] := by
  rw [Report.entitiesOf, StringMap.find, reportOf, Std.ExtTreeMap.getElem?_insert]
  by_cases h : "t" = type <;> simp [h]

theorem mem_entitiesOf_reportOf {e e' : Entity} {type : String} :
    e' ∈ (reportOf e).entitiesOf type ↔ "t" = type ∧ e' = e := by
  rw [entitiesOf_reportOf]
  split <;> simp [*]

theorem parse_keyIn {account name : String} (haccount : account ≠ "") (hname : name ≠ "") :
    KeyParsers.parse {} (keyIn account name).text = .ok (keyIn account name) :=
  KeyParsers.parse_text_of_nonempty (by simp [keyIn, Key.segments, Ne.symm haccount, Ne.symm hname])

theorem accepts_reportOf {account name : String} (haccount : account ≠ "") (hname : name ≠ "") (n : Int) :
    Engine.Accepts {} (reportOf (entityIn account name n)) := by
  intro p hp
  rcases List.mem_append.1 hp with hp | hp
  · obtain ⟨⟨type, es⟩, hes, hp⟩ := List.mem_flatMap.1 hp
    obtain ⟨e, he, rfl⟩ := List.mem_map.1 hp
    obtain rfl : (reportOf (entityIn account name n)).entitiesOf type = es :=
      StringMap.find_of_mem_toList hes
    obtain ⟨-, rfl⟩ := mem_entitiesOf_reportOf.1 he
    have hempty : ¬ (keyIn account name).text.isEmpty := by
      rw [String.isEmpty_iff]
      exact (keyIn account name).text_ne_empty
    have hparse := congrArg (Except.map fun _ => ()) (parse_keyIn haccount hname)
    exact (if_neg hempty).trans hparse
  · simp [reportOf] at hp

/-- An entity with a key may be reported for its account. -/
theorem contributes_reportOf (o : Options) (node : String) {account name : String}
    (haccount : account ≠ "") (hname : name ≠ "") {n : Int} (hn : OneOrTwo (numbered n)) :
    (Medium.node o node).Contributes OneOrTwo {} (ofAccount account) (.ofList ["t"])
      (reportOf (entityIn account name n)) where
  tells type h := by
    obtain rfl : "t" = type := by simpa using h
    change Plain "t"
    decide
  suits := ⟨fun type h => by
      obtain rfl : "t" = type := by simpa [reportOf, StringMap.mem_insert_iff] using h
      change Plain "t"
      decide, fun type h => by simp [reportOf] at h, fun type e he => by
      obtain ⟨-, rfl⟩ := mem_entitiesOf_reportOf.1 he
      exact ⟨fun _ => hn, fun t ht => by simp [entityIn] at ht⟩⟩
  accepts := accepts_reportOf haccount hname n
  ids type := by
    rw [entitiesOf_reportOf]
    split <;> simp
  types type e he := by simp [(mem_entitiesOf_reportOf.1 he).1]
  entities type e he := by
    obtain ⟨-, rfl⟩ := mem_entitiesOf_reportOf.1 he
    exact Scope.contains_account.2 ⟨_, parse_keyIn haccount hname, rfl, rfl, by simp⟩
  evictions type id h := by simp [Report.evictionsOf, reportOf, StringMap.find] at h

theorem not_contains_keyIn {ps : KeyParsers} (hps : ps.ReadBack) {account account' : String}
    (h : account ≠ account') (name : String) :
    (ofAccount account').scope.contains ps (keyIn account name).text = false := by
  rw [Bool.eq_false_iff]
  intro hid
  obtain ⟨key, hkey, -, haccount, -⟩ := Scope.contains_account.1 hid
  obtain rfl := hps _ _ hkey
  exact h haccount

/-- What the cache holds before: in each of two accounts an entity that will not be reported, and one in a
third account. -/
def beforeBoth : List CacheRequest :=
  [.write .replace "t" [entityIn "prod" "old" 1, entityIn "test" "old" 2, entityIn "other" "old" 1]]

/-- Two accounts on two nodes are merged with their requests in turn. -/
theorem two_accounts_merge : ∃ c s s' x y,
    (Medium.node {} "kv").Saves OneOrTwo ∧ (Medium.node {} "kv").IsFresh c ∧
    (Medium.node {} "kv").backend.Reaches
      (CacheRequest.Suits (Medium.node {} "kv").Tells OneOrTwo) c s ∧
    (ofAccount "prod").scope.overlaps (ofAccount "test").scope = false ∧
    (Medium.node {} "kv").Contributes OneOrTwo {} (ofAccount "prod") (.ofList ["t"])
      (reportOf (entityIn "prod" "new" 1)) ∧
    (Medium.node {} "kv").Contributes OneOrTwo {} (ofAccount "test") (.ofList ["t"])
      (reportOf (entityIn "test" "new" 2)) ∧
    (Medium.node {} "kv").Interleaves
      (Engine.mergeSnapshot {} (ofAccount "prod") (.ofList ["t"]) (reportOf (entityIn "prod" "new" 1)))
      (Engine.mergeSnapshot {} (ofAccount "test") (.ofList ["t"]) (reportOf (entityIn "test" "new" 2)))
      s s' x y ∧
    (∃ stats, x = .ok stats) ∧ (∃ stats, y = .ok stats) ∧
    (Medium.node {} "kv").Leaves s s' "t" (keyIn "other" "old").text := by
  have hplain : Plain "t" := by decide
  have hbefore : ∀ q ∈ beforeBoth, q.Suits Plain OneOrTwo := by
    refine List.forall_mem_singleton.2 ⟨hplain, fun e he => ⟨fun _ => ?_, fun t ht => ?_⟩⟩
    · simp only [List.mem_cons, List.not_mem_nil, or_false] at he
      rcases he with rfl | rfl | rfl
      · exact .inl rfl
      · exact .inr rfl
      · exact .inl rfl
    · simp only [List.mem_cons, List.not_mem_nil, or_false] at he
      rcases he with rfl | rfl | rfl <;> simp [entityIn] at ht
  have hnodes : Store.IsFresh (.sharded (["first", "second"].map fun name => { name })) :=
    .sharded (by decide)
  obtain ⟨s, hreach, hhealthy, -⟩ := Backend.keyValue_endsIn (o := {}) hnodes.healthy
    (CachePlan.inTurn beforeBoth)
  have hs : (Medium.node {} "kv").backend.Reaches
      (CacheRequest.Suits (Medium.node {} "kv").Tells OneOrTwo) _ s :=
    ⟨_, _, CachePlan.asks_inTurn hbefore, hreach⟩
  have hscopes : (ofAccount "prod").scope.overlaps (ofAccount "test").scope = false := by decide
  have hprod := contributes_reportOf {} "kv" (show "prod" ≠ "" by decide) (show "new" ≠ "" by decide)
    (show OneOrTwo (numbered 1) from .inl rfl)
  have htest := contributes_reportOf {} "kv" (show "test" ≠ "" by decide) (show "new" ≠ "" by decide)
    (show OneOrTwo (numbered 2) from .inr rfl)
  have hsound : (Medium.node {} "kv").Sound s := hhealthy
  have hsaves : (Medium.node {} "kv").Saves OneOrTwo := faithful_oneOrTwo {}
  obtain ⟨s', x, y, hends⟩ := Medium.exists_interleaves hsound
    (Engine.mergeSnapshot {} (ofAccount "prod") (.ofList ["t"]) (reportOf (entityIn "prod" "new" 1)))
    (Engine.mergeSnapshot {} (ofAccount "test") (.ofList ["t"]) (reportOf (entityIn "test" "new" 2)))
  obtain ⟨hx, hy, -, -, hleaves⟩ := disjoint_merges hsaves hnodes hs hscopes hprod htest hends
  have hparsers := KeyParsers.areCommon_empty.readBack
  exact ⟨_, s, s', x, y, hsaves, hnodes, hs, hscopes, hprod, htest, hends, hx, hy, hleaves "t" _ hplain
    (not_contains_keyIn hparsers (by decide) "old") (not_contains_keyIn hparsers (by decide) "old")⟩

end Inventory
