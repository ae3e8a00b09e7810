import Inventory.Proofs.Merge.Evictions
import Inventory.Proofs.Plan.Alongside

/-!
# Inventory.Proofs.Merge.Phases

The phases of a merge, next to whatever else happens to the cache.

Each phase is a loop, so what its steps make of an assertion on what is left to do, the phase makes of it
on all there is to do (`fulfils_staleIds`, `fulfils_writeAll`, `fulfils_evictAll`). That a removal of
references may fail does not matter, as the eviction goes on all the same (`fulfils_evictType`); so
nothing but the check of the ids refuses a report (`fulfils_checkAll`).
-/

namespace Inventory

namespace Engine

open Plan (Fulfils Ends)

variable {σ : Type} {respond : Plan.Responder CacheRequest CacheRequest.Reply σ} {C : Plan.Conduct σ}
  {pre : σ → Prop} {bad : Error → σ → Prop} {tells : String → Prop} {type : String}

variable (engine : Engine) (source : Source) (authoritative : StringSet) (r : Report)

/-! ## Checking ids -/

/-- All ids of a report pass the check. -/
def Accepts : Prop := ∀ p ∈ namedIds r, engine.checkId p.1 p.2 = .ok ()

/-- The check asks for nothing, and it fails only if an id is refused. -/
theorem fulfils_checkAll (l : List (String × String)) :
    Fulfils respond C pre (checkAll engine source l)
      (fun _ s => pre s ∧ ∀ p ∈ l, engine.checkId p.1 p.2 = .ok ())
      (fun _ s => pre s ∧ ¬ ∀ p ∈ l, engine.checkId p.1 p.2 = .ok ()) := by
  induction l with
  | nil => exact Plan.fulfils_give fun s hs => ⟨hs, by simp⟩
  | cons p l ih =>
      obtain ⟨t, id⟩ := p
      unfold checkAll
      cases hcheck : engine.checkId t id with
      | ok u =>
          refine ih.mono (fun _ hs => hs) (fun _ s hs => ⟨hs.1, ?_⟩) fun _ s hs => ⟨hs.1, fun h => ?_⟩
          · exact List.forall_mem_cons.2 ⟨hcheck, hs.2⟩
          · exact hs.2 fun p hp => h p (List.mem_cons_of_mem _ hp)
      | error e =>
          refine Plan.fulfils_note fun s hs => ⟨hs, fun h => ?_⟩
          have hok := h (t, id) List.mem_cons_self
          rw [hcheck] at hok
          contradiction

/-- Ids that pass the check are not empty. -/
theorem isEmpty_of_checkId {t id : String} (h : engine.checkId t id = .ok ()) : id.isEmpty = false := by
  unfold checkId at h
  by_cases hempty : id.isEmpty
  · rw [if_pos hempty] at h
    contradiction
  · simpa using hempty

theorem isEmpty_of_accepts {engine : Engine} {r : Report} (h : engine.Accepts r) {t : String}
    {es : List Entity} (ht : (t, es) ∈ r.entities.toList) {e : Entity} (he : e ∈ es) :
    e.id.isEmpty = false := by
  refine engine.isEmpty_of_checkId (t := t) (h (t, e.id) (List.mem_append_left _ ?_))
  exact List.mem_flatMap.2 ⟨(t, es), ht, List.mem_map.2 ⟨e, he, rfl⟩⟩

/-- The ids of a report that is accepted are keys. -/
theorem parses_of_accepts {engine : Engine} (hkeys : engine.validatesKeys = true) {r : Report}
    (h : engine.Accepts r) {type id : String} (hid : id ∈ r.ids type) :
    ∃ key, engine.parsers.parse id = .ok key := by
  obtain ⟨es, hes, hmem⟩ := (KeepsIds.mem_ids r).1 hid
  obtain ⟨e, he, rfl⟩ := List.mem_map.1 hmem
  have hcheck := h (type, e.id) (List.mem_append_left _
    (List.mem_flatMap.2 ⟨(type, es), hes, List.mem_map.2 ⟨e, he, rfl⟩⟩))
  rw [checkId, if_neg (by simp [isEmpty_of_accepts h hes he]), if_pos hkeys] at hcheck
  cases hparse : engine.parsers.parse e.id with
  | ok key => exact ⟨key, rfl⟩
  | error err =>
      rw [hparse] at hcheck
      contradiction

/-! ## What the report lacks -/

/-- In the states as required the ids of a type are listed, and nothing changes with that. -/
structure Lists (respond : Plan.Responder CacheRequest CacheRequest.Reply σ) (pre : σ → Prop)
    (type : String) (ids : σ → StringSet) : Prop where
  identifiers : ∀ s, pre s → respond (.identifiers type) s = (s, .ok (ids s))
  existing : ∀ s l, pre s →
    respond (.existing type l) s = (s, .ok (.ofList (l.filter (ids s).contains)))

variable {ids : String → σ → StringSet}

theorem fulfils_scopedIds (hpre : C.Stable pre) (hC : ∀ s, C.guarantees s s)
    (h : Lists respond pre type (ids type)) (scope : Scope) :
    Fulfils respond C pre (scopedIds engine type scope)
      (fun found s => pre s ∧ found = (ids type s).filter (scope.contains engine.parsers)) bad := by
  have hall : Fulfils respond C pre (CachePlan.identifiers type >>= fun all =>
      pure (all.filter (scope.contains engine.parsers)))
      (fun found s => pre s ∧ found = (ids type s).filter (scope.contains engine.parsers)) bad := by
    refine Plan.fulfils_bind (fun all s => pre s ∧ all = ids type s) ?_ fun all s hs => ?_
    · refine Plan.fulfils_perform hpre fun s hs => ?_
      rw [h.identifiers s hs]
      exact ⟨hC s, hs, rfl⟩
    · obtain ⟨hs, rfl⟩ := hs
      exact ⟨hs, rfl⟩
  cases scope with
  | ids members =>
      refine Plan.fulfils_perform hpre fun s hs => ?_
      rw [h.existing s _ hs]
      refine ⟨hC s, hs, Std.ExtTreeSet.ext_mem fun x => ?_⟩
      simp [Scope.contains, and_comm]
  | everything => exact hall
  | account provider name region => exact hall

theorem staleIn_eq (before : StringSet) : staleIn engine source r type before =
    (before.filter (source.scope.contains engine.parsers)).filter fun id =>
      !(r.ids type).contains id := by
  refine Std.ExtTreeSet.ext_mem fun x => ?_
  simp only [staleIn, StringSet.mem_filter, Bool.and_eq_true, and_assoc]

/-- What is stale depends on the ids in the scope alone. -/
theorem staleOf_congr {before before' : StringSet}
    (h : before.filter (source.scope.contains engine.parsers) =
      before'.filter (source.scope.contains engine.parsers)) :
    staleOf engine source authoritative r type before =
      staleOf engine source authoritative r type before' := by
  rw [staleOf, staleOf, staleIn_eq, staleIn_eq, h]

/-- If others leave the ids in the scope alone, the ids that are found to be stale still are. -/
theorem fulfils_staleIds (hpre : C.Stable pre) (hC : ∀ s, C.guarantees s s)
    (h : ∀ t ∈ authoritative, Lists respond pre t (ids t))
    (hids : ∀ t ∈ authoritative, ∀ s s', C.relies s s' → pre s →
      (ids t s').filter (source.scope.contains engine.parsers) =
        (ids t s).filter (source.scope.contains engine.parsers)) :
    Fulfils respond C pre (staleIds engine source authoritative r)
      (fun stale s => pre s ∧
        (∀ t, StringMap.find stale t = staleOf engine source authoritative r t (ids t s)) ∧
        ∀ t ∈ stale, t ∈ authoritative) bad := by
  let found := fun (rest : List String) (stale : StringMap StringSet) (s : σ) => pre s ∧
    (∀ t, t ∉ rest → StringMap.find stale t = staleOf engine source authoritative r t (ids t s)) ∧
    ∀ t ∈ stale, t ∈ authoritative
  have hstable : ∀ rest stale, C.Stable (found rest stale) := by
    rintro rest stale s s' hs ⟨hs₁, hfind, htypes⟩
    refine ⟨hpre s s' hs hs₁, fun t ht => (hfind t ht).trans ?_, htypes⟩
    by_cases ht : t ∈ authoritative
    · exact engine.staleOf_congr source authoritative r (hids t ht s s' hs hs₁).symm
    · rw [staleOf, if_neg ht, staleOf, if_neg ht]
  refine (Plan.fulfils_forEach found ?_ ∅).mono (fun s hs => ⟨hs, fun t ht => ?_, by simp⟩)
    (fun stale s hs => ⟨hs.1, fun t => hs.2.1 t List.not_mem_nil, hs.2.2⟩) fun _ _ h => h
  · intro t rest hsuffix stale
    have ht : t ∈ authoritative := Std.ExtTreeSet.mem_toList.1 (hsuffix.subset List.mem_cons_self)
    have hlists : Lists respond (found (t :: rest) stale) t (ids t) :=
      ⟨fun s hs => (h t ht).identifiers s hs.1, fun s l hs => (h t ht).existing s l hs.1⟩
    refine Plan.fulfils_bind _ (engine.fulfils_scopedIds (hstable _ _) hC hlists source.scope) ?_
    rintro cached s ⟨⟨hs, hfind, htypes⟩, rfl⟩
    refine ⟨hs, fun t' ht' => ?_, fun t' ht' => ?_⟩
    · rw [StringMap.find, Std.ExtTreeMap.getElem?_insert]
      by_cases htt : t = t'
      · subst htt
        simp only [Std.compare_self, if_true, Option.getD_some, staleOf, if_pos ht, staleIn_eq]
      · rw [if_neg (by simpa using htt)]
        exact hfind t' (List.not_mem_cons_of_ne_of_not_mem (Ne.symm htt) ht')
    · rw [StringMap.mem_insert_iff] at ht'
      exact ht'.elim (fun heq => heq ▸ ht) (htypes t')
  · rw [Std.ExtTreeSet.mem_toList] at ht
    simp [StringMap.find, staleOf, ht]

/-! ## What the report writes -/

/-- How entities of a type are written. -/
def modeOf (type : String) : WriteMode := if type ∈ authoritative then .replace else .union

/-- What is written of an entity of a type. -/
def partOf (type : String) (e : Entity) : Entity :=
  if type ∈ authoritative ∨ type = onDemandType then e else e.withoutAttributes

theorem id_partOf (type : String) (e : Entity) : (partOf authoritative type e).id = e.id := by
  unfold partOf
  split <;> rfl

theorem map_id_partOf (type : String) (es : List Entity) :
    (es.map (partOf authoritative type)).map Entity.id = es.map Entity.id := by
  rw [List.map_map]
  exact List.map_congr_left fun e _ => id_partOf authoritative type e

theorem relationships_partOf (type : String) (e : Entity) :
    (partOf authoritative type e).relationships = e.relationships := by
  unfold partOf
  split <;> rfl

theorem writeType_eq (type : String) (es : List Entity) : writeType authoritative type es =
    CachePlan.write (modeOf authoritative type) type (es.map (partOf authoritative type)) := by
  have hwhole : type ∈ authoritative ∨ type = onDemandType →
      es.map (partOf authoritative type) = es := fun h =>
    (List.map_congr_left fun e _ => if_pos h).trans (List.map_id es)
  unfold writeType modeOf
  by_cases ht : type ∈ authoritative
  · rw [if_pos ht, if_pos ht, hwhole (.inl ht)]
  · rw [if_neg ht, if_neg ht]
    by_cases hd : type = onDemandType
    · rw [if_pos hd, hwhole (.inr hd)]
    · have hpart : partOf authoritative type = Entity.withoutAttributes :=
        funext fun e => if_neg (not_or.2 ⟨ht, hd⟩)
      rw [if_neg hd, hpart]

section Entities

variable {stores : Attributes → Prop} {r : Report} {e : Entity}

theorem mem_entities_of_mem_entitiesOf (he : e ∈ r.entitiesOf type) :
    (type, r.entitiesOf type) ∈ r.entities.toList := by
  refine StringMap.mem_toList_of_find_ne_empty fun hempty => ?_
  rw [Report.entitiesOf, hempty] at he
  exact List.not_mem_nil he

theorem tells_of_mem_entitiesOf (hr : r.Suits tells stores) (he : e ∈ r.entitiesOf type) : tells type :=
  hr.types type (StringMap.mem_of_mem_toList (mem_entities_of_mem_entitiesOf he))

theorem suits_partOf (hr : r.Suits tells stores) (he : e ∈ r.entitiesOf type) :
    (partOf authoritative type e).Suits tells stores := by
  have hsuits := hr.entities type e he
  unfold partOf
  split
  · exact hsuits
  · exact ⟨fun hne => absurd rfl hne, hsuits.related⟩

/-- What is written of a type suits a cache if the report does. -/
theorem suits_write (hr : r.Suits tells stores) (hne : r.entitiesOf type ≠ []) (mode : WriteMode) :
    (CacheRequest.write mode type ((r.entitiesOf type).map (partOf authoritative type))).Suits
      tells stores := by
  obtain ⟨e, he⟩ := List.exists_mem_of_ne_nil _ hne
  refine ⟨tells_of_mem_entitiesOf hr he, fun e' he' => ?_⟩
  obtain ⟨e, he, rfl⟩ := List.mem_map.1 he'
  exact suits_partOf authoritative hr he

theorem isEmpty_of_mem_partOf {authoritative : StringSet} {engine : Engine} (haccepts : engine.Accepts r)
    (h : e ∈ (r.entitiesOf type).map (partOf authoritative type)) : e.id.isEmpty = false := by
  obtain ⟨e', he', rfl⟩ := List.mem_map.1 h
  rw [id_partOf]
  exact isEmpty_of_accepts haccepts (mem_entities_of_mem_entitiesOf he') he'

end Entities

/-- Types of which there is something to write are written one after the other. -/
theorem fulfils_writeAll (inv : List (String × List Entity) → σ → Prop)
    (hstable : ∀ rest, C.Stable (inv rest))
    (hempty : ∀ type rest s, inv ((type, []) :: rest) s → inv rest s)
    (hstep : ∀ type es rest, (type, es) ∈ r.entities.toList → es ≠ [] → ∀ s, inv ((type, es) :: rest) s →
      let write := CacheRequest.write (modeOf authoritative type) type
        (es.map (partOf authoritative type))
      C.guarantees s (respond write s).1 ∧ (respond write s).2 = .ok () ∧ inv rest (respond write s).1) :
    Fulfils respond C (inv r.entities.toList) (writeAll authoritative r) (fun _ => inv []) bad := by
  refine Plan.fulfils_forEach (fun rest (_ : MergeStats) => inv rest) ?_ {}
  rintro ⟨t, es⟩ rest hsuffix stats
  have hmem : (t, es) ∈ r.entities.toList := hsuffix.subset List.mem_cons_self
  dsimp only
  by_cases hes : es = []
  · subst hes
    exact Plan.fulfils_give fun s hs => hempty t rest s hs
  · rw [if_neg (by simpa using hes), writeType_eq]
    refine Plan.fulfils_bind (fun _ => inv rest) ?_ fun _ => Plan.fulfils_give fun _ hs => hs
    refine Plan.fulfils_perform (hstable _) fun s hs => ?_
    obtain ⟨hdone, hok, hinv⟩ := hstep t es rest hmem hes s hs
    refine ⟨hdone, ?_⟩
    rw [hok]
    exact hinv

/-- What each write establishes for its entities and keeps for those of other types, the writes establish
for all of them. -/
theorem fulfils_writeAll_each (frame : σ → Prop) (holds : String → Entity → σ → Prop)
    (hframe : C.Stable frame)
    (hholds : ∀ type, ∀ e ∈ r.entitiesOf type, ∀ s s', C.relies s s' → frame s → holds type e s →
      holds type e s')
    (hwrite : ∀ type, r.entitiesOf type ≠ [] → ∀ s, frame s →
      let write := CacheRequest.write (modeOf authoritative type) type
        ((r.entitiesOf type).map (partOf authoritative type))
      C.guarantees s (respond write s).1 ∧ (respond write s).2 = .ok () ∧ frame (respond write s).1 ∧
        (∀ e ∈ r.entitiesOf type, holds type e (respond write s).1) ∧
        ∀ type', type' ≠ type → ∀ e ∈ r.entitiesOf type', holds type' e s →
          holds type' e (respond write s).1) :
    Fulfils respond C frame (writeAll authoritative r) (fun _ s => frame s ∧
      ∀ type, ∀ e ∈ r.entitiesOf type, holds type e s) bad := by
  refine (fulfils_writeAll authoritative r (fun rest s => frame s ∧
    ∀ type, (type, r.entitiesOf type) ∉ rest → ∀ e ∈ r.entitiesOf type, holds type e s)
    ?_ ?_ ?_).mono (fun s hs => ⟨hs, fun t hrest e he => absurd (mem_entities_of_mem_entitiesOf he) hrest⟩)
    (fun _ s hs => ⟨hs.1, fun t => hs.2 t List.not_mem_nil⟩) fun _ _ h => h
  · exact fun rest s s' hs hinv => ⟨hframe s s' hs hinv.1, fun t hrest e he =>
      hholds t e he s s' hs hinv.1 (hinv.2 t hrest e he)⟩
  · rintro t rest s ⟨hs, hdone⟩
    refine ⟨hs, fun t' hrest e he => hdone t' (fun hcons => ?_) e he⟩
    rcases List.mem_cons.1 hcons with heq | hrest'
    · have hnil : r.entitiesOf t' = [] := congrArg Prod.snd heq
      rw [hnil] at he
      exact List.not_mem_nil he
    · exact hrest hrest'
  · rintro t es rest hes hne s ⟨hs, hdone⟩
    obtain rfl : r.entitiesOf t = es := StringMap.find_of_mem_toList hes
    obtain ⟨hguarantees, hok, hs', hnew, hkept⟩ := hwrite t hne s hs
    refine ⟨hguarantees, hok, hs', fun t' hrest e he => ?_⟩
    by_cases ht : t' = t
    · subst ht
      exact hnew e he
    · refine hkept t' ht e he (hdone t' (fun hcons => ?_) e he)
      rcases List.mem_cons.1 hcons with heq | hrest'
      · exact ht (congrArg Prod.fst heq)
      · exact hrest hrest'

/-! ## Removing references -/

/-- An assertion that the removal of references to entities of a type does not make untrue, if the entities
that are read have certain ids and refer to types that can be told apart. -/
structure Outlasts (respond : Plan.Responder CacheRequest CacheRequest.Reply σ) (C : Plan.Conduct σ)
    (tells : String → Prop) (type : String) (ids : List String) (gone : String → Prop)
    (inv : σ → Prop) : Prop where
  stable : C.Stable inv
  evicted : ∀ s, inv s → C.guarantees s (respond (.entities type (some ids) none) s).1 ∧
    inv (respond (.entities type (some ids) none) s).1 ∧
    ∀ es, (respond (.entities type (some ids) none) s).2 = .ok es →
      ∀ e ∈ es, gone e.id ∧ ∀ related ∈ e.relationships, tells related
  holders : ∀ related ids filter s, tells related → inv s →
    C.guarantees s (respond (.entities related ids filter) s).1 ∧
      inv (respond (.entities related ids filter) s).1
  unlink : ∀ related holders id s, tells related → gone id → inv s →
    C.guarantees s (respond (.unlink related holders type [id]) s).1 ∧
      inv (respond (.unlink related holders type [id]) s).1

namespace Outlasts

variable {inv : σ → Prop} {gone : String → Prop} {ids : List String} {related : String}

theorem fulfils_unlinkOne (h : Outlasts respond C tells type ids gone inv) (hr : tells related)
    {id : String} (hid : gone id) (back : StringMap StringSet) (stats : MergeStats) (targets : StringSet) :
    Fulfils respond C inv (unlinkOne type related back stats id targets) (fun _ => inv) bad := by
  unfold unlinkOne
  dsimp only
  split
  · exact Plan.fulfils_give fun _ hs => hs
  · refine Plan.fulfils_bind (fun _ => inv)
      (Plan.fulfils_attempt_of (Plan.fulfils_perform h.stable fun s hs => ?_)) fun result => ?_
    · obtain ⟨hdone, hinv⟩ := h.unlink related (referring back id targets) id s hr hid hs
      refine ⟨hdone, ?_⟩
      cases (respond (.unlink related (referring back id targets) type [id]) s).2 <;> exact hinv
    · cases result <;> exact Plan.fulfils_give fun _ hs => hs

theorem fulfils_unlinkType (h : Outlasts respond C tells type ids gone inv) (hr : tells related)
    (stats : MergeStats) {byId : StringMap StringSet} (hgone : ∀ p ∈ byId.toList, gone p.1) :
    Fulfils respond C inv (unlinkType type stats related byId) (fun _ => inv) bad := by
  unfold unlinkType
  dsimp only
  refine Plan.fulfils_bind (fun _ => inv)
    (Plan.fulfils_attempt_of (Plan.fulfils_perform h.stable fun s hs => ?_)) fun result => ?_
  · obtain ⟨hdone, hinv⟩ := h.holders related _ _ s hr hs
    refine ⟨hdone, ?_⟩
    generalize (respond _ s).2 = reply
    cases reply <;> exact hinv
  · cases result with
    | error e => exact Plan.fulfils_give fun _ hs => hs
    | ok holders =>
        exact Plan.fulfils_forEach (fun _ (_ : MergeStats) => inv) (fun p rest hsuffix stats =>
          h.fulfils_unlinkOne hr (hgone p (hsuffix.subset List.mem_cons_self)) _ stats p.2) stats

/-- Removing the references to entities, whether it succeeds or not. -/
theorem fulfils_cascade (h : Outlasts respond C tells type ids gone inv) (stats : MergeStats) :
    Fulfils respond C inv (cascade type ids stats) (fun _ => inv) fun _ => inv := by
  refine Plan.fulfils_bind (fun es s => inv s ∧
    ∀ e ∈ es, gone e.id ∧ ∀ related ∈ e.relationships, tells related)
    (Plan.fulfils_perform h.stable fun s hs => ?_) fun evicted s hs => ?_
  · obtain ⟨hdone, hinv, hreads⟩ := h.evicted s hs
    refine ⟨hdone, ?_⟩
    cases hreply : (respond (.entities type (some ids) none) s).2 with
    | ok es => exact ⟨hinv, hreads es hreply⟩
    | error e => exact hinv
  · obtain ⟨hinv, hreads⟩ := hs
    refine Plan.fulfils_forEach (fun _ (_ : MergeStats) => inv) ?_ stats s hinv
    rintro ⟨related, byId⟩ rest hsuffix stats
    have hmem : (related, byId) ∈ (references evicted).toList := hsuffix.subset List.mem_cons_self
    obtain ⟨e, he, hrelated⟩ := mem_references (StringMap.mem_of_mem_toList hmem)
    refine h.fulfils_unlinkType ((hreads e he).2 related hrelated) stats fun p hp => ?_
    obtain ⟨e, he, hid⟩ := exists_of_mem_references hmem hp
    exact hid ▸ (hreads e he).1

end Outlasts

/-- An assertion that reads and removals of references do not make untrue, in states in which only names
that can be told apart are read. -/
structure Bears (respond : Plan.Responder CacheRequest CacheRequest.Reply σ) (C : Plan.Conduct σ)
    (tells : String → Prop) (inv : σ → Prop) : Prop where
  stable : C.Stable inv
  entities : ∀ type ids filter s, tells type → inv s →
    C.guarantees s (respond (.entities type ids filter) s).1 ∧
      inv (respond (.entities type ids filter) s).1 ∧
      ∀ es, (respond (.entities type ids filter) s).2 = .ok es →
        ∀ e ∈ es, ∀ related ∈ e.relationships, tells related
  unlink : ∀ type ids related targets s, tells type → tells related → inv s →
    C.guarantees s (respond (.unlink type ids related targets) s).1 ∧
      inv (respond (.unlink type ids related targets) s).1

namespace Bears

variable {inv : σ → Prop}

theorem outlasts (h : Bears respond C tells inv) (ht : tells type) (ids : List String) :
    Outlasts respond C tells type ids (fun _ => True) inv where
  stable := h.stable
  evicted s hs := by
    obtain ⟨hdone, hinv, hreads⟩ := h.entities type (some ids) none s ht hs
    exact ⟨hdone, hinv, fun es hes e he => ⟨trivial, hreads es hes e he⟩⟩
  holders related ids filter s hr hs :=
    (h.entities related ids filter s hr hs).imp_right And.left
  unlink related holders id s hr _ hs := h.unlink related holders type [id] s hr ht hs

/-- Removing the references to entities, whether it succeeds or not. -/
theorem fulfils_cascade (h : Bears respond C tells inv) (ht : tells type) (ids : List String)
    (stats : MergeStats) :
    Fulfils respond C inv (cascade type ids stats) (fun _ => inv) fun _ => inv :=
  (h.outlasts ht ids).fulfils_cascade stats

end Bears

/-- Where none of the ids is there, no reference is looked for. -/
theorem fulfils_cascade_absent {inv : σ → Prop} (hinv : C.Stable inv) (hC : ∀ s, C.guarantees s s)
    {ids : List String}
    (h : ∀ s, inv s → respond (.entities type (some ids) none) s = (s, .ok [])) (stats : MergeStats) :
    Fulfils respond C inv (cascade type ids stats) (fun _ => inv) fun _ => inv := by
  refine Plan.fulfils_bind (fun evicted s => inv s ∧ evicted = [])
    (Plan.fulfils_perform hinv fun s hs => ?_) fun evicted s hs => ?_
  · rw [h s hs]
    exact ⟨hC s, hs, rfl⟩
  · obtain ⟨hs, rfl⟩ := hs
    exact hs

/-! ## Evicting -/

section Evictions

variable {r : Report} {stale : StringMap StringSet}

theorem not_mem_ids_of_explicit {x : String} (h : x ∈ explicitIds r type) : x ∉ r.ids type := by
  simpa [← Std.ExtTreeSet.contains_iff_mem] using (List.mem_filter.1 h).2

/-- What a report writes it does not evict. -/
theorem not_mem_evictions (hnot : ∀ t, ∀ x ∈ StringMap.find stale t, x ∉ r.ids t) {x : String}
    (hx : x ∈ r.ids type) : x ∉ StringMap.find (evictions stale r) type := by
  rw [KeepsIds.mem_evictions]
  rintro (h | h)
  · exact hnot type x h hx
  · exact not_mem_ids_of_explicit h hx

theorem mem_ids_of_mem_entitiesOf {e : Entity} (he : e ∈ r.entitiesOf type) : e.id ∈ r.ids type := by
  rw [Report.ids, Std.ExtTreeSet.mem_ofList, List.contains_iff_mem]
  exact List.mem_map_of_mem he

theorem tells_of_mem_evictions {stores : Attributes → Prop} (hr : r.Suits tells stores)
    (hstale : ∀ t ∈ stale, tells t) (h : type ∈ evictions stale r) : tells type :=
  (mem_evictions_types h).elim (hstale type) (hr.evictedTypes type)

end Evictions

/-- An eviction goes on from whatever its removal of references left. -/
theorem fulfils_evictType {inv inv' : σ → Prop} {ids : StringSet} (hinv : C.Stable inv)
    (hcascade : ∀ stats, Fulfils respond C inv (cascade type ids.toList stats) (fun _ => inv)
      fun _ => inv)
    (hempty : ids.isEmpty → ∀ s, inv s → inv' s)
    (hevict : ∀ s, inv s → C.guarantees s (respond (.evict type ids.toList) s).1 ∧
      (respond (.evict type ids.toList) s).2 = .ok () ∧
      inv' (respond (.evict type ids.toList) s).1) (stats : MergeStats) :
    Fulfils respond C inv (evictType stats type ids) (fun _ => inv') bad := by
  unfold evictType
  by_cases hids : ids.isEmpty
  · rw [if_pos hids]
    exact Plan.fulfils_give (hempty hids)
  · rw [if_neg hids]
    have hlast : ∀ stats : MergeStats, Fulfils respond C inv (do
        CachePlan.evict type ids.toList
        return stats.hasEvicted type ids.size) (fun _ => inv') bad := by
      intro stats
      refine Plan.fulfils_bind (fun _ => inv') (Plan.fulfils_perform hinv fun s hs => ?_)
        fun _ => Plan.fulfils_give fun _ hs => hs
      obtain ⟨hdone, hok, hend⟩ := hevict s hs
      refine ⟨hdone, ?_⟩
      rw [hok]
      exact hend
    refine Plan.fulfils_bind (fun _ => inv) (Plan.fulfils_attempt_of (hcascade stats)) fun result => ?_
    cases result with
    | ok stats => exact hlast stats
    | error e => exact hlast stats.hasFailed

/-- Types of which there is something to evict are evicted one after the other. -/
theorem fulfils_evictAll {gone : StringMap StringSet} (inv : List (String × StringSet) → σ → Prop)
    (hinv : ∀ rest, C.Stable (inv rest))
    (hcascade : ∀ type ids rest, (type, ids) ∈ gone.toList → ∀ stats,
      Fulfils respond C (inv ((type, ids) :: rest)) (cascade type ids.toList stats)
        (fun _ => inv ((type, ids) :: rest)) fun _ => inv ((type, ids) :: rest))
    (hempty : ∀ type rest s, inv ((type, ∅) :: rest) s → inv rest s)
    (hevict : ∀ type ids rest, (type, ids) ∈ gone.toList → ∀ s, inv ((type, ids) :: rest) s →
      C.guarantees s (respond (.evict type ids.toList) s).1 ∧
        (respond (.evict type ids.toList) s).2 = .ok () ∧
        inv rest (respond (.evict type ids.toList) s).1) (stats : MergeStats) :
    Fulfils respond C (inv gone.toList) (evictAll gone stats) (fun _ => inv []) bad := by
  refine Plan.fulfils_forEach (fun rest (_ : MergeStats) => inv rest) ?_ stats
  rintro ⟨t, ids⟩ rest hsuffix stats
  have hmem : (t, ids) ∈ gone.toList := hsuffix.subset List.mem_cons_self
  refine fulfils_evictType (hinv _) (hcascade t ids rest hmem) (fun hids s hs => ?_)
    (fun s hs => hevict t ids rest hmem s hs) stats
  rw [Std.ExtTreeSet.isEmpty_iff.1 hids] at hs
  exact hempty t rest s hs

end Engine

end Inventory
