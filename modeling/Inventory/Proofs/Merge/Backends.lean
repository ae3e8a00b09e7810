import Inventory.Proofs.Cache.Equivalence
import Inventory.Proofs.Merge.Index
import Inventory.Proofs.Merge.References

/-!
# Inventory.Proofs.Merge.Backends

The engine over the cache in memory and over a key-value store.

What the engine asks next never depends on a time to live, so its work keeps to the terms on which both
caches come to the same (`keepsTo_mergeSnapshot`). With the same requests and the same reports, both are
read alike and every merge ends with the same result (`caches_agree`).
-/

namespace Inventory

open KeyValue

/-- A report on types without a colon, with entities of different ids in each type. -/
structure Report.Fits (W : Attributes → Prop) (r : Report) : Prop where
  types : ∀ type ∈ r.entities, Plain type
  evictedTypes : ∀ type ∈ r.evictions, Plain type
  ids : ∀ type ∈ r.entities, ((r.entitiesOf type).map Entity.id).Nodup
  entities : ∀ type ∈ r.entities, ∀ e ∈ r.entitiesOf type, e.Fits W

namespace Engine

variable {W : Attributes → Prop} (engine : Engine) (source : Source) {authoritative : StringSet}
  {r : Report} {type : String}

/-! ## Times to live -/

theorem references_map (es : List Entity) :
    references (es.map (·.withTtl none)) = references es := by
  rw [references, List.foldl_map]
  rfl

theorem backReferences_map (type : String) (holders : List Entity) :
    backReferences type (holders.map (·.withTtl none)) = backReferences type holders := by
  rw [backReferences, List.filterMap_map]
  rfl

/-- Entities may be read by a plan that makes nothing of their times to live. -/
theorem keepsTo_entities {α : Type} {post : α → Prop} (ht : Plain type) (ids : Option (List String))
    {filter : Option NameFilter} (hfilter : ∀ f ∈ filter, f.IsNamewise)
    {f : Except Error (List Entity) → CachePlan α}
    (herror : ∀ e, (f (.error e)).KeepsTo (CachePlan.terms W) post)
    (hok : ∀ es, (∀ e ∈ es, ∀ related ∈ e.relationships, Plain related) →
      f (.ok (es.map (·.withTtl none))) = f (.ok es) ∧
        (f (.ok es)).KeepsTo (CachePlan.terms W) post) :
    ((CachePlan.entities type ids filter).andThen f).KeepsTo (CachePlan.terms W) post := by
  refine Plan.keepsTo_perform_andThen (T := CachePlan.terms W) (r := .entities type ids filter)
    (f := f) ⟨ht, hfilter⟩ fun reply hreply => ?_
  cases reply with
  | error e => exact ⟨rfl, herror e⟩
  | ok es => exact hok es hreply

/-! ## Phases -/

/-- Ids that are accepted are not empty. -/
theorem keepsTo_checkAll (l : List (String × String)) :
    (checkAll engine source l).KeepsTo (CachePlan.terms W) fun _ =>
      ∀ p ∈ l, p.2.isEmpty = false := by
  induction l with
  | nil => exact fun p hp => by simp at hp
  | cons p l ih =>
      obtain ⟨t, id⟩ := p
      unfold checkAll
      cases hcheck : engine.checkId t id with
      | error e => trivial
      | ok u =>
          refine ih.mono fun _ hl p hp => ?_
          rcases List.mem_cons.1 hp with rfl | hp
          · unfold checkId at hcheck
            by_cases hempty : id.isEmpty
            · rw [if_pos hempty] at hcheck
              contradiction
            · simpa using hempty
          · exact hl p hp

theorem keepsTo_scopedIds (ht : Plain type) (scope : Scope) :
    (scopedIds engine type scope).KeepsTo (CachePlan.terms W) fun _ => True := by
  have hidentifiers : ∀ f : StringSet → StringSet,
      (CachePlan.identifiers type >>= fun all => pure (f all)).KeepsTo (CachePlan.terms W)
        fun _ => True := fun f =>
    Plan.keepsTo_bind (Plan.keepsTo_perform (T := CachePlan.terms W) ht fun _ _ => rfl)
      fun _ _ => trivial
  cases scope with
  | ids members => exact Plan.keepsTo_perform ht fun _ _ => rfl
  | everything => exact hidentifiers _
  | account provider name region => exact hidentifiers _

/-- Only types with authority have stale ids. -/
theorem keepsTo_staleIds (ht : ∀ t ∈ authoritative, Plain t) :
    (staleIds engine source authoritative r).KeepsTo (CachePlan.terms W) fun stale =>
      ∀ t ∈ stale, Plain t := by
  refine Plan.keepsTo_forEach (fun stale t hmem hstale => ?_) (by simp)
  have hplain : Plain t := ht t (Std.ExtTreeSet.mem_toList.1 hmem)
  refine Plan.keepsTo_bind (keepsTo_scopedIds engine hplain source.scope) fun cached _ => ?_
  intro t' ht'
  rw [StringMap.mem_insert_iff] at ht'
  rcases ht' with rfl | ht'
  · exact hplain
  · exact hstale t' ht'

theorem keepsTo_writeType (ht : Plain type) {es : List Entity} (hids : (es.map Entity.id).Nodup)
    (hes : ∀ e ∈ es, e.id.isEmpty = false ∧ e.Fits W) :
    (writeType authoritative type es).KeepsTo (CachePlan.terms W) fun _ => True := by
  have hwrite : ∀ mode, (CachePlan.write mode type es).KeepsTo (CachePlan.terms W) fun _ => True :=
    fun mode => Plan.keepsTo_perform ⟨ht, hids, hes⟩ fun _ _ => rfl
  unfold writeType
  split
  · exact hwrite .replace
  · split
    · exact hwrite .union
    · refine Plan.keepsTo_perform ⟨ht, ?_, fun e he => ?_⟩ fun _ _ => rfl
      · rwa [List.map_map]
      · obtain ⟨e', he', rfl⟩ := List.mem_map.1 he
        exact ⟨(hes e' he').1, fun h => absurd rfl h, (hes e' he').2.related⟩

theorem keepsTo_writeAll (hr : r.Fits W) (hids : ∀ p ∈ namedIds r, p.2.isEmpty = false) :
    (writeAll authoritative r).KeepsTo (CachePlan.terms W) fun _ => True := by
  refine Plan.keepsTo_forEach (fun stats p hp _ => ?_) trivial
  obtain ⟨t, es⟩ := p
  have hmem : t ∈ r.entities := StringMap.mem_of_mem_toList hp
  have hes : r.entitiesOf t = es := by
    rw [Report.entitiesOf, StringMap.find, Std.ExtTreeMap.mem_toList_iff_getElem?_eq_some.1 hp,
      Option.getD_some]
  dsimp only
  split
  · trivial
  · refine Plan.keepsTo_bind (keepsTo_writeType (hr.types t hmem) (hes ▸ hr.ids t hmem)
      fun e he => ⟨?_, hr.entities t hmem e (hes ▸ he)⟩) fun _ _ => trivial
    refine hids (t, e.id) (List.mem_append_left _ (List.mem_flatMap.2 ⟨(t, es), hp, ?_⟩))
    exact List.mem_map.2 ⟨e, he, rfl⟩

theorem keepsTo_unlinkOne (ht : Plain type) {related : String} (hr : Plain related)
    (back : StringMap StringSet) (stats : MergeStats) (id : String) (targets : StringSet) :
    (unlinkOne type related back stats id targets).KeepsTo (CachePlan.terms W) fun _ => True := by
  unfold unlinkOne
  dsimp only
  split
  · trivial
  · refine Plan.keepsTo_bind (Plan.keepsTo_attempt
      (Plan.keepsTo_perform (T := CachePlan.terms W) ⟨hr, ht⟩ fun _ _ => rfl)) fun result _ => ?_
    cases result <;> trivial

/-- Which references an entity holds does not depend on its time to live. -/
theorem keepsTo_unlinkType (ht : Plain type) {related : String} (hr : Plain related)
    (stats : MergeStats) (byId : StringMap StringSet) :
    (unlinkType type stats related byId).KeepsTo (CachePlan.terms W) fun _ => True := by
  unfold unlinkType
  dsimp only
  rw [Plan.attempt_bind]
  refine keepsTo_entities hr _ (NameFilter.isNamewise_toNameFilter _) (fun e => trivial)
    fun holders _ => ⟨?_, ?_⟩
  · dsimp only
    rw [backReferences_map]
  · exact Plan.keepsTo_forEach (fun stats p _ _ => keepsTo_unlinkOne ht hr _ stats p.1 p.2) trivial

theorem keepsTo_cascade (ht : Plain type) (ids : List String) (stats : MergeStats) :
    (cascade type ids stats).KeepsTo (CachePlan.terms W) fun _ => True := by
  refine keepsTo_entities ht (some ids) (by simp) (fun e => trivial) fun evicted hplain => ⟨?_, ?_⟩
  · dsimp only
    rw [references_map]
  · refine Plan.keepsTo_forEach (fun stats p hp _ => ?_) trivial
    obtain ⟨related, byId⟩ := p
    obtain ⟨e, he, hrelated⟩ := mem_references (StringMap.mem_of_mem_toList hp)
    exact keepsTo_unlinkType ht (hplain e he related hrelated) stats byId

theorem keepsTo_evictType (ht : Plain type) (stats : MergeStats) (ids : StringSet) :
    (evictType stats type ids).KeepsTo (CachePlan.terms W) fun _ => True := by
  have hevict : ∀ stats : MergeStats, (do
      CachePlan.evict type ids.toList
      return stats.hasEvicted type ids.size : CachePlan MergeStats).KeepsTo (CachePlan.terms W)
        fun _ => True := fun stats =>
    Plan.keepsTo_bind (Plan.keepsTo_perform (T := CachePlan.terms W) ht fun _ _ => rfl)
      fun _ _ => trivial
  unfold evictType
  split
  · trivial
  · refine Plan.keepsTo_bind (Plan.keepsTo_attempt (keepsTo_cascade ht ids.toList stats))
      fun result _ => ?_
    cases result with
    | ok stats => exact hevict stats
    | error e => exact hevict stats.hasFailed

theorem keepsTo_evictAll {gone : StringMap StringSet} (h : ∀ t ∈ gone, Plain t) (stats : MergeStats) :
    (evictAll gone stats).KeepsTo (CachePlan.terms W) fun _ => True :=
  Plan.keepsTo_forEach (fun stats p hp _ =>
    keepsTo_evictType (h p.1 (StringMap.mem_of_mem_toList hp)) stats p.2) trivial

/-! ## Merging -/

theorem keepsTo_apply (hr : r.Fits W) (hids : ∀ p ∈ namedIds r, p.2.isEmpty = false)
    {stale : StringMap StringSet} (hstale : ∀ t ∈ stale, Plain t) :
    (apply authoritative r stale).KeepsTo (CachePlan.terms W) fun _ => True := by
  refine Plan.keepsTo_bind (keepsTo_writeAll hr hids) fun stats _ => ?_
  refine keepsTo_evictAll (fun t ht => ?_) stats
  rcases mem_evictions_types ht with h | h
  · exact hstale t h
  · exact hr.evictedTypes t h

theorem keepsTo_mergeSnapshot (ht : ∀ t ∈ authoritative, Plain t) (hr : r.Fits W) :
    (mergeSnapshot engine source authoritative r).KeepsTo (CachePlan.terms W) fun _ => True :=
  Plan.keepsTo_bind (keepsTo_checkAll engine source _) fun _ hids =>
    Plan.keepsTo_bind (keepsTo_staleIds engine source ht) fun _ hstale => keepsTo_apply hr hids hstale

theorem keepsTo_mergePartial (hr : r.Fits W) :
    (mergePartial engine source authoritative r).KeepsTo (CachePlan.terms W) fun _ => True :=
  Plan.keepsTo_bind (keepsTo_checkAll engine source _) fun _ hids =>
    keepsTo_apply hr hids (by simp)

theorem keepsTo_evictDeleted (ht : Plain type) (ids : List String) :
    (evictDeleted engine type ids).KeepsTo (CachePlan.terms W) fun _ => True := by
  have hchecks : (Plan.forEach ids () fun _ id => Plan.ofExcept (engine.checkId type id)).KeepsTo
      (CachePlan.terms W) fun _ => True := by
    refine Plan.keepsTo_forEach (fun _ id _ _ => ?_) trivial
    cases engine.checkId type id <;> trivial
  exact Plan.keepsTo_bind hchecks fun _ _ => keepsTo_evictType ht {} _

end Engine

/-! ## Both caches -/

/-- Calls one after the other keep to the terms if each of them does. -/
theorem CachePlan.keepsTo_inTurn {W : Attributes → Prop} {calls : List CacheRequest}
    (h : ∀ r ∈ calls, r.Fits W) :
    (CachePlan.inTurn calls).KeepsTo (CachePlan.terms W) fun _ => True := by
  refine Plan.keepsTo_forEach (fun _ r hr _ => ?_) trivial
  rw [Plan.attempt_bind]
  exact Plan.keepsTo_perform_andThen (T := CachePlan.terms W) (h r hr) fun _ _ => ⟨rfl, trivial⟩

/-- Work ends with the same result over two backends. -/
def Backend.EndAlike (B B' : Backend) {α : Type} (p : CachePlan α) (s : B.State) (s' : B'.State) :
    Prop :=
  ∃ s₁ s₁' result, B.EndsIn p s s₁ result ∧ B'.EndsIn p s' s₁' result

/-- Work that keeps to the terms ends with the same result on both caches and leaves them alike. -/
theorem Alike.endsIn {o : Options} {W : Attributes → Prop} (hW : Faithful o W) {m : Memory} {s : Store}
    (hs : s.Healthy) (h : Alike o W m s.cells) {α : Type} {post : α → Prop} {p : CachePlan α}
    (hp : p.KeepsTo (CachePlan.terms W) post) (name : String) :
    ∃ m' s' result, (Backend.memory name).EndsIn p m m' result ∧
      (Backend.keyValue o).EndsIn p s s' result ∧ s'.Healthy ∧ Alike o W m' s'.cells := by
  have hstep : ∀ (r : CacheRequest) (m : Memory) (c : Cells),
      (CachePlan.terms W).asks r → Alike o W m c →
      (CachePlan.terms W).hears r (Backend.remember r m).2 ∧
        (Backend.respond o r c).2 = (CachePlan.terms W).blur r (Backend.remember r m).2 ∧
        Alike o W (Backend.remember r m).1 (Backend.respond o r c).1 := fun r m c hr hmc =>
    ⟨hmc.plainly hr, hmc.step hW hr⟩
  obtain ⟨hresult, halike⟩ := Plan.run_of_keepsTo (Alike o W) hstep hp h
  obtain ⟨s', hends, hhealthy, hcells⟩ := Backend.keyValue_endsIn (o := o) hs p
  refine ⟨_, s', _, Backend.memory_endsIn name p m, ?_, hhealthy, ?_⟩
  · rwa [← hresult]
  · rwa [hcells]

/-- After the same calls, both caches answer every call alike but for times to live, and every merge
and every eviction of what is gone ends alike. Reads may be filtered in any way that decides on each name by
itself. -/
theorem caches_agree {o : Options} {W : Attributes → Prop} (hW : Faithful o W)
    {calls : List CacheRequest} (hcalls : ∀ r ∈ calls, r.Fits W) (name node : String) :
    ∃ (m : Memory) (s : Store),
      (Backend.memory name).EndsIn (.inTurn calls) ({} : Memory) m (.ok ()) ∧
      (Backend.keyValue o).EndsIn (.inTurn calls) (.single { name := node } : Store) s (.ok ()) ∧
      (∀ r : CacheRequest, r.Fits W → ∃ reply, (Backend.memory name).Replies m r reply ∧
        (Backend.keyValue o).Replies s r (r.timeless reply)) ∧
      ∀ (engine : Engine) (source : Source) (authoritative : StringSet) (r : Report) (type : String)
        (ids : List String), (∀ t ∈ authoritative, Plain t) → r.Fits W → Plain type →
        (Backend.memory name).EndAlike (Backend.keyValue o)
            (engine.mergeSnapshot source authoritative r) m s ∧
          (Backend.memory name).EndAlike (Backend.keyValue o)
            (engine.mergePartial source authoritative r) m s ∧
          (Backend.memory name).EndAlike (Backend.keyValue o) (engine.evictDeleted type ids) m s := by
  obtain ⟨m, s, result, hm, hs, hhealthy, halike⟩ := (Alike.fresh o W node).endsIn hW
    (Store.healthy_fresh node) (CachePlan.keepsTo_inTurn hcalls) name
  obtain rfl : result = .ok () := by
    rw [← CachePlan.run_inTurn_result Backend.remember calls {}, Backend.EndsIn.memory hm]
  have hends : ∀ {p : CachePlan MergeStats}, p.KeepsTo (CachePlan.terms W) (fun _ => True) →
      (Backend.memory name).EndAlike (Backend.keyValue o) p m s := by
    intro p hp
    obtain ⟨m', s', result, hm', hs', -⟩ := halike.endsIn hW hhealthy hp name
    exact ⟨m', s', result, hm', hs'⟩
  refine ⟨m, s, hm, hs, fun r hr => ⟨_, Backend.memory_replies name m r, ?_⟩, ?_⟩
  · rw [← (halike.step hW hr).1]
    exact Backend.keyValue_replies hhealthy r
  · intro engine source authoritative r type ids ht hr hplain
    exact ⟨hends (engine.keepsTo_mergeSnapshot source ht hr),
      hends (engine.keepsTo_mergePartial source hr), hends (engine.keepsTo_evictDeleted hplain ids)⟩

/-! ## An example -/

/-- An entity that is related to two others. -/
def linked : Entity where
  id := "a"
  attributes := numbered 1
  relationships := Relationships.add ∅ "u" ["x", "y"]

/-- An entity is written twice, loses a reference, and another one is evicted. -/
def fourCalls : List CacheRequest :=
  [.write .union "t" [linked, { id := "b" }],
    .write .replace "t" [{ id := "a", attributes := numbered 2 }],
    .unlink "t" ["a"] "u" ["x"],
    .evict "t" ["b"]]

theorem fits_linked : linked.Fits OneOrTwo where
  attributes _ := .inl rfl
  related name h := by
    rw [linked, Relationships.add, StringMap.mem_insert_iff] at h
    rcases h with rfl | h
    · decide
    · simp at h

theorem fits_fourCalls : ∀ r ∈ fourCalls, r.Fits OneOrTwo := by
  have hplain : Plain "t" ∧ Plain "u" := by decide
  have hbare : ∀ id attributes, (attributes ≠ [] → OneOrTwo attributes) →
      ({ id, attributes } : Entity).Fits OneOrTwo := fun id attributes h =>
    ⟨h, fun name hname => by simp at hname⟩
  refine List.forall_mem_cons.2 ⟨⟨hplain.1, by decide, ?_⟩, List.forall_mem_cons.2
    ⟨⟨hplain.1, by decide, ?_⟩, List.forall_mem_cons.2 ⟨hplain, List.forall_mem_singleton.2 hplain.1⟩⟩⟩
  · exact List.forall_mem_cons.2 ⟨⟨by decide, fits_linked⟩,
      List.forall_mem_singleton.2 ⟨by decide, hbare "b" [] fun h => absurd rfl h⟩⟩
  · exact List.forall_mem_singleton.2 ⟨by decide, hbare "a" (numbered 2) fun _ => .inr rfl⟩

/-- A report on one entity. -/
def oneReport : Report where
  entities := (∅ : StringMap (List Entity)).insert "t" [linked]

theorem fits_oneReport : oneReport.Fits OneOrTwo := by
  have hplain : Plain "t" := by decide
  have htypes : ∀ type ∈ oneReport.entities, "t" = type := by
    intro type h
    rw [oneReport, StringMap.mem_insert_iff] at h
    rcases h with h | h
    · exact h
    · simp at h
  have hentities : oneReport.entitiesOf "t" = [linked] := by
    simp [oneReport, Report.entitiesOf, StringMap.find]
  refine ⟨fun type h => htypes type h ▸ hplain, fun type h => ?_, fun type h => ?_, fun type h => ?_⟩
  · simp [oneReport] at h
  · rw [← htypes type h, hentities]
    decide
  · rw [← htypes type h, hentities]
    exact List.forall_mem_singleton.2 fits_linked

/-- Both caches after the four calls, read whole and with one kind of relationship, and merged with the
report. -/
theorem caches_agree_after_fourCalls :
    Faithful {} OneOrTwo ∧ (∀ r ∈ fourCalls, r.Fits OneOrTwo) ∧ ∃ (m : Memory) (s : Store),
      (Backend.memory "memory").EndsIn (.inTurn fourCalls) ({} : Memory) m (.ok ()) ∧
      (Backend.keyValue {}).EndsIn (.inTurn fourCalls) (.single { name := "kv" } : Store) s (.ok ()) ∧
      (∃ reply, (Backend.memory "memory").Replies m (.entities "t" none none) reply ∧
        (Backend.keyValue {}).Replies s (.entities "t" none none)
          (CacheRequest.timeless (.entities "t" none none) reply)) ∧
      (∃ reply, (Backend.memory "memory").Replies m
          (.entities "t" (some ["a"]) (some (.whose (· == "u")))) reply ∧
        (Backend.keyValue {}).Replies s (.entities "t" (some ["a"]) (some (.whose (· == "u"))))
          (CacheRequest.timeless (.entities "t" (some ["a"]) (some (.whose (· == "u")))) reply)) ∧
      (Backend.memory "memory").EndAlike (Backend.keyValue {}) (Engine.mergeSnapshot {}
        { agent := "agent", scope := .everything } (.ofList ["t"]) oneReport) m s := by
  obtain ⟨m, s, hm, hs, hreplies, hmerges⟩ :=
    caches_agree (faithful_oneOrTwo {}) fits_fourCalls "memory" "kv"
  have hplain : Plain "t" := by decide
  have htypes : ∀ t ∈ (.ofList ["t"] : StringSet), Plain t := by
    intro t ht
    obtain rfl : "t" = t := by simpa using ht
    exact hplain
  exact ⟨faithful_oneOrTwo {}, fits_fourCalls, m, s, hm, hs, hreplies _ ⟨hplain, by simp⟩,
    hreplies _ ⟨hplain, fun f hf => Option.some.inj hf ▸ NameFilter.isNamewise_whose _⟩,
    (hmerges {} { agent := "agent", scope := .everything } (.ofList ["t"]) oneReport "t" [] htypes
      fits_oneReport hplain).1⟩

end Inventory
