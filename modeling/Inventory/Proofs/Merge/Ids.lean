import Inventory.Proofs.Cache.Memory
import Inventory.Proofs.Merge.Index
import Inventory.Proofs.Merge.Media

/-!
# Inventory.Proofs.Merge.Ids

The ids of a type after a merge, in memory and over a key-value store.

Both backends do for the ids of a type what the engine needs (`keepsIds_memory`, `keepsIds_keyValue`),
so that a report has the same effect on them in every state that a cache can be in (`merge_ids`).
-/

namespace Inventory

open KeyValue

/-! ## The two backends -/

theorem keepsIds_memory (type : String) :
    KeepsIds Backend.remember type (fun _ => True) fun m => m.identifiers type where
  stays _ _ _ := trivial
  other r m _ hr := by
    have hrecords : (m.answer r).1.recordsOf type = m.recordsOf type ∨
        ∀ x, x ∈ (m.answer r).1.recordsOf type ↔ x ∈ m.recordsOf type := by
      cases r with
      | write mode t es =>
          rw [Memory.recordsOf_write, if_neg (by simpa [CacheRequest.changesIdsOf] using hr)]
          exact .inl rfl
      | evict t l =>
          rw [Memory.recordsOf_evict, if_neg (by simpa [CacheRequest.changesIdsOf] using hr)]
          exact .inl rfl
      | unlink t l related targets =>
          rw [Memory.recordsOf_unlink]
          by_cases ht : t = type
          · rw [if_pos ht, ht]
            exact .inr fun x => Memory.mem_unlinkAll _ _ _ _ x
          · rw [if_neg ht]
            exact .inl rfl
      | _ => exact .inl rfl
    refine Std.ExtTreeSet.ext_mem fun x => ?_
    rcases hrecords with hsame | hmem
    · rw [Backend.remember, Memory.identifiers, hsame, Memory.identifiers]
    · rw [Backend.remember, Memory.identifiers, Memory.identifiers, StringMap.mem_keySet,
        StringMap.mem_keySet, hmem]
  identifiers _ _ := rfl
  existing m l _ := by
    refine congrArg (fun p => Except.ok (Std.ExtTreeSet.ofList (l.filter p))) (funext fun x => ?_)
    rw [Bool.eq_iff_iff, Std.ExtTreeSet.contains_iff_mem, Memory.identifiers, StringMap.mem_keySet,
      Std.ExtTreeMap.contains_iff_mem]
  write m mode es _ hok x := by
    rw [Backend.remember, Memory.identifiers, Memory.recordsOf_write, if_pos rfl, StringMap.mem_keySet,
      Memory.mem_writeAll hok, Memory.identifiers, StringMap.mem_keySet]
  evict m l _ _ x := by
    rw [Backend.remember, Memory.identifiers, Memory.recordsOf_evict, if_pos rfl, StringMap.mem_keySet,
      Memory.identifiers, StringMap.mem_keySet, Std.ExtTreeMap.mem_iff_isSome_getElem?,
      StringMap.getElem?_eraseMany, Std.ExtTreeMap.mem_iff_isSome_getElem?]
    by_cases hx : x ∈ l <;> simp [hx]

/-- Requests that do not change the ids of a type leave their key as it is. -/
theorem respond_membersKey {o : Options} {type : String} (ht : Plain type) {r : CacheRequest}
    (hr : r.changesIdsOf type = false) (m : Cells) :
    (Backend.respond o r m).1 (o.membersKey type) = m (o.membersKey type) := by
  by_cases htype : r.type = type
  · subst htype
    cases r with
    | write mode t es => simp [CacheRequest.changesIdsOf, CacheRequest.type] at hr
    | evict t l => simp [CacheRequest.changesIdsOf, CacheRequest.type] at hr
    | unlink t l related targets =>
        rw [respond_unlink]
        exact unlink_other (fun id => Slot.key_ne .members (.related id related)) m l targets
    | _ => rw [Backend.respond_read rfl]
  · exact respond_other (fun slot hkey => htype (Slot.eq_of_members_key_eq ht hkey).1.symm) m

/-- What a write that succeeds and an eviction make of the ids of their type. -/
theorem respond_write_members {o : Options} {mode : WriteMode} {type : String} {es : List Entity}
    {m : Cells} (hm : (m (o.membersKey type)).takesMembers) :
    ((Backend.respond o (.write mode type es) m).1 (o.membersKey type)).takesMembers ∧
      ((Backend.respond o (.write mode type es) m).2 = .ok () →
        ∀ x, x ∈ members o type (Backend.respond o (.write mode type es) m).1 ↔
          x ∈ members o type m ∨ x ∈ es.map Entity.id) := by
  by_cases hempty : ∃ e ∈ es, e.id.isEmpty
  · obtain ⟨error, hwrite⟩ := respond_write_of_isEmpty o mode type hempty m
    rw [hwrite]
    exact ⟨hm, fun h => by contradiction⟩
  · obtain ⟨htakes, hmem⟩ := putChunks_members mode hm (batches o.mergeBatch es)
    rw [flatten_batches] at hmem
    rw [respond_write (by simpa using hempty)]
    exact ⟨htakes, fun _ => hmem⟩

/-- The ids of a type without a colon are kept by the requests about that type. -/
theorem keepsIds_keyValue (o : Options) {type : String} (ht : Plain type) :
    KeepsIds (Backend.respond o) type (fun m => (m (o.membersKey type)).takesMembers)
      (members o type) where
  stays r m hm := by
    cases hr : r.changesIdsOf type with
    | false => rwa [respond_membersKey ht hr]
    | true =>
        cases r with
        | write mode t es =>
            obtain rfl : t = type := by simpa [CacheRequest.changesIdsOf] using hr
            exact (respond_write_members hm).1
        | evict t l =>
            obtain rfl : t = type := by simpa [CacheRequest.changesIdsOf] using hr
            rw [respond_evict, (evict_members m _ l).1]
            exact hm
        | _ => simp [CacheRequest.changesIdsOf] at hr
  other r m _ hr := congrArg Cell.members (respond_membersKey ht hr m)
  identifiers m _ := by rw [Backend.respond_read rfl, readReply]
  existing m l _ := by rw [Backend.respond_read rfl, readReply]
  write m mode es hm hok := (respond_write_members hm).2 hok
  evict m l _ _ := by
    rw [respond_evict]
    exact (evict_members m _ l).2

/-! ## Caches as they are reached -/

namespace Medium

/-- The ids of a type. -/
def ids : (medium : Medium) → String → medium.View → StringSet
  | memory _, type => fun m => Memory.identifiers m type
  | node o _, type => members o type

/-- Whether ids can join those of a type. -/
def TakesIds : (medium : Medium) → String → medium.View → Prop
  | memory _, _ => fun _ => True
  | node o _, type => fun m : Cells => (m (o.membersKey type)).takesMembers

theorem keepsIds {medium : Medium} {type : String} (ht : medium.Tells type) :
    KeepsIds medium.respond type (medium.TakesIds type) (medium.ids type) := by
  cases medium with
  | memory name => exact keepsIds_memory type
  | node o name => exact keepsIds_keyValue o ht

theorem takesIds_fresh (medium : Medium) (type : String) :
    medium.TakesIds type (medium.view medium.fresh) := by
  cases medium with
  | memory name => trivial
  | node o name => rfl

/-- At the beginning there is no id. -/
theorem ids_fresh (medium : Medium) (type : String) : medium.ids type (medium.view medium.fresh) = ∅ := by
  cases medium with
  | memory name => rfl
  | node o name => rfl

theorem exists_keepsIds {medium : Medium} {type : String} (ht : medium.Tells type) :
    ∃ valid ids, KeepsIds medium.respond type valid ids ∧ valid (medium.view medium.fresh) :=
  ⟨_, _, keepsIds ht, takesIds_fresh medium type⟩

/-- The ids of a type are the answer to the request for them. -/
theorem replies_ids {medium : Medium} {type : String} (ht : medium.Tells type)
    {s : medium.backend.State} (hs : medium.Sound s) (htakes : medium.TakesIds type (medium.view s)) :
    medium.backend.Replies s (.identifiers type) (.ok (medium.ids type (medium.view s))) := by
  have hreply := replies hs (.identifiers type)
  rwa [(keepsIds ht).identifiers _ htakes] at hreply

/-- A merge takes a cache from one state to another and changes the ids of a type so. -/
def ChangesIds (medium : Medium) (type : String) (change : StringSet → StringSet)
    (s s' : medium.backend.State) : Prop :=
  ∃ before, medium.backend.Replies s (.identifiers type) (.ok before) ∧
    medium.backend.Replies s' (.identifiers type) (.ok (change before))

/-- What work does to the ids of a type in every cache that keeps them, it does to those of a cache
that has been reached. -/
theorem changesIds {p : CachePlan MergeStats} {type : String} {change : StringSet → StringSet}
    (hp : ∀ {σ : Type} {respond : Plan.Responder CacheRequest CacheRequest.Reply σ}
      {valid : σ → Prop} {ids : σ → StringSet}, KeepsIds respond type valid ids →
      ∀ {s s' : σ} {stats : MergeStats}, valid s → p.run respond s = (s', .ok stats) →
        valid s' ∧ ids s' = change (ids s))
    {medium : Medium} (ht : medium.Tells type) {s s' : medium.backend.State}
    (hs : medium.Reachable s) {stats : MergeStats} (hends : medium.backend.EndsIn p s s' (.ok stats)) :
    medium.ChangesIds type change s s' := by
  obtain ⟨valid, ids, K, hfresh⟩ := exists_keepsIds ht
  obtain ⟨hsound, hvalid⟩ := valid_of_reaches hfresh (fun r m _ hm => K.stays r m hm) hs
  obtain ⟨hsound', hrun⟩ := run_of_endsIn hsound hends
  obtain ⟨hvalid', hids⟩ := hp K hvalid hrun
  have hreply := replies hsound (.identifiers type)
  have hreply' := replies hsound' (.identifiers type)
  rw [K.identifiers _ hvalid] at hreply
  rw [K.identifiers _ hvalid', hids] at hreply'
  exact ⟨_, hreply, hreply'⟩

/-- What a merge makes of the ids of a type. -/
theorem mem_ids_of_endsIn {medium : Medium} {type : String} (ht : medium.Tells type)
    {s s' : medium.backend.State} (hs : medium.Sound s)
    (htakes : medium.TakesIds type (medium.view s)) {engine : Engine} {source : Source}
    {authoritative : StringSet} {r : Report} {stats : MergeStats}
    (h : medium.backend.EndsIn (engine.mergeSnapshot source authoritative r) s s' (.ok stats)) :
    medium.TakesIds type (medium.view s') ∧ ∀ id, id ∈ medium.ids type (medium.view s') ↔
      (id ∈ medium.ids type (medium.view s) ∨ id ∈ r.ids type) ∧
        ¬ (id ∈ Engine.staleOf engine source authoritative r type (medium.ids type (medium.view s)) ∨
          id ∈ Engine.explicitIds r type) := by
  obtain ⟨-, hrun⟩ := run_of_endsIn hs h
  obtain ⟨htakes', hids⟩ := (keepsIds ht).run_mergeSnapshot engine source authoritative r htakes hrun
  exact ⟨htakes', fun id => by rw [hids, Engine.mem_merged_staleOf]⟩

end Medium

/-! ## Merging -/

/-- In every cache that has been reached, a report on the whole scope of its source leaves of the ids of
a type those that it does not make stale and does not name for eviction, and brings those that it
writes. A report on a part of the scope makes none stale. -/
theorem merge_ids {medium : Medium} {type : String} (ht : medium.Tells type)
    {s : medium.backend.State} (hs : medium.Reachable s) (engine : Engine) (source : Source)
    (authoritative : StringSet) (r : Report) :
    (∀ s' stats,
      medium.backend.EndsIn (engine.mergeSnapshot source authoritative r) s s' (.ok stats) →
      medium.ChangesIds type (fun before => Engine.merged r type before
        (Engine.staleOf engine source authoritative r type before)) s s') ∧
    ∀ s' stats,
      medium.backend.EndsIn (engine.mergePartial source authoritative r) s s' (.ok stats) →
      medium.ChangesIds type (fun before => Engine.merged r type before ∅) s s' :=
  ⟨fun _ _ hends => Medium.changesIds
      (fun K _ _ _ hs h => K.run_mergeSnapshot engine source authoritative r hs h) ht hs hends,
    fun _ _ hends => Medium.changesIds
      (fun K _ _ _ hs h => K.run_mergePartial engine source authoritative r hs h) ht hs hends⟩

/-! ## An example on one node -/

/-- The rules without checks of ids. -/
def unchecked : Engine := { validatesKeys := false }

/-- A source that answers for two ids. -/
def ofTwo : Source := { agent := "agent", scope := .ids (.ofList ["a", "b"]) }

/-- Three entities of which only the ids are known. -/
def threeIds : List Entity := [{ id := "a" }, { id := "b" }, { id := "c" }]

/-- A report that names one of two ids, and a new one. -/
def secondAndNew : Report where
  entities := .ofList [("t", [({ id := "b" } : Entity), { id := "d" }])]

/-- On a node with three ids, the report makes the first of the two stale, and of the third it says
nothing. -/
theorem merge_on_node :
    (Medium.node {} "kv").Tells "t" ∧ ∃ s s' stats,
      (Medium.node {} "kv").Reachable s ∧
      (Medium.node {} "kv").backend.EndsIn
        (unchecked.mergeSnapshot ofTwo (.ofList ["t"]) secondAndNew) s s' (.ok stats) ∧
      (Medium.node {} "kv").ChangesIds "t" (fun before => Engine.merged secondAndNew "t" before
        (unchecked.staleOf ofTwo (.ofList ["t"]) secondAndNew "t" before)) s s' := by
  have ht : (Medium.node {} "kv").Tells "t" := by
    change Plain "t"
    decide
  obtain ⟨s, hreach, hhealthy, hcells⟩ := Backend.keyValue_endsIn (o := {})
    (Store.healthy_fresh "kv") (CachePlan.write .union "t" threeIds)
  have hs : (Medium.node {} "kv").Reachable s := ⟨_, _, Plan.asks_perform trivial, hreach⟩
  obtain ⟨s', hends, -⟩ := Backend.keyValue_endsIn (o := {}) hhealthy
    (unchecked.mergeSnapshot ofTwo (.ofList ["t"]) secondAndNew)
  rw [hcells] at hends
  obtain ⟨stats, hstats⟩ := Plan.exists_of_isOk (x := Prod.snd (Plan.run (Backend.respond {})
    (Plan.run (Backend.respond {}) (Store.single { name := "kv" }).cells
      (CachePlan.write .union "t" threeIds)).1
    (unchecked.mergeSnapshot ofTwo (.ofList ["t"]) secondAndNew))) (by decide +kernel)
  rw [hstats] at hends
  exact ⟨ht, s, s', stats, hs, hends, (merge_ids ht hs _ _ _ _).1 s' stats hends⟩

end Inventory
