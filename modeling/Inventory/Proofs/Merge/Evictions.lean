import Inventory.Proofs.Merge.Cascade
import Inventory.Proofs.Merge.Index

/-!
# Inventory.Proofs.Merge.Evictions

What a merge makes of the entities that it does not evict.

Types are evicted one after the other, and each as if it were the first (`run_evictType`): what has
been evicted of other types answers no references any more, but it would not have been an answer to be
removed anyway. A whole merge is its writes and then these evictions (`run_mergeSnapshot`,
`run_mergePartial`).
-/

namespace Inventory

/-- A report on types that can be told apart, with attributes that can be stored. -/
structure Report.Suits (tells : String → Prop) (stores : Attributes → Prop) (r : Report) : Prop where
  types : ∀ type ∈ r.entities, tells type
  evictedTypes : ∀ type ∈ r.evictions, tells type
  entities : ∀ type, ∀ e ∈ r.entitiesOf type, e.Suits tells stores

namespace KeepsEntities

open Engine Scene

variable {σ : Type} {respond : Plan.Responder CacheRequest CacheRequest.Reply σ}
  {tells : String → Prop} {stores : Attributes → Prop} {valid : σ → Prop} {see : σ → Scene} {S : Scene}
  {s s' : σ} {type : String} {evicted : String → StringSet} {stats stats' : MergeStats}

/-! ## Evictions -/

/-- A type that is still untouched is evicted, with the references back to what is evicted. -/
theorem run_evictType (K : KeepsEntities respond tells stores valid see) (hs : valid s)
    (hsee : see s = S.without evicted) (ht : tells type) (h : evicted type = ∅) (ids : StringSet)
    (stats : MergeStats) :
    ∃ s' stats' n, (evictType stats type ids).run respond s = (s', .ok stats') ∧ valid s' ∧
      see s' = S.without (extend evicted type ids) ∧
      stats'.cascadeFailures = stats.cascadeFailures ∧ stats'.unlinked = stats.unlinked + n ∧
      {r | (r.type = type ∧ r.id ∈ ids ∧ (S.without evicted).Has r.back) ∧
        (S.without evicted).Has r}.encard = n := by
  by_cases hempty : ids.isEmpty
  · obtain rfl := Std.ExtTreeSet.isEmpty_iff.1 hempty
    refine ⟨s, stats, 0, rfl, hs, ?_, rfl, rfl, by simp⟩
    rw [hsee, extend_empty h]
  · obtain ⟨s₁, n, hrun, hs₁, hsee₁, hcount⟩ := K.run_cascade hs hsee ht ids.toList stats
    simp only [Std.ExtTreeSet.mem_toList] at hsee₁ hcount
    have hvalid := K.stays (.evict type ids.toList) s₁ ht hs₁
    obtain ⟨hok, hevict⟩ := K.evict s₁ type ids.toList hs₁ ht
    have hask : (CachePlan.evict type ids.toList).run respond s₁ =
        ((respond (.evict type ids.toList) s₁).1, .ok ()) := Prod.ext rfl hok
    refine ⟨_, (stats.hasUnlinked n).hasEvicted type ids.size, n, ?_, hvalid, ?_, rfl, rfl, hcount⟩
    · unfold evictType
      rw [if_neg hempty, Plan.run_bind, Plan.run_attempt, hrun]
      dsimp only
      rw [Plan.run_bind, Plan.run_give]
      dsimp only
      rw [Plan.run_bind, hask]
      rfl
    · rw [hevict, hsee₁, without_extend h]

/-- Different types are evicted one after the other, after some others. -/
theorem run_evictTypes (K : KeepsEntities respond tells stores valid see)
    {l : List (String × StringSet)} (hl : (l.map Prod.fst).Nodup) (hids : ∀ p ∈ l, evicted p.1 = p.2)
    (ht : ∀ p ∈ l, tells p.1) {types : List String} (htypes : ∀ p ∈ l, p.1 ∉ types) (hs : valid s)
    (hsee : see s = S.without (among evicted types)) (stats : MergeStats) :
    ∃ s' stats' n, (Plan.forEach l stats fun stats p => evictType stats p.1 p.2).run respond s =
        (s', .ok stats') ∧ valid s' ∧
      see s' = S.without (among evicted ((l.map Prod.fst).reverse ++ types)) ∧
      stats'.cascadeFailures = stats.cascadeFailures ∧ stats'.unlinked = stats.unlinked + n ∧
      (S.Aloof evicted → {r : Reference | r.type ∈ l.map Prod.fst ∧ r.id ∈ evicted r.type ∧ S.Has r ∧
        S.Has r.back}.encard = n) := by
  induction l generalizing s types stats with
  | nil => exact ⟨s, stats, 0, rfl, hs, hsee, rfl, rfl, fun _ => by simp⟩
  | cons p l ih =>
      obtain ⟨t, ids⟩ := p
      obtain rfl : evicted t = ids := hids _ List.mem_cons_self
      obtain ⟨hnot, hl⟩ := List.nodup_cons.1 hl
      have htype : t ∉ types := htypes _ List.mem_cons_self
      obtain ⟨s₁, stats₁, n₁, hrun₁, hs₁, hsee₁, hfailures₁, hunlinked₁, hcount₁⟩ :=
        K.run_evictType hs hsee (ht _ List.mem_cons_self) (among_of_not_mem htype) (evicted t) stats
      rw [extend_among] at hsee₁
      have hfresh : ∀ p ∈ l, p.1 ∉ t :: types := fun p hp => List.not_mem_cons_of_ne_of_not_mem
        (fun hpt => hnot (List.mem_map.2 ⟨p, hp, hpt⟩)) (htypes p (List.mem_cons_of_mem _ hp))
      obtain ⟨s₂, stats₂, n₂, hrun₂, hs₂, hsee₂, hfailures₂, hunlinked₂, hcount₂⟩ :=
        ih hl (fun p hp => hids p (List.mem_cons_of_mem _ hp))
          (fun p hp => ht p (List.mem_cons_of_mem _ hp)) hfresh hs₁ hsee₁ stats₁
      refine ⟨s₂, stats₂, n₁ + n₂, ?_, hs₂, ?_, hfailures₂.trans hfailures₁, ?_, fun haloof => ?_⟩
      · rw [Plan.run_forEach_cons, hrun₁]
        exact hrun₂
      · rw [hsee₂, List.map_cons, List.reverse_cons, List.append_assoc]
        rfl
      · rw [hunlinked₂, hunlinked₁, Nat.add_assoc]
      · have hunion : {r : Reference | r.type ∈ ((t, evicted t) :: l).map Prod.fst ∧
              r.id ∈ evicted r.type ∧ S.Has r ∧ S.Has r.back} =
            {r : Reference | r.type = t ∧ r.id ∈ evicted r.type ∧ S.Has r ∧ S.Has r.back} ∪
            {r : Reference | r.type ∈ l.map Prod.fst ∧ r.id ∈ evicted r.type ∧ S.Has r ∧
              S.Has r.back} := by
          ext r
          simp only [Set.mem_ofPred_eq, Set.mem_union, List.map_cons, List.mem_cons, or_and_right]
        have hdisjoint : Disjoint
            {r : Reference | r.type = t ∧ r.id ∈ evicted r.type ∧ S.Has r ∧ S.Has r.back}
            {r : Reference | r.type ∈ l.map Prod.fst ∧ r.id ∈ evicted r.type ∧ S.Has r ∧
              S.Has r.back} := by
          rw [Set.disjoint_left]
          rintro r ⟨hr, -⟩ ⟨hr', -⟩
          exact hnot (hr ▸ hr')
        have hfirst : {r : Reference | r.type = t ∧ r.id ∈ evicted r.type ∧ S.Has r ∧
            S.Has r.back}.encard = n₁ := by
          rw [← hcount₁]
          exact congrArg Set.encard (Set.ext fun r => (haloof.lost_iff htype r).symm)
        rw [hunion, Set.encard_union_eq hdisjoint, hfirst, hcount₂ haloof, Nat.cast_add]

/-- All evictions of a merge that has not removed a reference before. -/
theorem run_evictAll (K : KeepsEntities respond tells stores valid see) (hs : valid s)
    {gone : StringMap StringSet} (ht : ∀ type ∈ gone, tells type) (hunlinked : stats.unlinked = 0)
    (hfailures : stats.cascadeFailures = 0) :
    ∃ s' stats', (evictAll gone stats).run respond s = (s', .ok stats') ∧ valid s' ∧
      (see s).Severs (StringMap.find gone) (see s') stats' := by
  have hsee : see s = (see s).without (among (StringMap.find gone) []) := (without_empty (see s)).symm
  obtain ⟨s', stats', n, hrun, hs', hsee', hfailures', hunlinked', hcount⟩ :=
    K.run_evictTypes gone.nodup_map_fst_toList (fun p hp => StringMap.find_of_mem_toList hp)
      (fun p hp => ht p.1 (StringMap.mem_of_mem_toList hp)) (fun p _ => List.not_mem_nil) hs hsee stats
  have hkeys : ∀ {type id : String}, id ∈ StringMap.find gone type →
      type ∈ gone.toList.map Prod.fst := fun hid =>
    List.mem_map_of_mem (StringMap.mem_toList_of_mem_find hid)
  refine ⟨s', stats', hrun, hs', ?_, hfailures'.trans hfailures, fun haloof => ?_⟩
  · rw [hsee']
    refine congrArg (see s).without (funext fun type => Std.ExtTreeSet.ext_mem fun id => ?_)
    refine ⟨mem_of_mem_among, fun hid => ?_⟩
    rw [among, if_pos (List.mem_append_left _ (List.mem_reverse.2 (hkeys hid)))]
    exact hid
  · rw [hunlinked', hunlinked, Nat.zero_add, ← hcount haloof]
    exact congrArg Set.encard (Set.ext fun r => (and_iff_right_of_imp fun h => hkeys h.1).symm)

/-! ## Writes -/

variable {authoritative : StringSet} {r : Report}

theorem valid_of_run_writeType (K : KeepsEntities respond tells stores valid see) (hs : valid s)
    (ht : tells type) {es : List Entity} (hes : ∀ e ∈ es, e.Suits tells stores)
    (h : (writeType authoritative type es).run respond s = (s', .ok ())) : valid s' := by
  have hwrite : ∀ {mode es}, (∀ e ∈ es, e.Suits tells stores) →
      (CachePlan.write mode type es).run respond s = (s', .ok ()) → valid s' := by
    intro mode es hes hrun
    obtain rfl : (respond (.write mode type es) s).1 = s' := congrArg Prod.fst hrun
    exact K.stays _ s ⟨ht, hes⟩ hs
  unfold writeType at h
  split at h
  · exact hwrite hes h
  · split at h
    · exact hwrite hes h
    · refine hwrite (fun e he => ?_) h
      obtain ⟨e', he', rfl⟩ := List.mem_map.1 he
      exact ⟨fun hne => absurd rfl hne, (hes e' he').related⟩

/-- Writes count no reference as removed. -/
theorem run_writeAll (K : KeepsEntities respond tells stores valid see) (hs : valid s)
    (hr : r.Suits tells stores) (h : (writeAll authoritative r).run respond s = (s', .ok stats)) :
    valid s' ∧ stats.unlinked = 0 ∧ stats.cascadeFailures = 0 := by
  refine Plan.run_forEach_induction respond (fun s stats =>
    valid s ∧ stats.unlinked = 0 ∧ stats.cascadeFailures = 0) ?_ ⟨hs, rfl, rfl⟩ h
  rintro ⟨t, es⟩ hp s₁ stats₁ s₂ stats₂ ⟨hs₁, hunlinked, hfailures⟩ hrun
  dsimp only at hrun
  split at hrun
  · cases hrun
    exact ⟨hs₁, hunlinked, hfailures⟩
  · obtain ⟨s₃, u, hwrite, hpure⟩ := (Plan.run_bind_eq_ok respond).1 hrun
    cases hpure
    have hes : r.entitiesOf t = es := StringMap.find_of_mem_toList hp
    exact ⟨K.valid_of_run_writeType hs₁ (hr.types t (StringMap.mem_of_mem_toList hp))
      (hes ▸ hr.entities t) hwrite, hunlinked, hfailures⟩

/-! ## Merging -/

variable (engine : Engine) (source : Source)

/-- After the writes comes the eviction of what is stale and of what the report names. -/
theorem run_apply (K : KeepsEntities respond tells stores valid see) (hs : valid s)
    (hr : r.Suits tells stores) {stale : StringMap StringSet} (hstale : ∀ type ∈ stale, tells type)
    (h : (apply authoritative r stale).run respond s = (s', .ok stats)) :
    ∃ w written, (writeAll authoritative r).run respond s = (w, .ok written) ∧ valid w ∧ valid s' ∧
      (see w).Severs (StringMap.find (evictions stale r)) (see s') stats := by
  obtain ⟨w, written, hwrite, hevict⟩ := (Plan.run_bind_eq_ok respond).1 h
  obtain ⟨hw, hunlinked, hfailures⟩ := K.run_writeAll hs hr hwrite
  have htypes : ∀ type ∈ evictions stale r, tells type := fun type htype =>
    (mem_evictions_types htype).elim (hstale type) (hr.evictedTypes type)
  obtain ⟨s'', stats'', hrun, hs'', hsevers⟩ := K.run_evictAll hw htypes hunlinked hfailures
  obtain ⟨rfl, hstats⟩ := Prod.mk.inj (hrun.symm.trans hevict)
  obtain rfl := Except.ok.inj hstats
  exact ⟨w, written, hwrite, hw, hs'', hsevers⟩

theorem run_staleIds (K : KeepsEntities respond tells stores valid see)
    {stale : StringMap StringSet}
    (h : (staleIds engine source authoritative r).run respond s = (s', .ok stale)) :
    s' = s ∧ ∀ type ∈ stale, type ∈ authoritative := by
  refine Plan.run_forEach_induction respond (fun s₁ stale =>
    s₁ = s ∧ ∀ type ∈ stale, type ∈ authoritative) ?_ ⟨rfl, by simp⟩ h
  rintro t ht s₁ stale₁ s₂ stale₂ ⟨rfl, hstale⟩ hrun
  obtain ⟨s₃, cached, hscoped, hpure⟩ := (Plan.run_bind_eq_ok respond).1 hrun
  have hstays := Plan.run_of_asks (· = s₁) (fun r s hr hs => (K.reads r s hr).trans hs)
    (KeepsIds.asks_scopedIds engine t source.scope) rfl
  rw [hscoped] at hstays
  cases hpure
  refine ⟨hstays, fun t' ht' => ?_⟩
  rw [StringMap.mem_insert_iff] at ht'
  exact ht'.elim (fun heq => heq ▸ Std.ExtTreeSet.mem_toList.1 ht) (hstale t')

/-- What a report on the whole scope of its source makes of the entities. -/
theorem run_mergeSnapshot (K : KeepsEntities respond tells stores valid see) (hs : valid s)
    (ht : ∀ type ∈ authoritative, tells type) (hr : r.Suits tells stores)
    (h : (mergeSnapshot engine source authoritative r).run respond s = (s', .ok stats)) :
    ∃ stale w written, (staleIds engine source authoritative r).run respond s = (s, .ok stale) ∧
      (writeAll authoritative r).run respond s = (w, .ok written) ∧ valid w ∧ valid s' ∧
      (see w).Severs (StringMap.find (evictions stale r)) (see s') stats := by
  obtain ⟨s₁, u, hcheck, hrest⟩ := (Plan.run_bind_eq_ok respond).1 h
  obtain rfl := KeepsIds.run_checkAll engine source hcheck
  obtain ⟨s₂, stale, hfound, happly⟩ := (Plan.run_bind_eq_ok respond).1 hrest
  obtain ⟨rfl, hstale⟩ := K.run_staleIds engine source hfound
  obtain ⟨w, written, happlied⟩ := K.run_apply hs hr (fun type h => ht type (hstale type h)) happly
  exact ⟨stale, w, written, hfound, happlied⟩

/-- What a report on a part of the scope of its source makes of the entities. -/
theorem run_mergePartial (K : KeepsEntities respond tells stores valid see) (hs : valid s)
    (hr : r.Suits tells stores)
    (h : (mergePartial engine source authoritative r).run respond s = (s', .ok stats)) :
    ∃ w written, (writeAll authoritative r).run respond s = (w, .ok written) ∧ valid w ∧ valid s' ∧
      (see w).Severs (StringMap.find (evictions ∅ r)) (see s') stats := by
  obtain ⟨s₁, u, hcheck, happly⟩ := (Plan.run_bind_eq_ok respond).1 h
  obtain rfl := KeepsIds.run_checkAll engine source hcheck
  exact K.run_apply hs hr (by simp) happly

/-- What an eviction of what is gone makes of the entities. -/
theorem run_evictDeleted (K : KeepsEntities respond tells stores valid see) (hs : valid s)
    (ht : tells type) {ids : List String}
    (h : (evictDeleted engine type ids).run respond s = (s', .ok stats)) :
    valid s' ∧ (see s).Severs (extend (fun _ => ∅) type (.ofList ids)) (see s') stats := by
  obtain ⟨s₁, u, hcheck, hevict⟩ := (Plan.run_bind_eq_ok respond).1 h
  obtain rfl : s₁ = s := by
    refine Plan.run_forEach_induction respond (fun s₁ _ => s₁ = s) ?_ rfl hcheck
    intro id _ s₁ _ s₂ _ hs₁ hrun
    rw [Plan.run_ofExcept] at hrun
    exact (congrArg Prod.fst hrun).symm.trans hs₁
  have hmem : ∀ r : Reference, r.id ∈ extend (fun _ => ∅) type (.ofList ids) r.type ↔
      r.type = type ∧ r.id ∈ (.ofList ids : StringSet) := by
    intro r
    unfold extend
    by_cases htype : r.type = type <;> simp [htype]
  obtain ⟨s₂, stats₂, n, hrun, hs₂, hsee₂, hfailures, hunlinked, hcount⟩ :=
    K.run_evictType hs (without_empty (see s₁)).symm ht rfl (.ofList ids) {}
  obtain ⟨rfl, hstats⟩ := Prod.mk.inj (hrun.symm.trans hevict)
  obtain rfl := Except.ok.inj hstats
  refine ⟨hs₂, hsee₂, hfailures, fun _ => ?_⟩
  rw [without_empty] at hcount
  rw [hunlinked, Nat.zero_add, ← hcount]
  exact congrArg Set.encard (Set.ext fun r => by grind)

end KeepsEntities

end Inventory
