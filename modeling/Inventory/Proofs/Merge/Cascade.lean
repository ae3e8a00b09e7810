import Inventory.Proofs.Merge.References
import Inventory.Proofs.Merge.Scene

/-!
# Inventory.Proofs.Merge.Cascade

What the engine makes of the references to the entities that it evicts.

The references back to evicted entities are removed set by set: for each type of holders, for each
evicted entity. Every one of these steps takes away references of its own, and none looks at what
another one takes away, so together they take away all of them (`sheds_forEach`), and they count as many
as they take away.
-/

namespace Inventory

theorem MergeStats.hasUnlinked_hasUnlinked (stats : MergeStats) (n n' : Nat) :
    (stats.hasUnlinked n).hasUnlinked n' = stats.hasUnlinked (n + n') := by
  simp [hasUnlinked, Nat.add_assoc]

theorem encard_mem_list {α : Type} [DecidableEq α] {l : List α} (h : l.Nodup) :
    {x | x ∈ l}.encard = l.length := by
  rw [← List.toFinset_card_of_nodup h, ← Set.encard_coe_eq_coe_finsetCard, List.coe_toFinset]

/-! ## Plans that take references away -/

variable {σ : Type} {respond : Plan.Responder CacheRequest CacheRequest.Reply σ}
  {tells : String → Prop} {stores : Attributes → Prop} {valid : σ → Prop} {see : σ → Scene} {S : Scene}
  {p q : Reference → Prop}

/-- Wherever none of them is lost yet, a plan takes some references of a scene away, those that are
there, and counts them. -/
def Sheds (respond : Plan.Responder CacheRequest CacheRequest.Reply σ) (valid : σ → Prop)
    (see : σ → Scene) (S : Scene) (lost : Reference → Prop)
    (plan : MergeStats → CachePlan MergeStats) : Prop :=
  ∀ s stats gone, valid s → see s = S.lose gone → (∀ r, S.Has r → lost r → ¬ gone r) →
    ∃ s' n, (plan stats).run respond s = (s', .ok (stats.hasUnlinked n)) ∧ valid s' ∧
      see s' = S.lose (fun r => gone r ∨ lost r) ∧ {r | lost r ∧ S.Has r}.encard = n

theorem Sheds.congr {plan : MergeStats → CachePlan MergeStats} (h : Sheds respond valid see S p plan)
    (hpq : ∀ r, S.Has r → (p r ↔ q r)) : Sheds respond valid see S q plan := by
  intro s stats gone hs hsee hdisjoint
  obtain ⟨s', n, hrun, hs', hsee', hcount⟩ := h s stats gone hs hsee
    fun r hr hp => hdisjoint r hr ((hpq r hr).1 hp)
  refine ⟨s', n, hrun, hs', ?_, ?_⟩
  · rw [hsee']
    exact Scene.lose_congr fun r hr => or_congr_right (hpq r hr)
  · rw [← hcount]
    exact congrArg Set.encard (Set.ext fun r => and_congr_left fun hr => (hpq r hr).symm)

/-- Steps that take away different references take away all of them, one after the other. -/
theorem sheds_forEach {β : Type} {l : List β} {lost : β → Reference → Prop}
    {step : MergeStats → β → CachePlan MergeStats}
    (hstep : ∀ x ∈ l, Sheds respond valid see S (lost x) fun stats => step stats x)
    (hdisjoint : l.Pairwise fun x y => ∀ r, lost x r → ¬ lost y r) :
    Sheds respond valid see S (fun r => ∃ x ∈ l, lost x r) fun stats => Plan.forEach l stats step := by
  induction l with
  | nil =>
      intro s stats gone hs hsee _
      refine ⟨s, 0, rfl, hs, ?_, by simp⟩
      rw [hsee]
      exact Scene.lose_congr fun r _ => by simp
  | cons x l ih =>
      intro s stats gone hs hsee hgone
      obtain ⟨hx, hl⟩ := List.pairwise_cons.1 hdisjoint
      obtain ⟨s₁, n₁, hrun₁, hs₁, hsee₁, hcount₁⟩ := hstep x List.mem_cons_self s stats gone hs hsee
        fun r hr hlost => hgone r hr ⟨x, List.mem_cons_self, hlost⟩
      obtain ⟨s₂, n₂, hrun₂, hs₂, hsee₂, hcount₂⟩ :=
        ih (fun y hy => hstep y (List.mem_cons_of_mem _ hy)) hl s₁ (stats.hasUnlinked n₁) _ hs₁ hsee₁
          (by
            rintro r hr ⟨y, hy, hlost⟩ (hbefore | hfirst)
            · exact hgone r hr ⟨y, List.mem_cons_of_mem _ hy, hlost⟩ hbefore
            · exact hx y hy r hfirst hlost)
      refine ⟨s₂, n₁ + n₂, ?_, hs₂, ?_, ?_⟩
      · rw [Plan.run_forEach_cons, hrun₁, ← MergeStats.hasUnlinked_hasUnlinked]
        exact hrun₂
      · rw [hsee₂]
        exact Scene.lose_congr fun r _ => by simp [or_assoc]
      · have hunion : {r | (∃ y ∈ x :: l, lost y r) ∧ S.Has r} =
            {r | lost x r ∧ S.Has r} ∪ {r | (∃ y ∈ l, lost y r) ∧ S.Has r} := by
          ext r
          simp only [Set.mem_ofPred_eq, Set.mem_union, List.mem_cons, or_and_right, exists_or,
            exists_eq_left]
        have hdisjoint : Disjoint {r | lost x r ∧ S.Has r} {r | (∃ y ∈ l, lost y r) ∧ S.Has r} := by
          rw [Set.disjoint_left]
          rintro r ⟨hfirst, -⟩ ⟨⟨y, hy, hlost⟩, -⟩
          exact hx y hy r hfirst hlost
        rw [hunion, Set.encard_union_eq hdisjoint, hcount₁, hcount₂, Nat.cast_add]

/-! ## References to entities of one type -/

namespace KeepsEntities

open Engine

variable {type related : String}

/-- The references of some holders to one id are as many as the holders. -/
theorem encard_references {holders : List String} (h : holders.Nodup) {id : String}
    (hthere : ∀ y ∈ holders, S.Has ⟨related, y, type, id⟩) :
    {r : Reference | (r.holderType = related ∧ r.type = type ∧ r.id = id ∧ r.holder ∈ holders) ∧
      S.Has r}.encard = holders.length := by
  have himage : {r : Reference | (r.holderType = related ∧ r.type = type ∧ r.id = id ∧
      r.holder ∈ holders) ∧ S.Has r} =
      (fun y => (⟨related, y, type, id⟩ : Reference)) '' {y | y ∈ holders} := by
    ext r
    constructor
    · rintro ⟨⟨rfl, rfl, rfl, hy⟩, -⟩
      exact ⟨r.holder, hy, rfl⟩
    · rintro ⟨y, hy, rfl⟩
      exact ⟨⟨rfl, rfl, rfl, hy⟩, hthere y hy⟩
  have hinjective : Function.Injective fun y => (⟨related, y, type, id⟩ : Reference) :=
    fun y y' h => congrArg Reference.holder h
  rw [himage, hinjective.encard_image, encard_mem_list h]

/-- One step for an evicted entity and the holders that refer to it. -/
theorem sheds_unlinkOne (K : KeepsEntities respond tells stores valid see) (ht : tells type)
    (hr : tells related) {back : StringMap StringSet} {id : String} {targets : StringSet}
    (hback : ∀ y ∈ referring back id targets, S.Has ⟨related, y, type, id⟩) :
    Sheds respond valid see S
      (fun r => r.holderType = related ∧ r.type = type ∧ r.id = id ∧
        r.holder ∈ referring back id targets)
      fun stats => unlinkOne type related back stats id targets := by
  intro s stats gone hs hsee _
  have hcount := encard_references (nodup_referring back id targets) hback
  have hvalid := K.stays (.unlink related (referring back id targets) type [id]) s ⟨hr, ht⟩ hs
  obtain ⟨hok, hlose⟩ := K.unlink s related (referring back id targets) type [id] hs hr ht
  have hask : (CachePlan.unlink related (referring back id targets) type [id]).run respond s =
      ((respond (.unlink related (referring back id targets) type [id]) s).1, .ok ()) :=
    Prod.ext rfl hok
  unfold unlinkOne
  dsimp only
  by_cases hempty : (referring back id targets).isEmpty
  · rw [List.isEmpty_iff.1 hempty] at hcount ⊢
    refine ⟨s, 0, rfl, hs, ?_, hcount⟩
    rw [hsee]
    exact Scene.lose_congr fun r _ => by simp
  · refine ⟨_, (referring back id targets).length, ?_, hvalid, ?_, hcount⟩
    · rw [if_neg hempty, Plan.run_bind, Plan.run_attempt, hask]
      rfl
    · rw [hlose, hsee, Scene.lose_lose]
      refine Scene.lose_congr fun r _ => or_congr_right ?_
      rw [List.mem_singleton]
      grind

/-- What is read of entities of some ids is there once for each id. -/
theorem nodup_ids {es : List Entity} {ids : List String} {filter : Option NameFilter}
    (h : S.Reads tells type ids filter es) : (es.map Entity.id).Nodup := by
  rw [h.ids]
  exact (nodup_firstOccurrences ids).filter _

/-- What is read of an entity is what is there of it. -/
theorem mem_of_reads {es : List Entity} {ids : List String} {filter : Option NameFilter}
    (h : S.Reads tells type ids filter es) {id related x : String}
    (hrelated : filter.all (·.accepts related)) :
    (∃ e ∈ es, e.id = id ∧ x ∈ StringMap.find e.relationships related) ↔
      id ∈ ids ∧ S.Has ⟨type, id, related, x⟩ := by
  have hlisted : id ∈ es.map Entity.id ↔ id ∈ ids ∧ (S type id).isSome := by
    rw [h.ids, List.mem_filter, mem_firstOccurrences]
  constructor
  · rintro ⟨e, he, rfl, hx⟩
    obtain ⟨v, hv, -, hsame⟩ := h.sight e he
    exact ⟨(hlisted.1 (List.mem_map_of_mem he)).1, v, hv, ((hsame related x).1 hx).1⟩
  · rintro ⟨hid, v, hv, hx⟩
    obtain ⟨e, he, rfl⟩ := List.mem_map.1 (hlisted.2 ⟨hid, Option.isSome_iff_exists.2 ⟨v, hv⟩⟩)
    obtain ⟨v', hv', -, hsame⟩ := h.sight e he
    obtain rfl := Option.some.inj (hv'.symm.trans hv)
    exact ⟨e, he, rfl, (hsame related x).2 ⟨hx, hrelated⟩⟩

/-- Of the entities that evicted ones refer to, those are found that refer back. -/
theorem exists_holders (K : KeepsEntities respond tells stores valid see) {s : σ} (hs : valid s)
    (hr : tells related) (type : String) (byId : StringMap StringSet) :
    ∃ holders, (respond (.entities related
        (some (byId.foldl (fun all _ ids => all ∪ ids) (∅ : StringSet)).toList)
        (some (RelationshipFilter.mk [type]))) s).2 = .ok holders ∧
      ∀ x y, y ∈ referring (backReferences type holders) x (StringMap.find byId x) ↔
        y ∈ StringMap.find byId x ∧ (see s).Has ⟨related, y, type, x⟩ := by
  let filter := RelationshipFilter.mk [type]
  obtain ⟨holders, hreply, hreads⟩ := K.entities s related
    (byId.foldl (fun all _ ids => all ∪ ids) (∅ : StringSet)).toList (some filter)
    (NameFilter.isNamewise_toNameFilter filter) hs hr
  have haccepts : filter.toNameFilter.accepts type := by
    simp [filter, RelationshipFilter.toNameFilter, RelationshipFilter.accepts]
  refine ⟨holders, hreply, fun x y => ?_⟩
  rw [mem_referring, mem_find_backReferences (nodup_ids hreads), mem_of_reads hreads haccepts,
    Std.ExtTreeSet.mem_toList, mem_targets]
  exact and_congr_right fun hy => and_iff_right ⟨x, hy⟩

/-- All references that the entities of one type hold back to evicted ones. -/
theorem sheds_unlinkType (K : KeepsEntities respond tells stores valid see) (ht : tells type)
    (hr : tells related) (byId : StringMap StringSet) :
    Sheds respond valid see S
      (fun r => r.type = type ∧ r.holderType = related ∧ r.holder ∈ StringMap.find byId r.id)
      fun stats => unlinkType type stats related byId := by
  intro s stats gone hs hsee hgone
  obtain ⟨holders, hreply, hreferring⟩ := K.exists_holders hs hr type byId
  rw [hsee] at hreferring
  have hloop : Sheds respond valid see (S.lose gone)
      (fun r => r.type = type ∧ r.holderType = related ∧ r.holder ∈ StringMap.find byId r.id)
      fun stats => Plan.forEach byId.toList stats fun stats p =>
        unlinkOne type related (backReferences type holders) stats p.1 p.2 := by
    refine (sheds_forEach (fun p hp => K.sheds_unlinkOne ht hr fun y hy => ?_) ?_).congr
      fun r hthere => ?_
    · rw [← StringMap.find_of_mem_toList hp] at hy
      exact ((hreferring p.1 y).1 hy).2
    · refine (List.pairwise_map.1 byId.nodup_map_fst_toList).imp fun hne r hp hq => ?_
      exact hne (hp.2.2.1.symm.trans hq.2.2.1)
    · constructor
      · rintro ⟨p, hp, hrelated, htype, hid, hholder⟩
        rw [← StringMap.find_of_mem_toList hp, hreferring, ← hid] at hholder
        exact ⟨htype, hrelated, hholder.1⟩
      · rintro ⟨rfl, rfl, hholder⟩
        exact ⟨_, StringMap.mem_toList_of_mem_find hholder, rfl, rfl, rfl,
          (hreferring r.id r.holder).2 ⟨hholder, hthere⟩⟩
  have hnone : see s = (S.lose gone).lose fun _ => False := by
    rw [hsee]
    exact (Scene.lose_of_forall_not fun _ _ h => h).symm
  obtain ⟨s', n, hrun, hs', hsee', hcount⟩ := hloop s stats _ hs hnone fun _ _ _ h => h
  have hask : (CachePlan.entities related
      (some (byId.foldl (fun all _ ids => all ∪ ids) (∅ : StringSet)).toList)
      (some (RelationshipFilter.mk [type]))).run respond s = (s, .ok holders) :=
    Prod.ext (K.reads _ s rfl) hreply
  refine ⟨s', n, ?_, hs', ?_, ?_⟩
  · unfold unlinkType
    dsimp only
    rw [Plan.run_bind, Plan.run_attempt, hask]
    exact hrun
  · rw [hsee', Scene.lose_lose]
    exact Scene.lose_congr fun r _ => by simp
  · rw [← hcount]
    refine congrArg Set.encard (Set.ext fun r => and_congr_right fun hlost => ?_)
    rw [Scene.has_lose]
    exact (and_iff_left_of_imp fun hthere => hgone r hthere hlost).symm

/-- The references back to evicted entities are removed, and nothing else. -/
theorem run_cascade (K : KeepsEntities respond tells stores valid see) {s : σ} (hs : valid s)
    (hsee : see s = S) (ht : tells type) (ids : List String) (stats : MergeStats) :
    ∃ s' n, (cascade type ids stats).run respond s = (s', .ok (stats.hasUnlinked n)) ∧ valid s' ∧
      see s' = S.lose (fun r => r.type = type ∧ r.id ∈ ids ∧ S.Has r.back) ∧
      {r | (r.type = type ∧ r.id ∈ ids ∧ S.Has r.back) ∧ S.Has r}.encard = n := by
  obtain ⟨evicted, hreply, hreads⟩ := K.entities s type ids none nofun hs ht
  rw [hsee] at hreads
  have hmem : ∀ r : Reference, r.type = type →
      (r.holder ∈ StringMap.find (StringMap.find (references evicted) r.holderType) r.id ↔
        r.id ∈ ids ∧ S.Has r.back) := by
    rintro r rfl
    rw [mem_find_references (nodup_ids hreads), mem_of_reads hreads rfl]
    rfl
  have hloop : Sheds respond valid see S (fun r => r.type = type ∧ r.id ∈ ids ∧ S.Has r.back)
      fun stats => Plan.forEach (references evicted).toList stats fun stats p =>
        unlinkType type stats p.1 p.2 := by
    refine (sheds_forEach (fun p hp => K.sheds_unlinkType ht ?_ p.2) ?_).congr fun r _ => ?_
    · obtain ⟨e, he, hrelated⟩ := mem_references (StringMap.mem_of_mem_toList hp)
      exact hreads.tells e he p.1 hrelated
    · refine (List.pairwise_map.1 (references evicted).nodup_map_fst_toList).imp fun hne r hp hq => ?_
      exact hne (hp.2.1.symm.trans hq.2.1)
    · constructor
      · rintro ⟨p, hp, htype, hrelated, hholder⟩
        rw [← StringMap.find_of_mem_toList hp, ← hrelated] at hholder
        exact ⟨htype, (hmem r htype).1 hholder⟩
      · rintro ⟨htype, hlost⟩
        have hholder := (hmem r htype).2 hlost
        have hlisted : (r.holderType, StringMap.find (references evicted) r.holderType) ∈
            (references evicted).toList := by
          refine StringMap.mem_toList_of_find_ne_empty fun hempty => ?_
          rw [hempty] at hholder
          simp [StringMap.find] at hholder
        exact ⟨_, hlisted, htype, rfl, hholder⟩
  have hnone : see s = S.lose fun _ => False := by
    rw [hsee]
    exact (Scene.lose_of_forall_not fun _ _ h => h).symm
  obtain ⟨s', n, hrun, hs', hsee', hcount⟩ := hloop s stats _ hs hnone fun _ _ _ h => h
  have hask : (CachePlan.entities type (some ids) none).run respond s = (s, .ok evicted) :=
    Prod.ext (K.reads _ s rfl) hreply
  refine ⟨s', n, ?_, hs', ?_, hcount⟩
  · unfold cascade
    rw [Plan.run_bind, hask]
    exact hrun
  · rw [hsee']
    exact Scene.lose_congr fun r _ => by simp

end KeepsEntities

end Inventory
