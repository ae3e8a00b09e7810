import Inventory.Cache.Request
import Inventory.Merge.Stats
import Inventory.Proofs.Plan.Run
import Mathlib.Data.Set.Card

/-!
# Inventory.Proofs.Merge.Scene

What can be seen of the entities of a cache, and what evictions and removed references make of it.

A scene shows, for each entity that is there, its attributes and the ids that it is related to. Whatever
a cache is built on, an eviction and a removal of references change its scene in the same way
(`KeepsEntities`), so that an order of such changes can be followed on scenes alone. References are lost
one set after the other (`lose_lose`), and what remains when entities are evicted together with all
references back to them (`without`) does not depend on the order of their types (`without_extend`).
-/

namespace Inventory

/-- A reference: the entity that holds it, and the id that it is to. -/
structure Reference where
  holderType : String
  holder : String
  type : String
  id : String
deriving DecidableEq

/-- The reference in the opposite direction. -/
def Reference.back (r : Reference) : Reference := ⟨r.type, r.id, r.holderType, r.holder⟩

@[simp] theorem Reference.back_back (r : Reference) : r.back.back = r := rfl

/-- What is seen of an entity: its attributes if they can be read, and whether it is related to an id
of a type. -/
@[ext] structure Sight where
  attributes : Except Error Attributes
  related : String → String → Prop

/-- What is seen of the entities of a cache, by type and id. -/
abbrev Scene := String → String → Option Sight

namespace Scene

variable {S : Scene} {p q : Reference → Prop}

/-- Whether a reference is there. -/
def Has (S : Scene) (r : Reference) : Prop :=
  ∃ v, S r.holderType r.holder = some v ∧ v.related r.type r.id

/-- The scene in which some references are lost. -/
def lose (S : Scene) (lost : Reference → Prop) : Scene := fun type id =>
  (S type id).map fun v =>
    { v with related := fun type' id' => v.related type' id' ∧ ¬ lost ⟨type, id, type', id'⟩ }

/-- The scene after an eviction. -/
def evict (S : Scene) (type : String) (ids : List String) : Scene := fun type' id =>
  if type' = type ∧ id ∈ ids then none else S type' id

/-! ## Lost references -/

theorem lose_eq_some {type id : String} {v : Sight} :
    S.lose p type id = some v ↔ ∃ u, S type id = some u ∧ v = { u with
      related := fun type' id' => u.related type' id' ∧ ¬ p ⟨type, id, type', id'⟩ } := by
  rw [lose, Option.map_eq_some_iff]
  simp only [eq_comm]

theorem has_lose {r : Reference} : (S.lose p).Has r ↔ S.Has r ∧ ¬ p r := by
  constructor
  · rintro ⟨v, hv, hrelated⟩
    obtain ⟨u, hu, rfl⟩ := lose_eq_some.1 hv
    exact ⟨⟨u, hu, hrelated.1⟩, hrelated.2⟩
  · rintro ⟨⟨u, hu, hrelated⟩, hkept⟩
    exact ⟨_, lose_eq_some.2 ⟨u, hu, rfl⟩, hrelated, hkept⟩

/-- Only the references that are there can be lost. -/
theorem lose_congr (h : ∀ r, S.Has r → (p r ↔ q r)) : S.lose p = S.lose q := by
  funext type id
  unfold lose
  cases hv : S type id with
  | none => rfl
  | some v =>
      refine congrArg some (Sight.ext rfl ?_)
      funext type' id'
      refine propext (and_congr_right fun hrelated => not_congr ?_)
      exact h ⟨type, id, type', id'⟩ ⟨v, hv, hrelated⟩

theorem lose_lose : (S.lose p).lose q = S.lose fun r => p r ∨ q r := by
  funext type id
  unfold lose
  cases S type id with
  | none => rfl
  | some v =>
      refine congrArg some (Sight.ext rfl ?_)
      funext type' id'
      refine propext (and_assoc.trans (and_congr_right fun _ => ?_))
      exact not_or.symm

/-- Where nothing is lost, the scene stays as it is. -/
theorem lose_of_forall_not (h : ∀ r, S.Has r → ¬ p r) : S.lose p = S := by
  funext type id
  unfold lose
  cases hv : S type id with
  | none => rfl
  | some v =>
      refine congrArg some (Sight.ext rfl ?_)
      funext type' id'
      refine propext (and_iff_left_of_imp fun hrelated => ?_)
      exact h ⟨type, id, type', id'⟩ ⟨v, hv, hrelated⟩

/-! ## Evicted entities -/

/-- The scene without some entities and without the references back to them: of the references to
an evicted entity those are gone that it answers. -/
def without (S : Scene) (evicted : String → StringSet) : Scene := fun type id =>
  if id ∈ evicted type then none
  else S.lose (fun r => r.id ∈ evicted r.type ∧ S.Has r.back) type id

variable {evicted : String → StringSet} {type : String} {ids : StringSet}

theorem without_empty (S : Scene) : S.without (fun _ => ∅) = S := by
  have hkept : S.lose (fun r => r.id ∈ (∅ : StringSet) ∧ S.Has r.back) = S :=
    lose_of_forall_not fun r _ h => by simp at h
  funext type id
  rw [without, if_neg (by simp), hkept]

theorem has_without {r : Reference} : (S.without evicted).Has r ↔
    r.holder ∉ evicted r.holderType ∧ S.Has r ∧ ¬ (r.id ∈ evicted r.type ∧ S.Has r.back) := by
  rw [← has_lose (p := fun r => r.id ∈ evicted r.type ∧ S.Has r.back)]
  unfold without Has
  by_cases hholder : r.holder ∈ evicted r.holderType <;> simp [hholder]

theorem lose_without {type id : String} : (S.without evicted).lose p type id =
    if id ∈ evicted type then none
    else S.lose (fun r => (r.id ∈ evicted r.type ∧ S.Has r.back) ∨ p r) type id := by
  rw [← lose_lose]
  unfold without
  by_cases hid : id ∈ evicted type
  · rw [if_pos hid, lose, if_pos hid]
    rfl
  · rw [if_neg hid, lose, if_neg hid]
    rfl

/-- The ids evicted from types, with those of another type. -/
def extend (evicted : String → StringSet) (type : String) (ids : StringSet) : String → StringSet :=
  fun type' => if type' = type then ids else evicted type'

theorem extend_empty (h : evicted type = ∅) : extend evicted type ∅ = evicted := by
  funext type'
  unfold extend
  split
  · next htype => rw [htype, h]
  · rfl

/-- As long as a type is untouched, its evicted entities have all references to entities that are
still there. -/
theorem has_back_without (h : evicted type = ∅) {r : Reference} (hr : (S.without evicted).Has r)
    (htype : r.type = type) : (S.without evicted).Has r.back ↔ S.Has r.back := by
  obtain ⟨hholder, -, -⟩ := has_without.1 hr
  rw [has_without, Reference.back_back]
  refine ⟨fun hback => hback.2.1, fun hback => ⟨?_, hback, fun hgone => hholder hgone.1⟩⟩
  change r.id ∉ evicted r.type
  rw [htype, h]
  exact Std.ExtTreeSet.not_mem_empty

/-- Types may be evicted one after the other: what is lost with one of them is as if none had been
evicted before. -/
theorem without_extend (h : evicted type = ∅) :
    ((S.without evicted).lose fun r => r.type = type ∧ r.id ∈ ids ∧
      (S.without evicted).Has r.back).evict type ids.toList = S.without (extend evicted type ids) := by
  have hlost : (S.without evicted).lose (fun r => r.type = type ∧ r.id ∈ ids ∧
      (S.without evicted).Has r.back) =
      (S.without evicted).lose fun r => r.type = type ∧ r.id ∈ ids ∧ S.Has r.back :=
    lose_congr fun r hr => and_congr_right fun htype => and_congr_right fun _ =>
      has_back_without h hr htype
  rw [hlost]
  funext type' id
  simp only [evict, Std.ExtTreeSet.mem_toList]
  by_cases hnow : type' = type ∧ id ∈ ids
  · obtain ⟨rfl, hid⟩ := hnow
    rw [if_pos ⟨rfl, hid⟩, without, extend, if_pos rfl, if_pos hid]
  · have hextend : id ∈ extend evicted type ids type' ↔ id ∈ evicted type' := by
      unfold extend
      by_cases htype : type' = type
      · rw [if_pos htype, htype, h]
        exact ⟨fun hid => absurd ⟨htype, hid⟩ hnow, fun hid => absurd hid Std.ExtTreeSet.not_mem_empty⟩
      · rw [if_neg htype]
    rw [if_neg hnow, lose_without, without]
    refine if_congr hextend.symm rfl (congrFun (congrFun (lose_congr fun r _ => ?_) type') id)
    unfold extend
    by_cases htype : r.type = type
    · rw [if_pos htype, htype, h]
      simp
    · simp [htype]

/-- Of some ids by type, those of some types. -/
def among (evicted : String → StringSet) (types : List String) : String → StringSet :=
  fun type => if type ∈ types then evicted type else ∅

theorem among_of_not_mem {types : List String} (h : type ∉ types) : among evicted types type = ∅ :=
  if_neg h

theorem mem_of_mem_among {types : List String} {id : String} (h : id ∈ among evicted types type) :
    id ∈ evicted type := by
  unfold among at h
  split at h
  · exact h
  · exact absurd h Std.ExtTreeSet.not_mem_empty

theorem extend_among (evicted : String → StringSet) (type : String) (types : List String) :
    extend (among evicted types) type (evicted type) = among evicted (type :: types) := by
  funext type'
  unfold extend among
  by_cases htype : type' = type <;> simp [htype]

/-! ## Entities that do not refer to each other -/

/-- No entity that is evicted refers to one that is evicted. -/
def Aloof (S : Scene) (evicted : String → StringSet) : Prop := ∀ r, S.Has r →
  r.holder ∈ evicted r.holderType → r.id ∈ evicted r.type → S r.type r.id = none

/-- An entity that refers back to an evicted one is not evicted. -/
theorem Aloof.not_mem (h : S.Aloof evicted) {r : Reference} (hr : S.Has r) (hback : S.Has r.back)
    (hid : r.id ∈ evicted r.type) : r.holder ∉ evicted r.holderType := by
  intro hholder
  obtain ⟨v, hv, -⟩ := hback
  have hnone : S r.type r.id = none := h r hr hholder hid
  exact Option.some_ne_none v (hv.symm.trans hnone)

/-- What has been evicted before then has no part in what is lost with a type. -/
theorem Aloof.lost_iff (h : S.Aloof evicted) {types : List String} (htype : type ∉ types)
    (r : Reference) :
    ((r.type = type ∧ r.id ∈ evicted type ∧ (S.without (among evicted types)).Has r.back) ∧
      (S.without (among evicted types)).Has r) ↔
    r.type = type ∧ r.id ∈ evicted r.type ∧ S.Has r ∧ S.Has r.back := by
  have hnone : among evicted types type = ∅ := among_of_not_mem htype
  constructor
  · rintro ⟨⟨rfl, hid, hback⟩, hr⟩
    exact ⟨rfl, hid, (has_without.1 hr).2.1, (has_without.1 hback).2.1⟩
  · rintro ⟨rfl, hid, hr, hback⟩
    have hhas : (S.without (among evicted types)).Has r := by
      refine has_without.2 ⟨fun hholder => ?_, hr, fun hlost => ?_⟩
      · exact h.not_mem hr hback hid (mem_of_mem_among hholder)
      · rw [hnone] at hlost
        exact Std.ExtTreeSet.not_mem_empty hlost.1
    exact ⟨⟨rfl, hid, (has_back_without hnone hhas rfl).2 hback⟩, hhas⟩

/-- A scene after evictions that counted what they did: evicted entities are gone together with the
references back to them, no step failed, and if no evicted entity referred to another, the references
that are gone have all been counted. -/
structure Severs (S : Scene) (evicted : String → StringSet) (S' : Scene) (stats : MergeStats) :
    Prop where
  scene : S' = S.without evicted
  failures : stats.cascadeFailures = 0
  unlinked : S.Aloof evicted →
    {r : Reference | r.id ∈ evicted r.type ∧ S.Has r ∧ S.Has r.back}.encard = stats.unlinked

/-- What a read of the entities of some ids shows, with the types that a filter accepts. -/
structure Reads (S : Scene) (tells : String → Prop) (type : String) (ids : List String)
    (filter : Option NameFilter) (es : List Entity) : Prop where
  ids : es.map Entity.id = (firstOccurrences ids).filter fun id => (S type id).isSome
  sight : ∀ e ∈ es, ∃ v, S type e.id = some v ∧ v.attributes = .ok e.attributes ∧
    ∀ type' id, id ∈ StringMap.find e.relationships type' ↔
      v.related type' id ∧ filter.all (·.accepts type')
  tells : ∀ e ∈ es, ∀ type' ∈ e.relationships, tells type'

end Scene

/-! ## Caches of entities -/

/-- An entity of which all names can be told apart and the attributes can be stored. -/
structure Entity.Suits (tells : String → Prop) (stores : Attributes → Prop) (e : Entity) : Prop where
  attributes : e.attributes ≠ [] → stores e.attributes
  related : ∀ type ∈ e.relationships, tells type

/-- A request with names that can be told apart and with attributes that can be stored. -/
def CacheRequest.Suits (tells : String → Prop) (stores : Attributes → Prop) : CacheRequest → Prop
  | write _ type es => tells type ∧ ∀ e ∈ es, e.Suits tells stores
  | evict type _ => tells type
  | unlink type _ related _ => tells type ∧ tells related
  | _ => True

/-- What a cache must do for the entities of types that it can tell apart, with attributes that it can
store. -/
structure KeepsEntities {σ : Type} (respond : Plan.Responder CacheRequest CacheRequest.Reply σ)
    (tells : String → Prop) (stores : Attributes → Prop) (valid : σ → Prop) (see : σ → Scene) :
    Prop where
  reads : ∀ r s, r.isRead → (respond r s).1 = s
  stays : ∀ r s, r.Suits tells stores → valid s → valid (respond r s).1
  entities : ∀ s type ids filter, (∀ f ∈ filter, f.IsNamewise) → valid s → tells type →
    ∃ es, (respond (.entities type (some ids) filter) s).2 = .ok es ∧
      (see s).Reads tells type ids filter es
  evict : ∀ s type ids, valid s → tells type → (respond (.evict type ids) s).2 = .ok () ∧
    see (respond (.evict type ids) s).1 = (see s).evict type ids
  unlink : ∀ s type ids related targets, valid s → tells type → tells related →
    (respond (.unlink type ids related targets) s).2 = .ok () ∧
    see (respond (.unlink type ids related targets) s).1 = (see s).lose fun r =>
      r.holderType = type ∧ r.holder ∈ ids ∧ r.type = related ∧ r.id ∈ targets

end Inventory
