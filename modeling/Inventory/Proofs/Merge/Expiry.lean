import Inventory.Proofs.Merge.Contributions
import Inventory.Proofs.Merge.Refusal

/-!
# Inventory.Proofs.Merge.Expiry

When entities expire after a merge.

In memory a record takes over every time to live that is written, whoever writes it. Where the source has
no authority over a type, the attributes of its entities are taken away before they are written, but their
times to live are not. So an entity of any type expires as the report says from then on, and as it did
before only if the report says nothing or the same (`merge_ttl`).
-/

namespace Inventory

/-! ## Written times to live -/

/-- The time to live that entities of a list give to an id: the last one counts. -/
def lastTtl (id : String) (es : List Entity) : Option UInt64 :=
  (es.filterMap fun e => if e.id = id then e.ttl else none).getLast?

theorem lastTtl_cons (id : String) (e : Entity) (es : List Entity) :
    lastTtl id (e :: es) = (lastTtl id es).or (if e.id = id then e.ttl else none) := by
  unfold lastTtl
  by_cases h : e.id = id
  · cases ht : e.ttl with
    | none => simp [h, ht]
    | some seconds => simp [h, ht, List.getLast?_cons]
  · simp [h]

/-- What is written of entities has their times to live, with their attributes or without. -/
theorem lastTtl_map_partOf (id : String) (authoritative : StringSet) (type : String) (es : List Entity) :
    lastTtl id (es.map (Engine.partOf authoritative type)) = lastTtl id es := by
  have httl : ∀ e : Entity, (Engine.partOf authoritative type e).ttl = e.ttl := by
    intro e
    unfold Engine.partOf
    split <;> rfl
  unfold lastTtl
  rw [List.filterMap_map]
  simp only [Function.comp_def, Engine.id_partOf, httl]

/-- Some entity of the list has the time to live that counts. -/
theorem exists_of_lastTtl {id : String} {es : List Entity} {seconds : UInt64}
    (h : lastTtl id es = some seconds) : ∃ e ∈ es, e.id = id := by
  obtain ⟨e, he, hid⟩ := List.mem_filterMap.1 (List.mem_of_getLast? h)
  rw [Option.ite_none_right_eq_some] at hid
  exact ⟨e, he, hid.1⟩

theorem Record.ttl_unlink (r : Record) (relationship : String) (targets : List String) :
    (r.unlink relationship targets).ttl = r.ttl := by
  unfold unlink
  grind

namespace Memory

/-- The time to live that is kept for an id. -/
def ttlAt (m : Memory) (type id : String) : Option UInt64 := (recordAt (m.recordsOf type) id).ttl

variable {m : Memory} {type id : String}

/-- A record keeps its time to live if none is written. -/
theorem ttl_writeAll {mode : WriteMode} {es : List Entity} (hes : ∀ e ∈ es, e.id.isEmpty = false)
    (records : StringMap Record) : (recordAt (writeAll mode type records es).1 id).ttl =
      (lastTtl id es).or (recordAt records id).ttl := by
  induction es generalizing records with
  | nil => rfl
  | cons e es ih =>
      rw [writeAll, if_neg (by simp [hes e List.mem_cons_self])]
      refine (ih (fun e he => hes e (List.mem_cons_of_mem _ he)) _).trans ?_
      rw [recordAt_insert, lastTtl_cons, Option.or_assoc]
      by_cases hid : e.id = id
      · simp [hid, Record.write, recordAt]
      · simp [hid]

theorem ttlAt_write (mode : WriteMode) {es : List Entity} (hes : ∀ e ∈ es, e.id.isEmpty = false)
    (m : Memory) (t type id : String) : (m.answer (.write mode t es)).1.ttlAt type id =
      if t = type then (lastTtl id es).or (m.ttlAt type id) else m.ttlAt type id := by
  unfold ttlAt
  rw [recordsOf_write]
  by_cases ht : t = type
  · subst ht
    rw [if_pos rfl, if_pos rfl, ttl_writeAll hes]
  · rw [if_neg ht, if_neg ht]

theorem ttlAt_unlink (m : Memory) (t : String) (ids : List String) (relationship : String)
    (targets : List String) :
    (m.answer (.unlink t ids relationship targets)).1.ttlAt type id = m.ttlAt type id := by
  unfold ttlAt
  rw [recordsOf_unlink]
  by_cases ht : t = type
  · subst ht
    rw [if_pos rfl, recordAt_unlinkAll]
    by_cases hid : id ∈ ids
    · rw [if_pos hid, Record.ttl_unlink]
    · rw [if_neg hid]
  · rw [if_neg ht]

theorem mem_recordsOf_unlink {t : String} {ids : List String} {relationship : String}
    {targets : List String} :
    id ∈ (m.answer (.unlink t ids relationship targets)).1.recordsOf type ↔ id ∈ m.recordsOf type := by
  rw [recordsOf_unlink]
  by_cases ht : t = type
  · subst ht
    rw [if_pos rfl, mem_unlinkAll]
  · rw [if_neg ht]

/-- An id that is left after an eviction has the time to live it had. -/
theorem ttlAt_evict {t : String} {ids : List String}
    (h : id ∈ (m.answer (.evict t ids)).1.recordsOf type) :
    id ∈ m.recordsOf type ∧ (m.answer (.evict t ids)).1.ttlAt type id = m.ttlAt type id := by
  unfold ttlAt
  rw [recordsOf_evict] at h ⊢
  by_cases ht : t = type
  · subst ht
    rw [if_pos rfl] at h ⊢
    have hid : id ∉ ids := by
      intro hid
      rw [Std.ExtTreeMap.mem_iff_isSome_getElem?, StringMap.getElem?_eraseMany, if_pos hid] at h
      contradiction
    rw [Std.ExtTreeMap.mem_iff_isSome_getElem?, StringMap.getElem?_eraseMany, if_neg hid,
      ← Std.ExtTreeMap.mem_iff_isSome_getElem?] at h
    exact ⟨h, by rw [recordAt_eraseMany, if_neg hid]⟩
  · rw [if_neg ht] at h ⊢
    exact ⟨h, rfl⟩

end Memory

/-! ## Following one entity through a merge -/

namespace Engine

open Plan (Fulfils)

variable {type id : String} {engine : Engine} {r : Report} {m₀ : Memory}
  {bad : Error → Memory → Prop}

/-- The time to live of an id once a report has been written. -/
def ttlAfter (r : Report) (type id : String) (m : Memory) : Option UInt64 :=
  (lastTtl id (r.entitiesOf type)).or (m.ttlAt type id)

/-- A type that is written again leaves the times to live as they are. -/
theorem or_eq_ttlAfter {ttl : Option UInt64}
    (h : ttl = m₀.ttlAt type id ∨ ttl = ttlAfter r type id m₀) :
    (lastTtl id (r.entitiesOf type)).or ttl = ttlAfter r type id m₀ := by
  unfold ttlAfter at h ⊢
  cases hlast : lastTtl id (r.entitiesOf type) with
  | some seconds => rfl
  | none => simpa [hlast] using h

/-- The writes of a report give an id the last time to live of the report, if it has any. -/
theorem fulfils_writeAll_ttl (haccepts : engine.Accepts r) (authoritative : StringSet) :
    Fulfils Backend.remember (.alone _) (fun m => m = m₀) (writeAll authoritative r)
      (fun _ m => m.ttlAt type id = ttlAfter r type id m₀) bad := by
  refine (fulfils_writeAll_each authoritative r
    (fun m => m.ttlAt type id = m₀.ttlAt type id ∨ m.ttlAt type id = ttlAfter r type id m₀)
    (fun t e m => t = type → e.id = id → m.ttlAt type id = ttlAfter r type id m₀)
    (Plan.Conduct.stable_alone _) ?_ ?_).mono ?_ ?_ fun _ _ h => h
  · rintro t e - s s' rfl - h
    exact h
  · intro t hne m hm
    have hes : ∀ e ∈ (r.entitiesOf t).map (partOf authoritative t), e.id.isEmpty = false :=
      fun e he => isEmpty_of_mem_partOf haccepts he
    have hwritten := Memory.ttlAt_write (modeOf authoritative t) hes m t type id
    rw [lastTtl_map_partOf] at hwritten
    have hok : (m.answer (.write (modeOf authoritative t) t
        ((r.entitiesOf t).map (partOf authoritative t)))).2 = .ok () :=
      congrArg Prod.snd (Memory.writeAll_of_forall _ t hes _)
    by_cases ht : t = type
    · subst ht
      rw [if_pos rfl, or_eq_ttlAfter hm] at hwritten
      exact ⟨trivial, hok, .inr hwritten, fun _ _ _ _ => hwritten, fun _ _ _ _ _ _ _ => hwritten⟩
    · rw [if_neg ht] at hwritten
      refine ⟨trivial, hok, hwritten.symm ▸ hm, fun _ _ h => absurd h ht, fun t' _ e _ h => ?_⟩
      exact hwritten.symm ▸ h
  · rintro m rfl
    exact .inl rfl
  · rintro - m ⟨hm, hall⟩
    cases hlast : lastTtl id (r.entitiesOf type) with
    | some seconds =>
        obtain ⟨e, he, hid⟩ := exists_of_lastTtl hlast
        exact hall type e he rfl hid
    | none =>
        have hsame : ttlAfter r type id m₀ = m₀.ttlAt type id := by simp [ttlAfter, hlast]
        rw [hsame, or_self] at hm
        rw [hm, hsame]

/-- What the evictions of a report leave keeps its time to live. -/
theorem fulfils_evictAll_ttl {ttl : Option UInt64} (gone : StringMap StringSet) (stats : MergeStats) :
    Fulfils Backend.remember (.alone _) (fun m => id ∈ m.recordsOf type → m.ttlAt type id = ttl)
      (evictAll gone stats) (fun _ m => id ∈ m.recordsOf type → m.ttlAt type id = ttl) bad := by
  have hbears : Bears Backend.remember (.alone _) (fun _ => True)
      fun m => id ∈ m.recordsOf type → m.ttlAt type id = ttl := by
    refine ⟨Plan.Conduct.stable_alone _, fun t ids filter m _ hm => ?_,
      fun t ids related targets m _ _ hm => ?_⟩
    · exact ⟨trivial, hm, fun _ _ _ _ _ _ => trivial⟩
    · refine ⟨trivial, fun hid => ?_⟩
      exact (Memory.ttlAt_unlink m t ids related targets).trans (hm (Memory.mem_recordsOf_unlink.1 hid))
  refine fulfils_evictAll (fun _ (m : Memory) => id ∈ m.recordsOf type → m.ttlAt type id = ttl)
    (fun _ => Plan.Conduct.stable_alone _) (fun t ids rest _ stats => hbears.fulfils_cascade trivial _ stats)
    (fun _ _ _ h => h) (fun t ids rest _ m hm => ⟨trivial, rfl, fun hid => ?_⟩) stats
  obtain ⟨hbefore, hsame⟩ := Memory.ttlAt_evict hid
  exact hsame.trans (hm hbefore)

/-- Applying a report gives what is left afterwards the last time to live of the report. -/
theorem fulfils_apply_ttl (haccepts : engine.Accepts r) (authoritative : StringSet)
    (stale : StringMap StringSet) :
    Fulfils Backend.remember (.alone _) (fun m => m = m₀) (apply authoritative r stale)
      (fun _ m => id ∈ m.recordsOf type → m.ttlAt type id = ttlAfter r type id m₀) bad :=
  Plan.fulfils_bind _ (fulfils_writeAll_ttl haccepts authoritative) fun stats =>
    (fulfils_evictAll_ttl _ stats).mono (fun _ hm _ => hm) (fun _ _ h => h) fun _ _ h => h

end Engine

open Engine

variable {name : String} {engine : Engine} {source : Source} {authoritative : StringSet} {r : Report}
  {m m' : Memory} {stats : MergeStats} {type id : String}

/-- Whatever is there after a merge has the last time to live that the report gives it, or the one it
had. -/
theorem ttlAt_of_endsIn {merge : CachePlan MergeStats}
    (hmerge : merge = engine.mergeSnapshot source authoritative r ∨
      merge = engine.mergePartial source authoritative r)
    (hends : (Backend.memory name).EndsIn merge m m' (.ok stats)) (hid : id ∈ m'.recordsOf type) :
    m'.ttlAt type id = ttlAfter r type id m := by
  have hrun := hends.memory
  rcases hmerge with rfl | rfl
  · exact ((@Medium.fulfils_mergeSnapshot (.memory name) engine source authoritative r _ m
      fun haccepts stale _ _ => fulfils_apply_ttl haccepts authoritative stale).run rfl hrun).2 hid
  · exact ((@Medium.fulfils_mergePartial (.memory name) engine source authoritative r _ m
      fun haccepts => fulfils_apply_ttl haccepts authoritative ∅).run rfl hrun).2 hid

/-- What is read of an id is what is kept under it. -/
theorem Backend.Replies.entity_memory {e : Entity}
    (h : (Backend.memory name).Replies m (.entities type (some [id]) none) (.ok [e])) :
    id ∈ m.recordsOf type ∧ e.ttl = (m.ttlAt type id).filter (0 < ·) := by
  have hreply : m.entities type (some [id]) none = [e] :=
    Except.ok.inj ((Backend.memory_replies name m _).unique h)
  obtain ⟨record, hrecord, rfl⟩ := Memory.entities_eq_singleton_iff.1 hreply
  have hthere : id ∈ m.recordsOf type := by simp [Std.ExtTreeMap.mem_iff_isSome_getElem?, hrecord]
  refine ⟨hthere, ?_⟩
  rw [Memory.ttlAt, Memory.recordAt_of_getElem? hrecord]
  rfl

theorem Backend.replies_of_mem (name : String) (h : id ∈ m.recordsOf type) :
    ∃ e, (Backend.memory name).Replies m (.entities type (some [id]) none) (.ok [e]) := by
  obtain ⟨record, hrecord⟩ := Option.isSome_iff_exists.1 (Std.ExtTreeMap.mem_iff_isSome_getElem?.1 h)
  have hreply : m.entities type (some [id]) none = [record.entity id none] :=
    Memory.entities_eq_singleton_iff.2 ⟨record, hrecord, rfl⟩
  refine ⟨record.entity id none, ?_⟩
  rw [← hreply]
  exact Backend.memory_replies name m (.entities type (some [id]) none)

/-- Whoever merges a report, an entity that is there before and afterwards expires afterwards as the report
says last, and as it did before if the report does not say. Whether the source has authority over the type
makes no difference. -/
theorem merge_ttl {merge : CachePlan MergeStats}
    (hmerge : merge = engine.mergeSnapshot source authoritative r ∨
      merge = engine.mergePartial source authoritative r)
    (hends : (Backend.memory name).EndsIn merge m m' (.ok stats)) {e e' : Entity}
    (he : (Backend.memory name).Replies m (.entities type (some [id]) none) (.ok [e]))
    (he' : (Backend.memory name).Replies m' (.entities type (some [id]) none) (.ok [e'])) :
    (lastTtl id (r.entitiesOf type) = none → e'.ttl = e.ttl) ∧
    ∀ seconds, lastTtl id (r.entitiesOf type) = some seconds →
      e'.ttl = if 0 < seconds then some seconds else none := by
  obtain ⟨-, hbefore⟩ := he.entity_memory
  obtain ⟨hthere, hafter⟩ := he'.entity_memory
  rw [ttlAt_of_endsIn hmerge hends hthere, ttlAfter] at hafter
  constructor
  · intro hnone
    rw [hafter, hnone, Option.none_or, hbefore]
  · intro seconds hsome
    rw [hafter, hsome, Option.some_or, Option.filter_some]
    simp

/-! ## An example -/

/-- A cache with one entity, which does not expire. -/
def onePermanent : Memory :=
  (({} : Memory).answer (.write .union "t" [{ id := "a", attributes := [("v", .number (.int 1))] }])).1

/-- A report that gives the entity a minute to live. -/
def oneMinute : Report where
  entities := .ofList [("t", [({ id := "a", ttl := some 60 } : Entity)])]

/-- Without authority over the type the report is merged, and the entity is there before and afterwards. -/
theorem endsIn_oneMinute : ∃ (m' : Memory) (stats : MergeStats) (e e' : Entity),
    (Backend.memory "memory").EndsIn (unchecked.mergePartial ofTwo ∅ oneMinute) onePermanent m'
      (.ok stats) ∧
    (Backend.memory "memory").Replies onePermanent (.entities "t" (some ["a"]) none) (.ok [e]) ∧
    (Backend.memory "memory").Replies m' (.entities "t" (some ["a"]) none) (.ok [e']) := by
  have hends := Backend.memory_endsIn "memory" (unchecked.mergePartial ofTwo ∅ oneMinute) onePermanent
  obtain ⟨stats, hstats⟩ := Plan.exists_of_isOk (x := Prod.snd (Plan.run Backend.remember onePermanent
    (unchecked.mergePartial ofTwo ∅ oneMinute))) (by decide +kernel)
  rw [hstats] at hends
  obtain ⟨e, he⟩ := Backend.replies_of_mem "memory"
    (show "a" ∈ onePermanent.recordsOf "t" by decide +kernel)
  obtain ⟨e', he'⟩ := Backend.replies_of_mem "memory"
    (show "a" ∈ (Prod.fst (Plan.run Backend.remember onePermanent
      (unchecked.mergePartial ofTwo ∅ oneMinute))).recordsOf "t" by decide +kernel)
  exact ⟨_, stats, e, e', hends, he, he'⟩

theorem merge_ttl_oneMinute : ∃ (m' : Memory) (stats : MergeStats) (e e' : Entity),
    (Backend.memory "memory").EndsIn (unchecked.mergePartial ofTwo ∅ oneMinute) onePermanent m'
      (.ok stats) ∧
    (Backend.memory "memory").Replies onePermanent (.entities "t" (some ["a"]) none) (.ok [e]) ∧
    (Backend.memory "memory").Replies m' (.entities "t" (some ["a"]) none) (.ok [e']) ∧
    e'.ttl = some 60 := by
  obtain ⟨m', stats, e, e', hends, he, he'⟩ := endsIn_oneMinute
  exact ⟨m', stats, e, e', hends, he, he', (merge_ttl (.inr rfl) hends he he').2 60 (by decide)⟩

/-- A source without authority over a type makes an entity expire that did not. -/
theorem ttl_changed_without_authority : "t" ∉ (∅ : StringSet) ∧ "t" ≠ onDemandType ∧
    ∃ (m' : Memory) (stats : MergeStats) (e e' : Entity),
      (Backend.memory "memory").EndsIn (unchecked.mergePartial ofTwo ∅ oneMinute) onePermanent m'
        (.ok stats) ∧
      (Backend.memory "memory").Replies onePermanent (.entities "t" (some ["a"]) none) (.ok [e]) ∧
      (Backend.memory "memory").Replies m' (.entities "t" (some ["a"]) none) (.ok [e']) ∧
      e'.ttl ≠ e.ttl := by
  refine ⟨Std.ExtTreeSet.not_mem_empty, by decide, ?_⟩
  obtain ⟨m', stats, e, e', hends, he, he'⟩ := endsIn_oneMinute
  obtain ⟨-, hbefore⟩ := he.entity_memory
  obtain ⟨hthere, hafter⟩ := he'.entity_memory
  rw [show onePermanent.ttlAt "t" "a" = none by decide +kernel] at hbefore
  rw [ttlAt_of_endsIn (.inr rfl) hends hthere,
    show ttlAfter oneMinute "t" "a" onePermanent = some 60 by decide +kernel] at hafter
  exact ⟨m', stats, e, e', hends, he, he', by rw [hbefore, hafter]; decide⟩

end Inventory
