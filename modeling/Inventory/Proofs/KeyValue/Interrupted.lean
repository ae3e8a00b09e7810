import Inventory.Proofs.KeyValue.Requests
import Inventory.Proofs.Plan.Failing

/-!
# Inventory.Proofs.KeyValue.Interrupted

Requests to the cache that end early because a request to the store fails.

Each request to the store is carried out or has no effect, and one that fails ends all. What is left then
is what the same request about a part of its ids leaves: the first batches of it (`leads_plan`). A read
leaves everything as it is, and says nothing wrong if it succeeds (`leads_reads`).
-/

namespace Inventory

/-- A request about the first of the ids of another one. -/
inductive CacheRequest.Begins : CacheRequest → CacheRequest → Prop
  | write {mode : WriteMode} {type : String} {es es' : List Entity} (h : es' <+: es) :
    Begins (.write mode type es') (.write mode type es)
  | evict {type : String} {ids ids' : List String} (h : ids' <+: ids) :
    Begins (.evict type ids') (.evict type ids)
  | unlink {type related : String} {ids ids' targets : List String} (h : ids' <+: ids) :
    Begins (.unlink type ids' related targets) (.unlink type ids related targets)

/-- The answers of cells that may also fail. -/
def Cells.faltering : Plan.Answers StoreRequest StoreRequest.Reply Cells :=
  Plan.faltering fun r m m' reply => Cells.respond r m = (m', reply)

namespace Store

variable {s s' : Store}

/-- The answers of a store that may also fail. -/
def faltering : Plan.Answers StoreRequest StoreRequest.Reply Store :=
  Plan.faltering fun r s s' reply => s.answer r = (s', some reply)

/-- What may happen to a healthy store may happen to its cells. -/
theorem leads_cells {α : Type} {p : StorePlan α} {out : Except Error α} (h : s.Healthy)
    (hleads : p.Leads faltering s s' out) :
    s'.Healthy ∧ p.Leads Cells.faltering s.cells s'.cells out := by
  have hanswers : ∀ r (s s' : Store) (m : Cells) reply, s.Healthy ∧ s.cells = m →
      faltering r s s' reply → ∃ m', Cells.faltering r m m' reply ∧ s'.Healthy ∧ s'.cells = m' := by
    rintro r s s' _ reply ⟨hs, rfl⟩ (hanswer | ⟨rfl, hfailed⟩)
    · obtain ⟨hs', hrespond⟩ := hs.answer hanswer
      exact ⟨_, .inl hrespond, hs', rfl⟩
    · exact ⟨_, .inr ⟨rfl, hfailed⟩, hs, rfl⟩
  obtain ⟨m', hleads', hhealthy, rfl⟩ :=
    hleads.through (fun s m => s.Healthy ∧ s.cells = m) hanswers ⟨h, rfl⟩
  exact ⟨hhealthy, hleads'⟩

end Store

namespace KeyValue

open Plan

variable {o : Options} {mode : WriteMode} {type : String} {m m' : Cells}

/-! ## Requests to the store -/

theorem leads_commit {batch : List Command} {out : Except Error Unit}
    (h : (commit batch).Leads Cells.faltering m m' out) :
    m' = m ∧ (∃ e, out = .error e) ∨ m' = m.applyAll batch ∧ out = .ok () := by
  rcases leads_perform.1 h with hcarried | hfailed
  · obtain ⟨rfl, rfl⟩ := Prod.mk.inj hcarried
    exact .inr ⟨rfl, rfl⟩
  · exact .inl hfailed

theorem leads_inquire {q : Query} {out : Except Error q.Reply}
    (h : (inquire q).Leads Cells.faltering m m' out) :
    m' = m ∧ ((∃ e, out = .error e) ∨ out = m.lookup q) := by
  rcases leads_perform.1 h with hcarried | ⟨rfl, hfailed⟩
  · obtain ⟨rfl, rfl⟩ := Prod.mk.inj hcarried
    exact ⟨rfl, .inr rfl⟩
  · exact ⟨rfl, .inl hfailed⟩

/-- A loop over batches that ends early has gone through the batches of the first elements. -/
theorem leads_batches {α γ : Type} {step : γ → List α → StorePlan γ}
    {effect : Cells → List α → Cells}
    (hstep : AtOnce Cells.faltering step effect) {limit : Nat} {l : List α} {state : γ}
    {out : Except Error γ}
    (h : (Plan.forEach (batches limit l) state step).Leads Cells.faltering m m' out) :
    ∃ done, done <+: l ∧ m' = (batches limit done).foldl effect m ∧ (out.isOk → done = l) := by
  obtain ⟨chunks, ⟨rest, hrest⟩, hstate, hall⟩ := leads_forEach hstep h
  have hpart : chunks.flatten <+: l := by
    rw [← flatten_batches limit l, ← hrest, List.flatten_append]
    exact List.prefix_append _ _
  have hbatches : batches limit chunks.flatten = chunks := batches_flatten_of_prefix ⟨rest, hrest⟩
  refine ⟨chunks.flatten, hpart, by rw [hbatches, hstate], fun hok => ?_⟩
  rw [hall hok, flatten_batches]

/-! ## Writes -/

theorem respond_write_nil : (Backend.respond o (.write mode type []) m).1 = m := by
  rw [respond_write fun e he => absurd he List.not_mem_nil, batches_nil]
  rfl

theorem leads_storedDigests {chunk : List Entity} {out : Except Error (StringMap Bytes)}
    (h : (storedDigests o type chunk).Leads Cells.faltering m m' out) :
    m' = m ∧ ((∃ e, out = .error e) ∨ out = .ok (fetched o type m chunk)) := by
  have hrun : (storedDigests o type chunk).run Cells.respond m =
      (m, .ok (fetched o type m chunk)) := by
    rw [← Cells.respondPartly_none]
    exact run_storedDigests o type _ _ m chunk
  unfold storedDigests at h hrun
  by_cases hasks : (o.hashing && !((chunk.filter isComparable).map Entity.id).isEmpty) = true
  · simp only [hasks, if_true] at h hrun
    rcases leads_bind.1 h with ⟨m₁, digests, hinquire, hrest⟩ | ⟨e, hinquire, rfl⟩
    · obtain ⟨rfl, ⟨e, herror⟩ | hdigests⟩ := leads_inquire hinquire
      · contradiction
      · obtain ⟨rfl, rfl⟩ := leads_pure.1 hrest
        obtain rfl := Except.ok.inj hdigests
        exact ⟨rfl, .inr (congrArg Prod.snd hrun)⟩
    · exact ⟨(leads_inquire hinquire).1, .inl ⟨e, rfl⟩⟩
  · rw [Bool.not_eq_true] at hasks
    simp only [hasks, Bool.false_eq_true, if_false] at h hrun
    obtain ⟨rfl, rfl⟩ := leads_give.1 h
    exact ⟨rfl, .inr (congrArg Prod.snd hrun)⟩

variable (o mode type) in
/-- A chunk is written as a whole or not at all. -/
theorem atOnce_writeChunk :
    AtOnce Cells.faltering (writeChunk o mode type) (putChunk o mode type) := by
  intro counts chunk m m' out h
  unfold writeChunk at h
  rcases leads_bind.1 h with ⟨m₁, stored, hstored, hrest⟩ | ⟨e, hstored, rfl⟩
  · obtain ⟨rfl, ⟨e, herror⟩ | hfetched⟩ := leads_storedDigests hstored
    · contradiction
    obtain rfl := Except.ok.inj hfetched
    rcases leads_bind.1 hrest with ⟨m₂, _, hcommit, hpure⟩ | ⟨e, hcommit, rfl⟩
    · rcases leads_commit hcommit with ⟨-, e, herror⟩ | ⟨rfl, -⟩
      · contradiction
      · obtain ⟨rfl, rfl⟩ := leads_pure.1 hpure
        exact .inr ⟨rfl, _, rfl⟩
    · rcases leads_commit hcommit with ⟨rfl, -⟩ | ⟨-, hok⟩
      · exact .inl ⟨rfl, e, rfl⟩
      · contradiction
  · exact .inl ⟨(leads_storedDigests hstored).1, e, rfl⟩

/-- A write that ends early has written the first entities. -/
theorem leads_write {es : List Entity} {out : Except Error Unit}
    (h : (write o mode type es).Leads Cells.faltering m m' out) :
    ∃ done, done <+: es ∧ m' = (Backend.respond o (.write mode type done) m).1 ∧
      (out.isOk → done = es) := by
  unfold write at h
  split at h
  · obtain ⟨rfl, rfl⟩ := leads_fail.1 h
    exact ⟨[], List.nil_prefix, respond_write_nil.symm, fun hok => by contradiction⟩
  · next hnone =>
    have hes : ∀ e ∈ es, e.id.isEmpty = false := by simpa using hnone
    have hwritten : ∀ {m₁ : Cells} {out : Except Error MergeCounts},
        (Plan.forEach (batches o.mergeBatch es) { items := es.length }
          (writeChunk o mode type)).Leads Cells.faltering m m₁ out →
        ∃ done, done <+: es ∧ m₁ = (Backend.respond o (.write mode type done) m).1 ∧
          (out.isOk → done = es) := by
      intro m₁ out hloop
      obtain ⟨done, hpart, rfl, hall⟩ := leads_batches (atOnce_writeChunk o mode type) hloop
      refine ⟨done, hpart, ?_, hall⟩
      rw [respond_write fun e he => hes e (hpart.subset he)]
      rfl
    rcases leads_bind.1 h with ⟨m₁, counts, hloop, htell⟩ | ⟨e, hloop, rfl⟩
    · obtain ⟨rfl, rfl⟩ := leads_tell.1 htell
      obtain ⟨done, hpart, hstate, hall⟩ := hwritten hloop
      exact ⟨done, hpart, hstate, fun _ => hall rfl⟩
    · exact hwritten hloop

/-! ## Removing -/

variable (o type) in
/-- A chunk is evicted as a whole or not at all. -/
theorem atOnce_evictChunk (types : List String) :
    AtOnce Cells.faltering (evictChunk o type types)
      fun m chunk => m.applyAll (evictionBatch o type types chunk) := by
  intro counts chunk m m' out h
  unfold evictChunk at h
  rcases leads_bind.1 h with ⟨m₁, _, hcommit, hpure⟩ | ⟨e, hcommit, rfl⟩
  · rcases leads_commit hcommit with ⟨-, e, herror⟩ | ⟨rfl, -⟩
    · contradiction
    · obtain ⟨rfl, rfl⟩ := leads_pure.1 hpure
      exact .inr ⟨rfl, _, rfl⟩
  · rcases leads_commit hcommit with ⟨rfl, -⟩ | ⟨-, hok⟩
    · exact .inl ⟨rfl, e, rfl⟩
    · contradiction

/-- An eviction that ends early has evicted the first ids. -/
theorem leads_evict {ids : List String} {out : Except Error Unit}
    (h : (evict o type ids).Leads Cells.faltering m m' out) :
    ∃ done, done <+: ids ∧ m' = (Backend.respond o (.evict type done) m).1 ∧
      (out.isOk → done = ids) := by
  have hnone : m = (Backend.respond o (.evict type []) m).1 := rfl
  unfold evict at h
  split at h
  · next hempty =>
    obtain ⟨rfl, rfl⟩ := leads_give.1 h
    exact ⟨[], List.nil_prefix, hnone, fun _ => (List.isEmpty_iff.1 hempty).symm⟩
  · rcases leads_bind.1 h with ⟨m₁, types, hscan, hrest⟩ | ⟨e, hscan, rfl⟩
    · obtain ⟨rfl, ⟨e, herror⟩ | htypes⟩ := leads_inquire hscan
      · contradiction
      obtain rfl := Except.ok.inj htypes
      have hevicted : ∀ {m₂ : Cells} {out : Except Error EvictCounts},
          (Plan.forEach (batches o.evictBatch ids) { items := ids.length }
            (evictChunk o type (typesOf o type m₁))).Leads Cells.faltering m₁ m₂ out →
          ∃ done, done <+: ids ∧ m₂ = (Backend.respond o (.evict type done) m₁).1 ∧
            (out.isOk → done = ids) := by
        intro m₂ out hloop
        obtain ⟨done, hpart, rfl, hall⟩ := leads_batches (atOnce_evictChunk o type _) hloop
        refine ⟨done, hpart, ?_, hall⟩
        rw [respond_evict, evictAll, Cells.applyAll_flatMap]
      rcases leads_bind.1 hrest with ⟨m₂, counts, hloop, htell⟩ | ⟨e, hloop, rfl⟩
      · obtain ⟨rfl, rfl⟩ := leads_tell.1 htell
        obtain ⟨done, hpart, hstate, hall⟩ := hevicted hloop
        exact ⟨done, hpart, hstate, fun _ => hall rfl⟩
      · exact hevicted hloop
    · rw [(leads_inquire hscan).1]
      exact ⟨[], List.nil_prefix, hnone, fun hok => by contradiction⟩

/-- References removed in part are those of the first ids. -/
theorem leads_unlink {related : String} {ids targets : List String} {out : Except Error Unit}
    (h : (unlink o type ids related targets).Leads Cells.faltering m m' out) :
    ∃ done, done <+: ids ∧ m' = (Backend.respond o (.unlink type done related targets) m).1 ∧
      (out.isOk → done = ids) := by
  have hstep : AtOnce Cells.faltering
      (fun (_ : Unit) chunk => commit (unlinkBatch o type related targets chunk))
      fun m chunk => m.applyAll (unlinkBatch o type related targets chunk) :=
    fun _ _ _ _ _ hcommit =>
      (leads_commit hcommit).imp_right fun hcarried => ⟨hcarried.1, (), hcarried.2⟩
  unfold unlink at h
  split at h
  · next hempty =>
    obtain ⟨rfl, rfl⟩ := leads_give.1 h
    refine ⟨ids, List.prefix_rfl, ?_, fun _ => rfl⟩
    rw [respond_unlink, unlinkAll]
    grind [Cells.applyAll_nil]
  · next hne =>
    rw [Bool.not_eq_true, Bool.or_eq_false_iff] at hne
    obtain ⟨done, hpart, rfl, hall⟩ := leads_batches hstep h
    refine ⟨done, hpart, ?_, hall⟩
    rw [respond_unlink, unlinkAll_of_not_isEmpty hne.2, Cells.applyAll_flatMap]

/-! ## Reads -/

/-- A request that asks a store and changes nothing. -/
def IsQuery : StoreRequest → Prop
  | .read _ => True
  | .write _ => False

theorem strict_inquire (q : Query) : (inquire q).Strict IsQuery := strict_perform trivial

theorem strict_existing (ids : List String) : (existing o type ids).Strict IsQuery :=
  strict_forEach (fun _ _ => strict_bind (strict_inquire _) fun _ => strict_pure) _

theorem strict_matching (glob : String) : (matching o type glob).Strict IsQuery := by
  unfold matching
  split
  · trivial
  · exact strict_bind (strict_inquire _) fun _ => strict_pure

theorem strict_locate (ids : Option (List String)) : (locate o type ids).Strict IsQuery := by
  cases ids with
  | none => exact strict_bind (strict_inquire _) fun _ => strict_pure
  | some ids => exact strict_bind (strict_existing _) fun _ => strict_pure

theorem strict_readChunk (types : List String) (state : List Entity × GetCounts) (chunk : List String) :
    (readChunk o type types state chunk).Strict IsQuery := by
  refine strict_bind (strict_inquire _) fun blobs => strict_bind ?_ fun _ =>
    strict_bind trivial fun _ => strict_pure
  exact strict_forEach (fun _ _ => strict_bind (strict_inquire _) fun _ => strict_pure) _

theorem strict_entities (ids : Option (List String)) (filter : Option NameFilter) :
    (entities o type ids filter).Strict IsQuery := by
  refine strict_bind (strict_locate ids) fun (requested, present) => ?_
  dsimp only
  split
  · trivial
  · refine strict_bind ?_ fun _ => trivial
    exact strict_bind (strict_inquire _) fun _ => strict_forEach (strict_readChunk _) _

theorem strict_plan (r : CacheRequest) (hr : r.isRead) : (plan o r).Strict IsQuery := by
  cases r with
  | entities type ids filter => exact strict_entities ids filter
  | identifiers type => exact strict_inquire _
  | matching type glob => exact strict_matching glob
  | existing type ids => exact strict_existing ids
  | _ => simp [CacheRequest.isRead] at hr

/-! ## Requests to the cache -/

/-- A request that ends early leaves what it would leave if it were about its first ids only. -/
theorem leads_plan {r : CacheRequest} (hr : r.isRead = false) {out : Except Error r.Reply}
    (h : (plan o r).Leads Cells.faltering m m' out) :
    ∃ r', r'.Begins r ∧ m' = (Backend.respond o r' m).1 ∧ (out.isOk → r' = r) := by
  cases r with
  | write mode type es =>
      obtain ⟨done, hpart, hstate, hall⟩ := leads_write h
      exact ⟨_, .write hpart, hstate, fun hok => by rw [hall hok]⟩
  | evict type ids =>
      obtain ⟨done, hpart, hstate, hall⟩ := leads_evict h
      exact ⟨_, .evict hpart, hstate, fun hok => by rw [hall hok]⟩
  | unlink type ids related targets =>
      obtain ⟨done, hpart, hstate, hall⟩ := leads_unlink h
      exact ⟨_, .unlink hpart, hstate, fun hok => by rw [hall hok]⟩
  | _ => simp [CacheRequest.isRead] at hr

/-- How a cache over cells that may fail answers. -/
def partway (o : Options) : Plan.Answers CacheRequest CacheRequest.Reply Cells :=
  fun r m m' reply => (plan o r).Leads Cells.faltering m m' reply

/-- What may happen to a healthy store during work on the cache may happen to its cells. -/
theorem leads_work {α : Type} {p : CachePlan α} {out : Except Error α} {s s' : Store} (hs : s.Healthy)
    (h : ((Backend.keyValue o).work p).Leads Store.faltering s s' out) :
    s'.Healthy ∧ p.Leads (partway o) s.cells s'.cells out :=
  (Store.leads_cells hs h).imp_right leads_expand.1

/-- Reads one after the other, each of which ends the whole if it fails, change nothing, and if they
succeed they end as their run does. -/
theorem leads_reads {α : Type} {p : CachePlan α} (hp : p.Strict fun r => r.isRead)
    {out : Except Error α} (h : p.Leads (partway o) m m' out) :
    m' = m ∧ ∀ a, out = .ok a → p.run (Backend.respond o) m = (m, .ok a) := by
  have hquery : ∀ r (m : Cells), IsQuery r → (Cells.respond r m).1 = m := by
    rintro (q | batch) m hr
    · rfl
    · exact hr.elim
  obtain ⟨hsame, hok⟩ := leads_of_strict hquery (strict_expand strict_plan hp) (leads_expand.2 h)
  exact ⟨hsame, fun a ha => (run_expand Cells.respond (plan o) m p).symm.trans (hok a ha)⟩

/-- One read changes nothing and says nothing wrong. -/
theorem leads_read {r : CacheRequest} (hr : r.isRead) {out : Except Error r.Reply}
    (h : partway o r m m' out) : m' = m ∧ ∀ a, out = .ok a → (Backend.respond o r m).2 = .ok a :=
  (leads_reads (strict_perform hr) (leads_perform.2 h)).imp_right fun hok a ha =>
    congrArg Prod.snd (hok a ha)

end KeyValue

end Inventory
