import Inventory.Proofs.Merge.Refusal
import Inventory.Proofs.Schedule.Chronicle
import Inventory.Schedule.Timeline

/-!
# Inventory.Proofs.Schedule.Rejected

Calls that merge a report, and when nothing comes of them.

The ids of a report are checked before anything is asked, and the first that is refused ends the call
(`checkAll_of_refuses`). Else the call fails for what the cache fails for (`Backend.Confines`), and never
because of a text. The ids that are cached are listed before anything is written, so a call that cannot list
them has only read (`work_of_reads`).
-/

namespace Inventory

open KeyValue Engine

variable {α β : Type} {cause : Error → Prop}

/-! ## Checking ids -/

namespace Engine

variable (engine : Engine) (source : Source) (authoritative : StringSet) (r : Report) {type id : String}

/-- Some id that a report writes or wants evicted is empty or, where ids must be keys, cannot be read as
one. -/
def Refuses : Prop :=
  ∃ type id, (id ∈ r.ids type ∨ id ∈ r.evictionsOf type) ∧
    (id = "" ∨ engine.validatesKeys = true ∧ ∃ e, engine.parsers.parse id = .error e)

theorem mem_namedIds : (type, id) ∈ namedIds r ↔ id ∈ r.ids type ∨ id ∈ r.evictionsOf type := by
  have hevictions : id ∈ r.evictionsOf type ↔ ∃ ids, (type, ids) ∈ r.evictions.toList ∧ id ∈ ids := by
    rw [Report.evictionsOf, StringMap.find]
    simp only [Std.ExtTreeMap.mem_toList_iff_getElem?_eq_some]
    cases r.evictions[type]? with
    | none => simp
    | some ids => simp
  rw [KeepsIds.mem_ids, hevictions, namedIds, List.mem_append]
  simp only [List.mem_flatMap, List.mem_map, Prod.exists, Prod.mk.injEq]
  grind

theorem exists_checkId_eq_error : (∃ e, engine.checkId type id = .error e) ↔
    id = "" ∨ engine.validatesKeys = true ∧ ∃ e, engine.parsers.parse id = .error e := by
  unfold checkId
  by_cases hempty : id = ""
  · simp [hempty]
  · rw [if_neg (by simpa using hempty)]
    by_cases hkeys : engine.validatesKeys
    · cases engine.parsers.parse id <;> simp [hempty, hkeys, Except.map]
    · simp [hempty, hkeys]

theorem refuses_iff : engine.Refuses r ↔ ¬ engine.Accepts r := by
  have hnot : ∀ {type id}, engine.checkId type id ≠ .ok () ↔ ∃ e, engine.checkId type id = .error e := by
    intro type id
    cases engine.checkId type id <;> simp
  simp only [Accepts, not_forall, exists_prop, Prod.exists, mem_namedIds, hnot,
    exists_checkId_eq_error, Refuses]

variable {engine r} in
theorem accepts_of_not_refuses (h : ¬ engine.Refuses r) : engine.Accepts r :=
  not_not.1 fun hnot => h ((engine.refuses_iff r).2 hnot)

/-- Of some ids, the first that is refused, with the error that refuses it. -/
def FirstRefused (ids : List (String × String)) (type id : String) (e : Error) : Prop :=
  ∃ before after, ids = before ++ (type, id) :: after ∧
    (∀ p ∈ before, engine.checkId p.1 p.2 = .ok ()) ∧ engine.checkId type id = .error e

theorem checkAll_of_forall {ids : List (String × String)}
    (h : ∀ p ∈ ids, engine.checkId p.1 p.2 = .ok ()) : engine.checkAll source ids = .give () := by
  induction ids with
  | nil => rfl
  | cons p ids ih =>
      rw [checkAll, h p List.mem_cons_self]
      exact ih fun p hp => h p (List.mem_cons_of_mem _ hp)

/-- The first id that is refused ends the check. -/
theorem checkAll_of_not_forall {ids : List (String × String)}
    (h : ¬ ∀ p ∈ ids, engine.checkId p.1 p.2 = .ok ()) :
    ∃ type id e, engine.FirstRefused ids type id e ∧
      engine.checkAll source ids = .note (.rejected source.agent type id) (.fail e) := by
  induction ids with
  | nil => simp at h
  | cons p ids ih =>
      cases hcheck : engine.checkId p.1 p.2 with
      | error e =>
          exact ⟨p.1, p.2, e, ⟨[], ids, rfl, by simp, hcheck⟩, by rw [checkAll, hcheck]⟩
      | ok u =>
          obtain ⟨type, id, e, ⟨before, after, hids, hbefore, herror⟩, hall⟩ :=
            ih fun hrest => h (List.forall_mem_cons.2 ⟨hcheck, hrest⟩)
          refine ⟨type, id, e, ⟨p :: before, after, by rw [hids, List.cons_append], ?_, herror⟩, ?_⟩
          · exact List.forall_mem_cons.2 ⟨hcheck, hbefore⟩
          · rw [checkAll, hcheck]
            exact hall

variable {engine r}

/-- A report that is refused asks nothing. -/
theorem merge_of_refuses (h : engine.Refuses r) :
    ∃ type id e, engine.FirstRefused (namedIds r) type id e ∧
      engine.mergeSnapshot source authoritative r = .note (.rejected source.agent type id) (.fail e) ∧
      engine.mergePartial source authoritative r = .note (.rejected source.agent type id) (.fail e) := by
  obtain ⟨type, id, e, hfirst, hall⟩ :=
    engine.checkAll_of_not_forall source ((engine.refuses_iff r).1 h)
  refine ⟨type, id, e, hfirst, ?_, ?_⟩
  · rw [mergeSnapshot, hall]
    rfl
  · rw [mergePartial, hall]
    rfl

variable (h : engine.Accepts r)

include h

theorem mergeSnapshot_of_accepts : engine.mergeSnapshot source authoritative r =
    engine.staleIds source authoritative r >>= apply authoritative r := by
  rw [mergeSnapshot, engine.checkAll_of_forall source h]
  rfl

theorem mergePartial_of_accepts :
    engine.mergePartial source authoritative r = apply authoritative r ∅ := by
  rw [mergePartial, engine.checkAll_of_forall source h]
  rfl

/-- A report that is accepted fails for what the cache fails for, and tells nothing. -/
theorem confined_apply_of_accepts (stale : StringMap StringSet) :
    (apply authoritative r stale).Confined (·.Allows cause) (fun _ => False) cause :=
  confined_apply authoritative (fun type es hes e he hempty => by
    rw [isEmpty_of_accepts h hes he] at hempty
    contradiction) stale

theorem confined_merge_of_accepts :
    (engine.mergeSnapshot source authoritative r).Confined (·.Allows cause) (fun _ => False) cause ∧
      (engine.mergePartial source authoritative r).Confined (·.Allows cause) (fun _ => False) cause := by
  rw [mergeSnapshot_of_accepts source authoritative h, mergePartial_of_accepts source authoritative h]
  refine ⟨Plan.confined_bind ?_ fun stale => ?_, confined_apply_of_accepts authoritative h ∅⟩
  · exact engine.confined_staleIds (fun _ => trivial) (fun _ _ => trivial) source authoritative r
  · exact confined_apply_of_accepts authoritative h stale

end Engine

/-! ## Telling of rejections -/

/-- Whatever it is answered, a plan tells of no refused report. -/
def Plan.NeverRejects {Request : Type} {Reply : Request → Type} (p : Plan Request Reply α) : Prop :=
  p.Confined (fun _ => True) (fun a => a.isRejection = false) fun _ => True

namespace Backend

variable {B : Backend} {asks : B.Request → Prop}

theorem Confines.recorded (h : B.Confines cause asks) : B.recorded.Confines cause asks where
  plan := h.plan
  answer r s := h.answer r s.1
  silence s := h.silence s.1

theorem Confines.work (h : B.Confines cause asks) {p : CachePlan α}
    (hp : p.Confined (·.Allows cause) (fun _ => False) cause) :
    (B.work p).Confined asks (fun a => a.isRejection = false) cause :=
  Plan.confined_expand h.plan (hp.mono (fun _ hr => hr) fun _ ha => ha.elim)

theorem Confines.neverRejects (h : B.Confines (fun _ => True) asks) {p : CachePlan α}
    (hp : p.Confined (·.Allows fun _ => True) (fun _ => False) fun _ => True) :
    (B.work p).NeverRejects :=
  (h.work hp).mono (fun _ _ => trivial) fun _ ha => ha

/-- Whoever answers reads from a state that they do not change. -/
def lookUp (B : Backend) : Plan.Responder B.Request B.Reply B.State := fun r s =>
  (s, (B.answer r s).2.getD (.error (B.silence s)))

theorem run_lookUp_fst (p : B.Work α) (s : B.State) : (p.run B.lookUp s).1 = s := by
  induction p with
  | done result => rfl
  | ask r next ih => exact ih _
  | note a next ih => exact ih

end Backend

/-- The requests that only read. -/
def Medium.Reads : (medium : Medium) → medium.backend.Request → Prop
  | memory _ => fun r : CacheRequest => r.isRead
  | node .. => fun r : StoreRequest => ∃ q, r = .read q

theorem Medium.answer_of_reads {medium : Medium} {r : medium.backend.Request} (h : medium.Reads r)
    (s : medium.backend.State) : ∃ reply, medium.backend.answer r s = (s, some reply) := by
  cases medium with
  | memory name =>
      change CacheRequest at r
      cases r with
      | write mode type es => contradiction
      | evict type ids => contradiction
      | unlink type ids related targets => contradiction
      | _ => exact ⟨_, rfl⟩
  | node o name =>
      obtain ⟨q, rfl⟩ := h
      exact ⟨_, rfl⟩

theorem Medium.exists_confines (medium : Medium) (h : CoversCache cause) :
    ∃ asks, medium.backend.Confines cause asks := by
  cases medium with
  | memory name => exact ⟨_, Backend.confines_memory h name⟩
  | node o name => exact ⟨_, Backend.confines_keyValue h o⟩

/-! ## Work on a timeline -/

namespace Plan

variable {Request : Type} {Reply : Request → Type} {γ σ : Type} {respond : Responder Request Reply σ}

/-- Where nothing changes, a loop fails if one of its steps does. -/
theorem exists_run_forEach_eq_error (hstays : ∀ r s, (respond r s).1 = s)
    {step : γ → β → Plan Request Reply γ} {s : σ} {x : β}
    (hx : ∀ state, ∃ e, ((step state x).run respond s).2 = .error e) {l : List β} (hmem : x ∈ l)
    (state : γ) : ∃ e, ((forEach l state step).run respond s).2 = .error e := by
  have hrun : ∀ p : Plan Request Reply γ, (p.run respond s).1 = s := by
    intro p
    induction p with
    | done result => rfl
    | ask r next ih => rw [run, hstays, ih]
    | note a next ih => exact ih
  induction l generalizing state with
  | nil => contradiction
  | cons y l ih =>
      rw [run_forEach_cons]
      have hsame := hrun (step state y)
      rcases hfirst : (step state y).run respond s with ⟨s₁, e | state₁⟩
      · exact ⟨e, rfl⟩
      · rw [hfirst] at hsame
        obtain rfl : s₁ = s := hsame
        rcases List.mem_cons.1 hmem with rfl | hmem
        · obtain ⟨e, he⟩ := hx state
          rw [hfirst] at he
          contradiction
        · exact ih hmem state₁

end Plan

/-- What lists the cached ids of a type in a scope. -/
def Scope.listing (scope : Scope) (type : String) : CacheRequest :=
  match scope with
  | .ids members => .existing type members.toList
  | _ => .identifiers type

namespace Timeline

variable {B : Backend} {asks reads : B.Request → Prop} {tells : Activity → Prop}

/-- A timeline on which one more thing has been told. -/
def told (t : Timeline B) (a : Activity) : Timeline B :=
  { t with scheduler := { t.scheduler with activity := a :: t.scheduler.activity } }

/-- A timeline on which more requests are on record. -/
def asked (t : Timeline B.recorded) (requests : List B.Request) : Timeline B.recorded :=
  { t with scheduler := { t.scheduler with
      cache := (t.scheduler.cache.1, requests ++ t.scheduler.cache.2) } }

theorem work_ask {r : B.Request} (next : Except Error (B.Reply r) → B.Work α) {t : Timeline B}
    {cache : B.State} {reply : Except Error (B.Reply r)}
    (h : B.answer r t.scheduler.cache = (cache, some reply)) (limit : Option Limit) :
    t.work limit (.ask r next) =
      work limit { t with scheduler := { t.scheduler with cache } } (next reply) := by
  rw [Timeline.work, h]

/-- Confined work fails for causes of its kind, whatever happens while it waits for answers. -/
theorem blames_work (h : B.Confines cause asks) {work : B.Work α} (hwork : work.Confined asks tells cause)
    (t : Timeline B) : Blames cause (t.work none work).1 := by
  induction work generalizing t with
  | done result => exact hwork
  | note a next ih => exact ih hwork.2 _
  | ask r next ih =>
      rw [Timeline.work]
      dsimp only
      split
      · next reply hreply => exact ih _ (hwork.2 _ (h.answer r _ _ hwork.1 hreply)) _
      · exact ih _ (hwork.2 _ (blames_error.2 (h.silence _))) _

/-- Work that reads and tells nothing changes nothing, and what follows it goes on from there. -/
theorem work_of_reads (hreads : ∀ r s, reads r → ∃ reply, B.answer r s = (s, some reply))
    {work : B.Work α} (hwork : work.Confined reads (fun _ => False) fun _ => True)
    (f : Except Error α → B.Work β) (t : Timeline B.recorded) :
    ∃ requests, (∀ r ∈ requests, reads r) ∧
      t.work (B := B.recorded) none (work.andThen f) =
        (t.asked requests).work none (f (work.run B.lookUp t.scheduler.cache.1).2) := by
  induction work generalizing t with
  | done result => exact ⟨[], by simp, rfl⟩
  | note a next ih => exact hwork.1.elim
  | ask r next ih =>
      obtain ⟨reply, hreply⟩ := hreads r t.scheduler.cache.1 hwork.1
      have hlook : B.lookUp r t.scheduler.cache.1 = (t.scheduler.cache.1, reply) := by
        rw [Backend.lookUp, hreply]
        rfl
      obtain ⟨requests, hrequests, hrest⟩ := ih reply (hwork.2 reply fun _ _ => trivial) (t.asked [r])
      refine ⟨requests ++ [r], fun q hq => ?_, ?_⟩
      · rcases List.mem_append.1 hq with hq | hq
        · exact hrequests q hq
        · exact List.mem_singleton.1 hq ▸ hwork.1
      · have hanswer : B.recorded.answer r t.scheduler.cache =
            ((t.asked [r]).scheduler.cache, some reply) := by
          simp only [Backend.recorded, hreply]
          rfl
        have hask := work_ask (B := B.recorded) (r := r) (fun reply => (next reply).andThen f) hanswer none
        refine hask.trans (hrest.trans ?_)
        rw [Plan.run, hlook]
        simp only [asked, List.append_assoc, List.singleton_append]

/-! ## Calls that merge a report -/

/-- Whether something that is done on the cache comes to a refused text. -/
def Malforms (t : Timeline B) (p : CachePlan α) : Prop :=
  ∃ key fault, (t.perform p).1 = .error (.malformedKey key fault)

/-- What a call that merges a report comes to, by its ids. If one of them is refused, it fails with what
refuses the first of them: nothing has been asked and nothing has changed, and it has been told once that the
report was rejected. Otherwise no such thing is told, and no text is refused. -/
structure Decides {medium : Medium} (t : Timeline medium.backend.recorded) (engine : Engine)
    (source : Source) (r : Report) (merge : CachePlan MergeStats) : Prop where
  refused : engine.Refuses r → ∃ type id e, engine.FirstRefused (namedIds r) type id e ∧
    t.perform merge = (.error e, t.told (.rejected source.agent type id))
  accepted : ¬ engine.Refuses r → ¬ t.Malforms merge ∧ (medium.backend.work merge).NeverRejects

variable {medium : Medium} {engine : Engine} {source : Source} {r : Report}

theorem decides (t : Timeline medium.backend.recorded) {merge : CachePlan MergeStats}
    (hrefused : engine.Refuses r → ∃ type id e, engine.FirstRefused (namedIds r) type id e ∧
      merge = .note (.rejected source.agent type id) (.fail e))
    (haccepted : engine.Accepts r → ∀ cause, merge.Confined (·.Allows cause) (fun _ => False) cause) :
    t.Decides engine source r merge := by
  refine ⟨fun h => ?_, fun h => ⟨?_, ?_⟩⟩
  · obtain ⟨type, id, e, hfirst, rfl⟩ := hrefused h
    exact ⟨type, id, e, hfirst, rfl⟩
  · rintro ⟨key, fault, hresult⟩
    obtain ⟨asks, hB⟩ := medium.exists_confines coversCache_not_malformed
    have hblames := blames_work hB.recorded (hB.work (haccepted (accepts_of_not_refuses h) _)) t
    simpa [Error.isMalformed] using hblames _ hresult
  · obtain ⟨asks, hB⟩ := medium.exists_confines coversCache_any
    exact hB.neverRejects (haccepted (accepts_of_not_refuses h) _)

/-- With parsers that refuse a text only as one that is no key, a call comes to a refused text exactly if it is
refused. -/
theorem Decides.malforms_iff {t : Timeline medium.backend.recorded} {merge : CachePlan MergeStats}
    (h : t.Decides engine source r merge) (hparsers : engine.parsers.RefuseMalformed) :
    t.Malforms merge ↔ engine.Refuses r := by
  refine ⟨fun hmalforms => not_not.1 fun hnot => (h.accepted hnot).1 hmalforms, fun hrefuses => ?_⟩
  obtain ⟨type, id, e, ⟨before, after, -, -, hcheck⟩, hresult⟩ := h.refused hrefuses
  obtain ⟨key, fault, rfl⟩ := Error.isMalformed_iff.1 (engine.blames_checkId hparsers type id e hcheck)
  exact ⟨key, fault, by rw [hresult]⟩

/-- Reads end where they began, with what is looked up. -/
theorem endsIn_of_reads (hreads : ∀ r s, reads r → ∃ reply, B.answer r s = (s, some reply))
    {work : B.Work α} (hwork : work.Confined reads (fun _ => False) fun _ => True) (s : B.State) :
    work.EndsIn B.answer s s (work.run B.lookUp s).2 := by
  induction work with
  | done result => exact ⟨rfl, rfl⟩
  | note a next ih => exact hwork.1.elim
  | ask r next ih =>
      obtain ⟨reply, hreply⟩ := hreads r s hwork.1
      have hlook : B.lookUp r s = (s, reply) := by
        rw [Backend.lookUp, hreply]
        rfl
      rw [Plan.run, hlook]
      exact Plan.endsIn_ask.2 ⟨s, reply, hreply, ih reply (hwork.2 reply fun _ _ => trivial)⟩

/-- Ids are listed by reads, which tell nothing. -/
theorem confined_plan_identifiers (medium : Medium) (type : String) :
    (medium.backend.plan (.identifiers type)).Confined medium.Reads (fun _ => False) fun _ => True := by
  cases medium with
  | memory name => exact Plan.confined_perform rfl
  | node o name => exact Plan.confined_perform ⟨_, rfl⟩

theorem confined_plan_existing (medium : Medium) (type : String) (ids : List String) :
    (medium.backend.plan (.existing type ids)).Confined medium.Reads (fun _ => False) fun _ => True := by
  cases medium with
  | memory name => exact Plan.confined_perform rfl
  | node o name => exact KeyValue.confined_existing o type (fun _ _ => ⟨_, rfl⟩) ids

theorem confined_plan_listing (medium : Medium) (scope : Scope) (type : String) :
    (medium.backend.plan (scope.listing type)).Confined medium.Reads (fun _ => False) fun _ => True := by
  cases scope with
  | ids members => exact confined_plan_existing medium type _
  | _ => exact confined_plan_identifiers medium type

/-- What cannot be listed cannot be searched for stale ids. -/
theorem run_scopedIds_eq_error {σ : Type} {respond : Plan.Responder CacheRequest CacheRequest.Reply σ}
    {s s' : σ} {e : Error} {scope : Scope} {type : String}
    (h : (respond (scope.listing type) s).1 = s') (he : (respond (scope.listing type) s).2 = .error e) :
    (scopedIds engine type scope).run respond s = (s', .error e) := by
  have hidentifiers : (respond (.identifiers type) s).1 = s' →
      (respond (.identifiers type) s).2 = .error e → (CachePlan.identifiers type >>= fun all =>
        pure (all.filter (scope.contains engine.parsers))).run respond s = (s', .error e) := by
    intro h he
    have hrespond : respond (.identifiers type) s = (s', .error e) := Prod.ext h he
    rw [Plan.run_bind, CachePlan.identifiers, Plan.run_perform, hrespond]
  cases scope with
  | ids members => exact Prod.ext h he
  | everything => exact hidentifiers h he
  | account provider name region => exact hidentifiers h he

/-- A call that cannot list the cached ids of a type has only read. -/
theorem perform_of_unlisted (t : Timeline medium.backend.recorded) (haccepts : engine.Accepts r)
    {authoritative : StringSet} {type : String} (ht : type ∈ authoritative) {e : Error}
    (he : medium.backend.Replies t.scheduler.cache.1 (source.scope.listing type) (.error e)) :
    ∃ requests err, (∀ q ∈ requests, medium.Reads q) ∧
      t.perform (engine.mergeSnapshot source authoritative r) = (.error err, t.asked requests) := by
  have hreads : ∀ r s, medium.Reads r → ∃ reply, medium.backend.answer r s = (s, some reply) :=
    fun r s h => Medium.answer_of_reads h s
  have hlisting : ((medium.backend.plan (source.scope.listing type)).run medium.backend.lookUp
      t.scheduler.cache.1).2 = .error e := by
    obtain ⟨s', hends⟩ := he
    have hplan : medium.backend.work (.perform (source.scope.listing type)) =
        medium.backend.plan (source.scope.listing type) := Plan.andThen_eq_self _
    rw [Backend.EndsIn, hplan] at hends
    exact ((endsIn_of_reads hreads (confined_plan_listing medium source.scope type) _).unique hends).2
  -- The first phase of the merge comes to an error.
  have hstale : ∃ err, ((medium.backend.work (engine.staleIds source authoritative r)).run
      medium.backend.lookUp t.scheduler.cache.1).2 = .error err := by
    rw [Backend.work, Plan.run_expand, staleIds]
    refine Plan.exists_run_forEach_eq_error ?_ (fun stale => ⟨e, ?_⟩) (Std.ExtTreeSet.mem_toList.2 ht) _
    · exact fun q s => Backend.run_lookUp_fst _ s
    · rw [Plan.run_bind, run_scopedIds_eq_error (Backend.run_lookUp_fst _ _) hlisting]
  obtain ⟨err, herr⟩ := hstale
  have hplan : ∀ q, (medium.backend.plan q).Confined medium.Reads (fun _ => False) (fun _ => True) →
      (medium.backend.plan q).Confined medium.Reads (fun _ => False) fun _ => True := fun _ h => h
  have hconfined : (medium.backend.work (engine.staleIds source authoritative r)).Confined medium.Reads
      (fun _ => False) fun _ => True :=
    Plan.confined_expand hplan (engine.confined_staleIds (confined_plan_identifiers medium)
      (confined_plan_existing medium) source authoritative r)
  obtain ⟨requests, hrequests, hwork⟩ := work_of_reads hreads hconfined
    (fun
      | .ok stale => medium.backend.work (apply authoritative r stale)
      | .error err => .fail err) t
  have hexpand : medium.backend.work (engine.mergeSnapshot source authoritative r) =
      (medium.backend.work (engine.staleIds source authoritative r)).andThen fun
        | .ok stale => medium.backend.work (apply authoritative r stale)
        | .error err => .fail err := by
    rw [mergeSnapshot_of_accepts source authoritative haccepts, Backend.work]
    refine (Plan.expand_andThen _ _ _).trans (congrArg _ (funext fun result => ?_))
    cases result <;> rfl
  rw [herr] at hwork
  exact ⟨requests, err, hrequests, (congrArg (t.work (B := medium.backend.recorded) none) hexpand).trans
    hwork⟩

/-- Calls that do not merge a report tell of none. -/
theorem neverRejects_perform (medium : Medium) (q : CacheRequest) :
    (medium.backend.work (.perform q)).NeverRejects := by
  obtain ⟨asks, hB⟩ := medium.exists_confines coversCache_any
  refine hB.neverRejects (Plan.confined_perform ?_)
  cases q with
  | matching type glob => exact fun _ _ => trivial
  | write mode type es => exact fun _ _ _ => trivial
  | _ => trivial

theorem neverRejects_writeEntity (medium : Medium) (engine : Engine) (type : String) (e : Entity) :
    (medium.backend.work (engine.writeEntity type e)).NeverRejects := by
  obtain ⟨asks, hB⟩ := medium.exists_confines coversCache_any
  exact hB.neverRejects (Plan.confined_bind (Plan.confined_ofExcept fun _ _ => trivial) fun _ =>
    Plan.confined_perform fun _ _ _ => trivial)

theorem neverRejects_evictDeleted (medium : Medium) (engine : Engine) (type : String) (ids : List String) :
    (medium.backend.work (engine.evictDeleted type ids)).NeverRejects := by
  obtain ⟨asks, hB⟩ := medium.exists_confines coversCache_any
  refine hB.neverRejects (Plan.confined_bind (Plan.confined_forEach (fun _ _ _ => ?_) ()) fun _ => ?_)
  · exact Plan.confined_ofExcept fun _ _ => trivial
  · exact confined_evictType {} type (.ofList ids)

theorem decides_mergeSnapshot (t : Timeline medium.backend.recorded) (engine : Engine) (source : Source)
    (authoritative : StringSet) (r : Report) :
    t.Decides engine source r (engine.mergeSnapshot source authoritative r) := by
  refine t.decides (fun h => ?_) fun h _ => (confined_merge_of_accepts source authoritative h).1
  obtain ⟨type, id, e, hfirst, hsnapshot, -⟩ := merge_of_refuses source authoritative h
  exact ⟨type, id, e, hfirst, hsnapshot⟩

theorem decides_mergePartial (t : Timeline medium.backend.recorded) (engine : Engine) (source : Source)
    (authoritative : StringSet) (r : Report) :
    t.Decides engine source r (engine.mergePartial source authoritative r) := by
  refine t.decides (fun h => ?_) fun h _ => (confined_merge_of_accepts source authoritative h).2
  obtain ⟨type, id, e, hfirst, -, hpartial⟩ := merge_of_refuses source authoritative h
  exact ⟨type, id, e, hfirst, hpartial⟩

/-- A report is refused as a whole, or not at all. Whatever a cache is built on, in whatever state it is and
whatever happens while a call waits, a call that merges a report fails at once if one of the ids that are
written or evicted is refused, and it tells of that once; with parsers that refuse a text only as one that is
no key, these are exactly the calls that come to a refused text. Then nothing has been asked, and where ids
that are cached cannot be listed nothing has been asked but reads, so that the cache is as it was. No other
call tells of a refused report. -/
theorem rejected_as_whole (medium : Medium) (t : Timeline medium.backend.recorded) (engine : Engine)
    (source : Source) (authoritative : StringSet) (r : Report) :
    (engine.parsers.RefuseMalformed →
      (t.Malforms (engine.mergeSnapshot source authoritative r) ↔ engine.Refuses r) ∧
      (t.Malforms (engine.mergePartial source authoritative r) ↔ engine.Refuses r)) ∧
    t.Decides engine source r (engine.mergeSnapshot source authoritative r) ∧
    t.Decides engine source r (engine.mergePartial source authoritative r) ∧
    (¬ engine.Refuses r → ∀ type ∈ authoritative, ∀ e,
      medium.backend.Replies t.scheduler.cache.1 (source.scope.listing type) (.error e) →
      ∃ requests err, (∀ q ∈ requests, medium.Reads q) ∧
        t.perform (engine.mergeSnapshot source authoritative r) = (.error err, t.asked requests)) ∧
    (∀ q, (medium.backend.work (.perform q)).NeverRejects) ∧
    (∀ type e, (medium.backend.work (engine.writeEntity type e)).NeverRejects) ∧
    ∀ type ids, (medium.backend.work (engine.evictDeleted type ids)).NeverRejects := by
  have hsnapshot := t.decides_mergeSnapshot engine source authoritative r
  have hpartial := t.decides_mergePartial engine source authoritative r
  refine ⟨fun hparsers => ⟨hsnapshot.malforms_iff hparsers, hpartial.malforms_iff hparsers⟩, hsnapshot,
    hpartial, fun h type ht e he => ?_, neverRejects_perform medium, neverRejects_writeEntity medium engine,
    neverRejects_evictDeleted medium engine⟩
  exact t.perform_of_unlisted (accepts_of_not_refuses h) ht he

/-! ## An example of a parser of its own -/

/-- A parser that reads the keys of one region, and no others. -/
def eastReader : KeyReader where
  provider := "cloud"
  parse s := do
    let key ← (KeyParser.mk "cloud").parse s
    if key.region = "east" then .ok key else .error (.malformedKey s (.reported "not in the east"))

theorem blames_eastReader (s : String) : Blames (·.isMalformed) (eastReader.parse s) := by
  refine (KeyParser.blames_parse _ s).bind fun key => ?_
  split
  · exact blames_ok _
  · exact blames_error.2 rfl

/-- The engine that reads the keys of the cloud with it. -/
def eastEngine : Engine := { parsers := KeyParsers.register {} eastReader }

/-- Two buckets, one of which is in another region. -/
def bothRegions : Report where
  entities := (∅ : StringMap _).insert "bucket"
    [{ id := "cloud:bucket:prod:east:a" }, { id := "cloud:bucket:prod:west:b" }]

/-- Over an empty cache in memory, of which all requests are on record. -/
def unasked : Timeline (Medium.memory "mem").backend.recorded :=
  { scheduler := { cache := (({} : Memory), []) } }

/-- The bucket of the other region is refused, and with it the whole report. -/
theorem both_regions_rejected : eastEngine.parsers.RefuseMalformed ∧
    unasked.Malforms (eastEngine.mergeSnapshot ⟨"agent", .everything⟩ (.ofList ["bucket"]) bothRegions) ∧
    (unasked.perform (eastEngine.mergeSnapshot ⟨"agent", .everything⟩ (.ofList ["bucket"]) bothRegions)).2 =
      unasked.told (.rejected "agent" "bucket" "cloud:bucket:prod:west:b") := by
  have hparsers : eastEngine.parsers.RefuseMalformed :=
    KeyParsers.areCommon_empty.refuseMalformed.register blames_eastReader
  have hids : namedIds bothRegions =
      [("bucket", "cloud:bucket:prod:east:a"), ("bucket", "cloud:bucket:prod:west:b")] := by decide +kernel
  have heast : (eastEngine.checkId "bucket" "cloud:bucket:prod:east:a").isOk = true := by decide +kernel
  have hwest : (eastEngine.checkId "bucket" "cloud:bucket:prod:west:b").isOk = false := by decide +kernel
  have hrefuses : eastEngine.Refuses bothRegions := by
    rw [refuses_iff]
    intro haccepts
    rw [haccepts ("bucket", "cloud:bucket:prod:west:b") (by simp [hids])] at hwest
    contradiction
  obtain ⟨hmalforms, hsnapshot, -⟩ := rejected_as_whole (.memory "mem") unasked eastEngine
    ⟨"agent", .everything⟩ (.ofList ["bucket"]) bothRegions
  refine ⟨hparsers, (hmalforms hparsers).1.2 hrefuses, ?_⟩
  obtain ⟨type, id, e, ⟨before, after, hsplit, hbefore, hcheck⟩, hresult⟩ := hsnapshot.refused hrefuses
  rw [hresult]
  -- the first id is read, so it is the second one that is refused
  rw [hids] at hsplit
  match before, hsplit with
  | [], hsplit =>
      simp only [List.nil_append, List.cons.injEq, Prod.mk.injEq] at hsplit
      obtain ⟨⟨rfl, rfl⟩, -⟩ := hsplit
      rw [hcheck] at heast
      contradiction
  | [p], hsplit =>
      simp only [List.singleton_append, List.cons.injEq, Prod.mk.injEq] at hsplit
      obtain ⟨-, ⟨rfl, rfl⟩, -⟩ := hsplit
      rfl
  | p :: q :: before, hsplit => simp at hsplit

end Timeline

end Inventory
