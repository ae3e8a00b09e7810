import Inventory.Proofs.Merge.Repairing
import Inventory.Proofs.Schedule.Deregistration
import Inventory.Proofs.Schedule.Snapshots

/-!
# Inventory.Proofs.Schedule.Remnants

What a deregistration that failed leaves cached.

The evictions of an account go from agent to agent, and any request of theirs to the store may fail. Of the
agents before the failure nothing is left then, and of those after it everything (`exists_remnants`). To
deregister the account again evicts nothing at all, so all that is left stays (`failed_deregistration_is_over`).
-/

namespace Inventory

open KeyValue Engine

/-! ## Requests that fail -/

/-- The backend of which some requests fail, and change nothing: a list says of each of the next requests
whether it does. -/
def Backend.faltering (B : Backend) : Backend where
  State := B.State × List (Option Error)
  Request := B.Request
  Reply := B.Reply
  name s := B.name s.1
  plan := B.plan
  answer r s :=
    match s.2.head?.join with
    | some e => ((s.1, s.2.tail), some (.error e))
    | none => (((B.answer r s.1).1, s.2.tail), (B.answer r s.1).2)
  patience := B.patience
  silence s := B.silence s.1

namespace Backend

variable {B : Backend} {r : B.Request} {s : B.State} {faults : List (Option Error)}

theorem faltering_fails {e : Error} (h : faults.head?.join = some e) :
    B.faltering.answer r (s, faults) = ((s, faults.tail), some (.error e)) := by
  simp only [faltering, h]

theorem faltering_answers (h : faults.head?.join = none) :
    B.faltering.answer r (s, faults) = (((B.answer r s).1, faults.tail), (B.answer r s).2) := by
  simp only [faltering, h]

/-- Where all requests are answered, all work ends if some of them fail, and it ends where it may lead. -/
theorem exists_endsIn_faltering {α : Type} {valid : B.State → Prop}
    (hanswers : ∀ r s, valid s → ∃ s' reply, B.answer r s = (s', some reply) ∧ valid s')
    (work : B.Work α) (hs : valid s) (faults : List (Option Error)) :
    ∃ s' faults' result, Plan.EndsIn B.faltering.answer (s, faults) work (s', faults') result ∧
      work.Leads (Plan.faltering fun r s s' reply => B.answer r s = (s', some reply)) s s' result := by
  induction work generalizing s faults with
  | done result => exact ⟨s, faults, result, ⟨rfl, rfl⟩, rfl, rfl⟩
  | note a next ih => exact ih hs faults
  | ask r next ih =>
      cases hfault : faults.head?.join with
      | some e =>
          obtain ⟨s', faults', result, hends, hleads⟩ := ih (.error e) hs faults.tail
          exact ⟨s', faults', result, Plan.endsIn_ask.2 ⟨_, _, faltering_fails hfault, hends⟩, s, .error e,
            .inr ⟨rfl, e, rfl⟩, hleads⟩
      | none =>
          obtain ⟨s₁, reply, hanswer, hvalid⟩ := hanswers r s hs
          obtain ⟨s', faults', result, hends, hleads⟩ := ih reply hvalid faults.tail
          have hreply := faltering_answers (r := r) (s := s) hfault
          rw [hanswer] at hreply
          exact ⟨s', faults', result, Plan.endsIn_ask.2 ⟨_, _, hreply, hends⟩, s₁, reply,
            .inl hanswer, hleads⟩

end Backend

/-! ## What evictions leave -/

/-- The report of nothing suits every cache. -/
theorem Report.suits_empty {tells : String → Prop} {fits : Attributes → Prop} :
    Report.empty.Suits tells fits where
  types _ h := by simp [Report.empty] at h
  evictedTypes _ h := by simp [Report.empty] at h
  entities _ _ h := by simp [Report.entitiesOf, Report.empty, StringMap.find] at h

section Underway

variable {o : Options} {engine : Engine} {p : Profile} {todo : String → String → Prop} {m₀ m : Cells}

/-- The ids of cells, by type. -/
abbrev cellIds (o : Options) (m : Cells) (type : String) : StringSet := members o type m

theorem evicts_empty {type id : String} :
    Evicts o engine p.source (.ofList p.authoritativeTypes) .empty m₀ type id ↔
      id ∈ members o type m₀ ∧ p.AnswersFor engine.parsers type id := by
  rw [Evicts, Profile.mem_staleOf_empty, explicitIds_empty]
  simp

variable (h : Underway o (.ofList p.authoritativeTypes) .empty
  (Evicts o engine p.source (.ofList p.authoritativeTypes) .empty m₀) todo m₀ m)

include h

/-- Of each id, an eviction leaves what there was of it, or it has evicted it. -/
theorem members_of_underway {type id : String} (ht : Plain type) :
    (id ∈ members o type m ↔ id ∈ members o type m₀) ∧
        (id ∈ members o type m₀ → p.AnswersFor engine.parsers type id → todo type id) ∨
      id ∉ members o type m ∧ p.AnswersFor engine.parsers type id := by
  rcases h.each type id ht with hsettled | ⟨hsame, htodo⟩
  · cases hsettled with
    | written e he => simp [Report.entitiesOf, Report.empty, StringMap.find] at he
    | evicted hgone absent => exact .inr ⟨absent, (evicts_empty.1 hgone).2⟩
  · exact .inl ⟨hsame.member, fun hid hanswers => htodo (.inr (evicts_empty.2 ⟨hid, hanswers⟩))⟩

theorem losesOnly_of_underway :
    LosesOnly Plain (p.AnswersFor engine.parsers) (cellIds o m₀) (cellIds o m) where
  subset type ht id hid := by
    rcases members_of_underway h ht with ⟨hsame, -⟩ | ⟨habsent, -⟩
    · exact hsame.1 hid
    · exact absurd hid habsent
  kept type ht id hid hnot := by
    rcases members_of_underway h ht with ⟨hsame, -⟩ | ⟨-, hanswers⟩
    · exact hsame.2 hid
    · exact absurd hanswers hnot

end Underway

/-- A store that can be evicted from. -/
structure InOrder (o : Options) (s : Store) : Prop where
  healthy : s.Healthy
  consistent : ∀ type, Plain type → Consistent o type s.cells

/-- However a merge of nothing ends, it evicts no more than the source answers for, and if it succeeds it
evicts all of that. -/
theorem leads_merge_empty {o : Options} {engine : Engine} {p : Profile}
    (hp : ∀ type ∈ p.authoritativeTypes, Plain type) {s s' : Store} (hs : InOrder o s)
    {result : Except Error MergeStats} (hleads : ((Backend.keyValue o).work (engine.mergeSnapshot p.source
      (.ofList p.authoritativeTypes) .empty)).Leads Store.faltering s s' result) :
    InOrder o s' ∧ LosesOnly Plain (p.AnswersFor engine.parsers) (cellIds o s.cells) (cellIds o s'.cells) ∧
      (result.isOk → ∀ type, Plain type → ∀ id ∈ cellIds o s'.cells type,
        ¬p.AnswersFor engine.parsers type id) := by
  obtain ⟨hhealthy, hcells⟩ := leads_work hs.healthy hleads
  have hauth : ∀ type ∈ (.ofList p.authoritativeTypes : StringSet), Plain type := fun type htype =>
    hp type (by simpa using htype)
  have hids : ∀ type, ((Report.entitiesOf .empty type).map Entity.id).Nodup := fun type => by
    simp [Report.entitiesOf, Report.empty, StringMap.find]
  have hsecures : Plan.Secures (partway o) (fun m => m = s.cells)
      (engine.mergeSnapshot p.source (.ofList p.authoritativeTypes) .empty) _ _ :=
    secures_mergeSnapshot hauth Report.suits_empty hids hs.consistent
  have hend := hsecures _ _ result rfl hcells
  cases result with
  | ok stats =>
      have hdone : Underway o _ _ _ (fun _ _ => False) s.cells s'.cells := hend
      refine ⟨⟨hhealthy, hdone.consistent⟩, losesOnly_of_underway hdone, fun _ type ht id hid hanswers => ?_⟩
      rcases members_of_underway hdone ht with ⟨hsame, htodo⟩ | ⟨habsent, -⟩
      · exact htodo (hsame.1 hid) hanswers
      · exact habsent hid
  | error e =>
      have hcut : s'.cells = s.cells ∨ _ ∧ Begun o _ _ _ s.cells s'.cells := hend
      rcases hcut with hsame | ⟨-, hbegun⟩
      · rw [hsame]
        exact ⟨⟨hhealthy, hsame ▸ hs.consistent⟩, .refl _, fun hok => by contradiction⟩
      · exact ⟨⟨hhealthy, hbegun.consistent⟩, losesOnly_of_underway hbegun, fun hok => by contradiction⟩

namespace Timeline

open Scheduler

variable {o : Options} {t t' u : Timeline (Backend.keyValue o).faltering}

/-- However the eviction of what an agent answers for ends, nothing else has gone, and if it succeeds all of
it has. -/
theorem exists_evictScope {k : Nat} (hk : ∀ type ∈ (t.scheduler.profileOf k).authoritativeTypes, Plain type)
    (hs : InOrder o t.scheduler.cache.1) :
    ∃ result s' faults activity, t.evictScope k =
        (result, { t with scheduler := { t.scheduler with cache := (s', faults), activity } }) ∧
      InOrder o s' ∧
      LosesOnly Plain ((t.scheduler.profileOf k).AnswersFor t.scheduler.engine.parsers)
        (cellIds o (Store.cells t.scheduler.cache.1)) (cellIds o s'.cells) ∧
      (result.isOk → ∀ type, Plain type → ∀ id ∈ cellIds o s'.cells type,
        ¬(t.scheduler.profileOf k).AnswersFor t.scheduler.engine.parsers type id) := by
  have hanswers : ∀ r (s : Store), s.Healthy → ∃ s' reply, (Backend.keyValue o).answer r s = (s', some reply) ∧
      Store.Healthy s' := by
    intro r s hs
    obtain ⟨s', hanswer, hs', -⟩ := hs.exists_answer r
    exact ⟨s', _, hanswer, hs'⟩
  obtain ⟨s', faults, result, hends, hleads⟩ := Backend.exists_endsIn_faltering hanswers
    ((Backend.keyValue o).work (t.scheduler.engine.mergeSnapshot (t.scheduler.profileOf k).source
      (.ofList (t.scheduler.profileOf k).authoritativeTypes) .empty)) hs.healthy t.scheduler.cache.2
  obtain ⟨activity, hwork⟩ := Timeline.exists_work _ hends
  exact ⟨result, s', faults, activity, hwork, leads_merge_empty hk hs hleads⟩

/-- Whether one of some agents answers for an id. -/
def AnswerFor (t : Timeline (Backend.keyValue o).faltering) (agents : List (String × Nat)) (type id : String) :
    Prop :=
  ∃ p ∈ agents, (t.scheduler.profileOf p.2).AnswersFor t.scheduler.engine.parsers type id

/-- The ids that are cached, by type. -/
abbrev cached (t : Timeline (Backend.keyValue o).faltering) : String → StringSet :=
  cellIds o (Store.cells t.scheduler.cache.1)

/-- The evictions for some agents leave nothing of what these answer for if they succeed, and never touch
anything else. -/
theorem losesOnly_evictScopes {agents : List (String × Nat)} {stats : MergeStats}
    {result : Except Error MergeStats}
    (hplain : ∀ p ∈ agents, ∀ type ∈ (t.scheduler.profileOf p.2).authoritativeTypes, Plain type)
    (hs : InOrder o t.scheduler.cache.1) (h : evictScopes stats t agents = (result, t')) :
    InOrder o t'.scheduler.cache.1 ∧ LosesOnly Plain (t.AnswerFor agents) t.cached t'.cached ∧
      (result.isOk → ∀ type, Plain type → ∀ id ∈ t'.cached type, ¬t.AnswerFor agents type id) := by
  induction agents generalizing stats t with
  | nil =>
      cases h
      exact ⟨hs, .refl _, fun _ _ _ _ _ ⟨_, hnone, _⟩ => List.not_mem_nil hnone⟩
  | cons p agents ih =>
      obtain ⟨first, s', faults, activity, hfirst, hs', hloses, hclears⟩ :=
        exists_evictScope (t := t.dropSlot p.1) (k := p.2) (hplain p List.mem_cons_self) hs
      rw [evictScopes, hfirst] at h
      cases first with
      | error e =>
          cases h
          exact ⟨hs', hloses.mono fun type id hanswers => ⟨p, List.mem_cons_self, hanswers⟩,
            fun hok => by contradiction⟩
      | ok more =>
          obtain ⟨hinOrder, hrest, hcleared⟩ := ih (t := { t.dropSlot p.1 with
              scheduler := { (t.dropSlot p.1).scheduler with cache := (s', faults), activity } })
            (fun q hq => hplain q (List.mem_cons_of_mem p hq)) hs' h
          refine ⟨hinOrder, (hloses.trans hrest).mono ?_, fun hok type ht id hid => ?_⟩
          · rintro type id (hanswers | ⟨q, hq, hanswers⟩)
            · exact ⟨p, List.mem_cons_self, hanswers⟩
            · exact ⟨q, List.mem_cons_of_mem p hq, hanswers⟩
          · rintro ⟨q, hq, hanswers⟩
            rcases List.mem_cons.1 hq with rfl | hq
            · exact hclears rfl type ht id (hrest.subset type ht id hid) hanswers
            · exact hcleared hok type ht id hid ⟨q, hq, hanswers⟩

/-- Nothing of what an agent answers for is cached. -/
def Bare (t : Timeline (Backend.keyValue o).faltering) (p : Profile) : Prop :=
  ∀ type id, p.AnswersFor t.scheduler.engine.parsers type id → id ∉ t.cached type

/-- Of the agents of an account no two answer for the same id. -/
theorem pairwise_ofAccount (hdivided : t.scheduler.registry.Divided t.scheduler.profileOf)
    (provider account : String) :
    (t.scheduler.registry.ofAccount t.scheduler.profileOf provider account).Pairwise fun p q =>
      (t.scheduler.profileOf p.2).Apart (t.scheduler.profileOf q.2) := by
  have hnames : (t.scheduler.registry.ofAccount t.scheduler.profileOf provider account).Pairwise
      fun p q => ¬compare p.1 q.1 = .eq :=
    Std.ExtTreeMap.distinct_keys_toList.sublist List.filter_sublist
  refine hnames.imp_of_mem fun {p q} hp hq hne => ?_
  exact hdivided.apart p.1 q.1 p.2 q.2 (Registry.getElem?_of_mem_ofAccount hp)
    (Registry.getElem?_of_mem_ofAccount hq) fun hname => hne (Std.LawfulEqCmp.compare_eq_iff_eq.2 hname)

/-- Evictions of which the last one has failed touch only what their agents answer for, and all but the last
have left nothing of that. -/
theorem losesOnly_of_failed {done : List (String × Nat)} {name : String} {k : Nat} {t₁ : Timeline _}
    {stats stats' : MergeStats} {e : Error}
    (hplain : ∀ p ∈ done ++ [(name, k)], ∀ type ∈ (t.scheduler.profileOf p.2).authoritativeTypes, Plain type)
    (hs : InOrder o t.scheduler.cache.1) (hdone : evictScopes stats t done = (.ok stats', t₁))
    (hfails : (t₁.dropSlot name).evictScope k = (.error e, t')) :
    LosesOnly Plain (t.AnswerFor (done ++ [(name, k)])) t.cached t'.cached ∧
      ∀ type, Plain type → ∀ id ∈ t'.cached type, ¬t.AnswerFor done type id := by
  have hkeeps := keepsAgents_evictScopes done stats t
  rw [hdone] at hkeeps
  have hprofiles : (t₁.dropSlot name).scheduler.profileOf = t.scheduler.profileOf := hkeeps.profiles
  have hengine : (t₁.dropSlot name).scheduler.engine = t.scheduler.engine := hkeeps.engine
  obtain ⟨hs₁, hfirst, hclears⟩ :=
    losesOnly_evictScopes (fun p hp => hplain p (List.mem_append_left _ hp)) hs hdone
  obtain ⟨result, s', faults, activity, hevict, -, hlast, -⟩ :=
    exists_evictScope (t := t₁.dropSlot name) (k := k)
      (fun type htype => hplain (name, k) (by simp) type (hprofiles ▸ htype)) hs₁
  rw [hprofiles, hengine] at hlast
  obtain ⟨-, rfl⟩ := Prod.mk.inj (hfails.symm.trans hevict)
  constructor
  · refine (hfirst.trans hlast).mono ?_
    rintro type id (⟨p, hp, hanswers⟩ | hanswers)
    · exact ⟨p, List.mem_append_left _ hp, hanswers⟩
    · exact ⟨(name, k), by simp, hanswers⟩
  · exact fun type ht id hid => hclears rfl type ht id (hlast.subset type ht id hid)

/-- Of the agents before the one whose eviction failed nothing is left, and of those after it everything. -/
theorem exists_remnants (hs : InOrder o t.scheduler.cache.1)
    (hdivided : t.scheduler.registry.Divided t.scheduler.profileOf)
    (hplain : ∀ k, t.scheduler.IsRegistered k →
      ∀ type ∈ (t.scheduler.profileOf k).authoritativeTypes, Plain type)
    {provider account : String} {e : Error} (h : t.deregisterAccount provider account = (.error e, t')) :
    ∃ done name k rest stats t₁,
      t.scheduler.registry.ofAccount t.scheduler.profileOf provider account = done ++ (name, k) :: rest ∧
      evictScopes {} (t.disbanded provider account) done = (.ok stats, t₁) ∧
      (t₁.dropSlot name).evictScope k = (.error e, t') ∧
      (∀ p ∈ done, t'.Bare (t.scheduler.profileOf p.2)) ∧
      ∀ p ∈ rest, (t'.Bare (t.scheduler.profileOf p.2) ↔ t.Bare (t.scheduler.profileOf p.2)) := by
  have hkeeps := keepsAgents_deregisterAccount t provider account
  rw [h] at hkeeps
  have hengine : t'.scheduler.engine = t.scheduler.engine := hkeeps.engine
  obtain ⟨done, name, k, rest, stats, t₁, hagents, hdone, hfails⟩ :=
    evictScopes_eq_error (t := t.disbanded provider account) h
  have hapart := pairwise_ofAccount hdivided provider account
  have htypes : ∀ p ∈ t.scheduler.registry.ofAccount t.scheduler.profileOf provider account,
      ∀ type ∈ (t.scheduler.profileOf p.2).authoritativeTypes, Plain type := fun p hp =>
    hplain p.2 ⟨p.1, Registry.getElem?_of_mem_ofAccount hp⟩
  -- whoever comes after the failure is apart from all that were evicted, the failing one included
  rw [hagents, List.append_cons] at hapart htypes
  obtain ⟨-, -, hothers⟩ := List.pairwise_append.1 hapart
  obtain ⟨hloses, hclears⟩ := losesOnly_of_failed (t := t.disbanded provider account)
    (fun p hp => htypes p (List.mem_append_left _ hp)) hs hdone hfails
  refine ⟨done, name, k, rest, stats, t₁, hagents, hdone, hfails, fun p hp type id hanswers hid => ?_,
    fun p hp => ?_⟩
  · rw [hengine] at hanswers
    exact hclears type (htypes p (by simp [hp]) type hanswers.1) id hid ⟨p, hp, hanswers⟩
  · rw [Bare, Bare, hengine]
    refine forall₂_congr fun type id => forall_congr' fun hanswers => not_congr ?_
    have ht := htypes p (List.mem_append_right _ hp) type hanswers.1
    exact hloses.mem_iff ht fun ⟨q, hq, hother⟩ => (hothers q hq p hp).not_answersFor hother hanswers

/-- A deregistration that failed is over, also once no request fails any more: to deregister the agent again
finds no agent, and to deregister the account again evicts nothing. So nothing of the agents of the account is
left then if and only if the eviction that failed has left nothing, and nothing was cached of the agents after
it. -/
theorem failed_deregistration_is_over {o : Options} {name : String}
    {t t' u : Timeline (Backend.keyValue o).faltering} {e : Error}
    (hattained : Attained o name t.scheduler.cache.1)
    (hdivided : t.scheduler.registry.Divided t.scheduler.profileOf)
    (hplain : ∀ k, t.scheduler.IsRegistered k →
      ∀ type ∈ (t.scheduler.profileOf k).authoritativeTypes, Plain type)
    (hu : KeepsAgents t'.scheduler u.scheduler) (hcache : u.scheduler.cache = (t'.scheduler.cache.1, [])) :
    (∀ agent, t.deregister agent true = (.error e, t') →
      u.deregister agent true = (.error (.unknownAgent agent), u)) ∧
    ∀ provider account, t.deregisterAccount provider account = (.error e, t') →
      u.deregisterAccount provider account = (.ok {}, u) ∧
      ∃ done name k rest stats t₁,
        t.scheduler.registry.ofAccount t.scheduler.profileOf provider account = done ++ (name, k) :: rest ∧
        evictScopes {} (t.disbanded provider account) done = (.ok stats, t₁) ∧
        (t₁.dropSlot name).evictScope k = (.error e, t') ∧
        ((∀ p ∈ done ++ (name, k) :: rest, u.Bare (t.scheduler.profileOf p.2)) ↔
          u.Bare (t.scheduler.profileOf k) ∧ ∀ p ∈ rest, t.Bare (t.scheduler.profileOf p.2)) := by
  refine ⟨fun agent h => deregister_again h hu, fun provider account h => ⟨deregisterAccount_again h hu, ?_⟩⟩
  have hplain₀ : Plain "" := by decide
  have hs : InOrder o t.scheduler.cache.1 :=
    ⟨(hattained.consistent hplain₀).1, fun type ht => (hattained.consistent ht).2⟩
  have hbare : ∀ p, u.Bare p ↔ t'.Bare p := fun p => by rw [Bare, Bare, cached, cached, hu.engine, hcache]
  obtain ⟨done, name, k, rest, stats, t₁, hagents, hevicts, hfails, hdone, hrest⟩ :=
    exists_remnants hs hdivided hplain h
  refine ⟨done, name, k, rest, stats, t₁, hagents, hevicts, hfails, ?_⟩
  simp only [hbare]
  constructor
  · intro hall
    exact ⟨hall (name, k) (by simp), fun p hp => (hrest p hp).1 (hall p (by simp [hp]))⟩
  · rintro ⟨hk, hafter⟩ p hp
    rcases List.mem_append.1 hp with hp | hp
    · exact hdone p hp
    · rcases List.mem_cons.1 hp with rfl | hp
      · exact hk
      · exact (hrest p hp).2 (hafter p hp)

/-! ## An example of two regions -/

/-- A bucket in each of two regions. -/
def twoBuckets : List Entity := [{ id := "cloud:bucket:prod:east:a" }, { id := "cloud:bucket:prod:west:a" }]

/-- A node with both buckets. -/
def bucketsOnNode : Store :=
  (((Backend.keyValue {}).work (CachePlan.write .union "bucket" twoBuckets)).follow Store.answer
    (.single { name := "kv" })).state

/-- The agents of both regions are registered, and the next request fails. -/
def atFault : Timeline (Backend.keyValue {}).faltering where
  scheduler := [Move.register (lister "east" []), .register (lister "west" [])].foldl Scheduler.after
    { cache := (bucketsOnNode, [some (.unavailable "kv" .readsFail)]) }

/-- The account has been deregistered, in vain, and the store works again. -/
def repaired : Timeline (Backend.keyValue {}).faltering :=
  let t := (atFault.deregisterAccount "cloud" "prod").2
  { t with scheduler := { t.scheduler with cache := (t.scheduler.cache.1, []) } }

/-- To deregister the account again succeeds and leaves the buckets of both its agents. -/
theorem buckets_outlast_deregistration :
    ("east", 0) ∈ atFault.scheduler.registry.ofAccount atFault.scheduler.profileOf "cloud" "prod" ∧
    (atFault.deregisterAccount "cloud" "prod").1.isOk = false ∧
    (repaired.deregisterAccount "cloud" "prod").1.isOk = true ∧
    ¬(repaired.deregisterAccount "cloud" "prod").2.Bare (atFault.scheduler.profileOf 0) := by
  refine ⟨by decide +kernel, by decide +kernel, by decide +kernel, fun hbare => ?_⟩
  have hcached : "cloud:bucket:prod:east:a" ∈
      (repaired.deregisterAccount "cloud" "prod").2.cached "bucket" := by decide +kernel
  exact hbare "bucket" _ ⟨by decide +kernel, by decide +kernel⟩ hcached

/-- The eviction for the first agent has failed, so there was nothing for its successor, and nothing of the
two is left only if nothing of them was there. -/
theorem two_regions_deregistered : ∃ e,
    Attained {} "kv" bucketsOnNode ∧ atFault.scheduler.registry.Divided atFault.scheduler.profileOf ∧
    (∀ k, atFault.scheduler.IsRegistered k →
      ∀ type ∈ (atFault.scheduler.profileOf k).authoritativeTypes, Plain type) ∧
    atFault.deregisterAccount "cloud" "prod" = (.error e, (atFault.deregisterAccount "cloud" "prod").2) ∧
    repaired.deregisterAccount "cloud" "prod" = (.ok {}, repaired) ∧
    (repaired.Bare (atFault.scheduler.profileOf 0) ∧ repaired.Bare (atFault.scheduler.profileOf 1) ↔
      repaired.Bare (atFault.scheduler.profileOf 0) ∧ atFault.Bare (atFault.scheduler.profileOf 1)) := by
  have hattained : Attained {} "kv" bucketsOnNode :=
    Attained.fresh.follow (regular_write (by decide) (by decide) (by simp [twoBuckets]))
  have hdivided : atFault.scheduler.registry.Divided atFault.scheduler.profileOf :=
    Registry.divided_foldl [.register 0, .register 1]
  have hagents : atFault.scheduler.registry.caching.toList = [("east", 0), ("west", 1)] := by decide +kernel
  have hplain : ∀ k, atFault.scheduler.IsRegistered k →
      ∀ type ∈ (atFault.scheduler.profileOf k).authoritativeTypes, Plain type := by
    rintro k ⟨name, hk⟩
    have hmem := Std.ExtTreeMap.mem_toList_iff_getElem?_eq_some.2 hk
    rw [hagents] at hmem
    simp only [List.mem_cons, List.not_mem_nil, or_false, Prod.mk.injEq] at hmem
    rcases hmem with ⟨-, rfl⟩ | ⟨-, rfl⟩ <;> decide +kernel
  obtain ⟨e, he⟩ : ∃ e, (atFault.deregisterAccount "cloud" "prod").1 = .error e :=
    Plan.exists_error_of_isOk (by decide +kernel)
  have hfails : atFault.deregisterAccount "cloud" "prod" =
      (.error e, (atFault.deregisterAccount "cloud" "prod").2) := Prod.ext he rfl
  have hkeeps : KeepsAgents (atFault.deregisterAccount "cloud" "prod").2.scheduler repaired.scheduler :=
    ⟨rfl, rfl, rfl, rfl⟩
  obtain ⟨hagain, done, name, k, rest, stats, t₁, hsplit, hdone, -, hleft⟩ :=
    (failed_deregistration_is_over hattained hdivided hplain hkeeps rfl).2 "cloud" "prod" hfails
  have hboth : atFault.scheduler.registry.ofAccount atFault.scheduler.profileOf "cloud" "prod" =
      [("east", 0), ("west", 1)] := by decide +kernel
  rw [hboth] at hsplit
  refine ⟨e, hattained, hdivided, hplain, hfails, hagain, ?_⟩
  cases done with
  | nil =>
      obtain ⟨⟨rfl, rfl⟩, rfl⟩ : ("east" = name ∧ 0 = k) ∧ [("west", 1)] = rest := by simpa using hsplit
      simpa using hleft
  | cons p done =>
      obtain ⟨rfl, hrest⟩ : ("east", 0) = p ∧ [("west", 1)] = done ++ (name, k) :: rest := by
        simpa using hsplit
      have hfirst : (evictScopes {} (atFault.disbanded "cloud" "prod") [("east", 0)]).1.isOk = false := by
        decide +kernel
      cases done with
      | nil =>
          rw [hdone] at hfirst
          contradiction
      | cons q done => simp at hrest

end Timeline

end Inventory
