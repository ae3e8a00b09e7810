import Inventory.Proofs.Merge.Ids
import Inventory.Proofs.Schedule.Deregistration
import Inventory.Proofs.Schedule.Chronicle
import Inventory.Proofs.Schedule.Snapshots

/-!
# Inventory.Proofs.Schedule.Retirement

What comes after an agent has been deregistered and its scope evicted.

Right after the call nothing of the agent is left (`Retires.exists_scheduler`). No execution of it begins any more
(`Passes.exists_inFlight`), but those in flight go on as if nothing had happened: one whose data is there in
time merges what its agent reports, and that is the only way in which ids come back (`evicted_until_reported`).
-/

namespace Inventory

namespace Scheduler

/-! ## Executions that load -/

/-- Whether an execution completes in a turn with a report that leaves an id. -/
def Turn.Reports {B : Backend} (t : Turn B) (e : Execution B) (type id : String) : Prop :=
  ∃ stats r, (e.id, .ok stats) ∈ t.after.outcomes ∧ (t.before.agentOf e.agent).report = .ok r ∧
    id ∈ r.ids type ∧ id ∉ Engine.explicitIds r type

section Settles

variable {medium : Medium} {s s₁ s' : Scheduler medium.backend} {e e' : Execution medium.backend}
  {move : Move medium.backend} {past : List (Turn medium.backend)}

/-- What an execution that does not merge yet does in a turn: it leaves what is cached alone, or it completes
and has merged what its agent reports. -/
inductive Settles (s : Scheduler medium.backend) (e : Execution medium.backend)
    (s' : Scheduler medium.backend) : Prop
  | idle (hview : medium.view s'.cache = medium.view s.cache)
      (houtcome : ∀ stats, (e.id, .ok stats) ∉ s'.outcomes)
  | completes (engine : Engine) (source : Source) (authoritative : StringSet) (stats : MergeStats)
      (r : Report) (hreport : (s.agentOf e.agent).report = .ok r)
      (houtcome : (e.id, .ok stats) ∈ s'.outcomes)
      (hends : medium.backend.EndsIn (engine.mergeSnapshot source authoritative r) s.cache s'.cache (.ok stats))

theorem settles_of_loads (hs₁ : Resembles s₁ s e.id) (hid : e'.id = e.id) (hagent : e'.agent = e.agent)
    (hold : ∀ result, (e.id, result) ∉ s.outcomes) (h : Loads s₁ e' s') : Settles s e s' := by
  rw [← hs₁.outcomes] at hold
  cases h with
  | waits => exact .idle (by rw [hs₁.cache]) fun stats => hold _
  | fails now cache activity error hsound hview =>
      refine .idle (by rw [← hs₁.cache]; exact hview) fun stats hmem => ?_
      rcases List.mem_cons.1 hmem with hnew | hmem
      · cases (Prod.mk.inj hnew).2
      · exact hold _ hmem
  | completes now cache activity stats r hreport hsound hends =>
      rw [hagent, hs₁.report] at hreport
      rw [hs₁.cache] at hends
      exact .completes _ _ _ stats r hreport (hid ▸ List.mem_cons_self) hends

theorem Chronicle.onExecution_eq (h : Chronicle past s) (he : e ∈ s.executions)
    (step : Execution medium.backend → Scheduler medium.backend) : s.onExecution e.id step = step e := by
  unfold onExecution
  cases hfind : s.executions.find? (·.id == e.id) with
  | none =>
      have hnone := List.find?_eq_none.1 hfind e he
      simp at hnone
  | some e' =>
      have hid : e'.id = e.id := by simpa using List.find?_some hfind
      rw [h.eq_of_id he (List.mem_of_find?_eq_some hfind) hid]

/-- A cache that answers leaves no merge in the middle. -/
theorem Makes.settles (h : Chronicle past s) (hsound : medium.Sound s.cache) (he : e ∈ s.executions)
    (hphase : e.isMerging = false) (hmove : move.execution? = some e.id) (hmakes : Makes s move s') :
    Settles s e s' := by
  have hold := h.not_mem_outcomes he
  have hself := Resembles.refl s e.id
  have hidle : Settles s e s := .idle rfl fun stats => hold _
  cases hmakes with
  | called hk hrunning => contradiction
  | dispatched hk hdue => contradiction
  | after move =>
      cases move with
      | grant now id =>
          obtain rfl := Option.some.inj hmove
          simp only [Scheduler.after, h.onExecution_eq he]
          split
          · let loading : Execution medium.backend :=
              { e with phase := .loading (s.readyAt now e) (s.deadlineAt now) }
            have hasked : medium.Sound (s.asked now e).cache := hsound
            have hloads : Loads (s.asked now e) loading (s.grant now e) := loads_load hasked now loading _ _
            have hid : loading.id = e.id := rfl
            exact settles_of_loads (resembles_asked s now e) hid rfl hold hloads
          · exact hidle
      | wake now id =>
          obtain rfl := Option.some.inj hmove
          simp only [Scheduler.after, h.onExecution_eq he, wake]
          cases hcase : e.phase with
          | waiting => exact hidle
          | loading ready deadline => exact settles_of_loads hself rfl rfl hold (loads_load hsound now e _ _)
          | merging source since deadline rest => simp [Execution.isMerging, hcase] at hphase
      | cancel now id =>
          obtain rfl := Option.some.inj hmove
          simp only [Scheduler.after, h.onExecution_eq he]
          exact settles_of_loads hself rfl rfl hold (.fails now s.cache s.activity _ hsound rfl)
      | _ => contradiction

/-- Ids come only with an execution that completes and whose agent has reported them. -/
theorem Settles.mem_ids_iff {type : String} (ht : medium.Tells type) (hsound : medium.Sound s.cache)
    (htakes : medium.TakesIds type (medium.view s.cache)) (h : Settles s e s') {id : String}
    (hid : id ∉ medium.ids type (medium.view s.cache)) :
    id ∈ medium.ids type (medium.view s'.cache) ↔ (⟨s, move, s'⟩ : Turn medium.backend).Reports e type id := by
  cases h with
  | idle hview houtcome =>
      rw [hview]
      exact ⟨fun h => absurd h hid, fun ⟨stats, _, hmem, _⟩ => absurd hmem (houtcome stats)⟩
  | completes engine source authoritative stats r hreport houtcome hends =>
      rw [(Medium.mem_ids_of_endsIn ht hsound htakes hends).2 id]
      constructor
      · rintro ⟨hmem, hnot⟩
        exact ⟨stats, r, houtcome, hreport, hmem.resolve_left hid, fun h => hnot (.inr h)⟩
      · rintro ⟨-, r', -, hreport', hmem, hnot⟩
        obtain rfl := Except.ok.inj (hreport.symm.trans hreport')
        refine ⟨.inr hmem, fun h => ?_⟩
        rcases h with hstale | hexplicit
        · exact KeepsIds.not_mem_ids_of_mem_staleOf engine source authoritative r hstale hmem
        · exact hnot hexplicit

end Settles

/-! ## Executions of agents that have left -/

section InFlight

variable {B : Backend} {start s s' : Scheduler B} {past turns : List (Turn B)} {move : Move B} {k : Nat}

/-- What is in flight after a turn of an execution was in flight before. -/
theorem Fares.exists_mem {e e₁ : Execution B} (h : Fares s move s' e₁) (he : e ∈ s'.executions) :
    ∃ e' ∈ s.executions, e'.id = e.id ∧ e'.agent = e.agent := by
  have hset : ∀ phase, e ∈ (s.setPhase e₁.id phase).executions →
      ∃ e' ∈ s.executions, e'.id = e.id ∧ e'.agent = e.agent := by
    intro phase hmem
    obtain ⟨e', he', rfl⟩ := List.mem_map.1 hmem
    refine ⟨e', he', ?_⟩
    split <;> exact ⟨rfl, rfl⟩
  cases h with
  | rests hleaves => exact ⟨e, hleaves.executions ▸ he, rfl, rfl⟩
  | loads _ _ _ hleaves => exact hset _ (hleaves.executions ▸ he)
  | fails _ _ _ hleaves => exact ⟨e, (List.mem_filter.1 (hleaves.executions ▸ he)).1, rfl, rfl⟩
  | merges _ _ _ _ _ _ hleaves => exact hset _ (hleaves.executions ▸ he)
  | ends _ _ _ hleaves => exact ⟨e, (List.mem_filter.1 (hleaves.executions ▸ he)).1, rfl, rfl⟩

/-- Of an agent that has left, nothing is in flight that was not when it left. -/
theorem Passes.exists_inFlight (hB : B.Blameless) (hstart : Chronicle past start) (hk : start.IsRetired k)
    (h : Passes start turns s) {e : Execution B} (he : e ∈ s.executions) (hagent : e.agent = k) :
    ∃ e' ∈ start.executions, e'.id = e.id ∧ e'.agent = k := by
  induction h generalizing e with
  | start => exact ⟨e, he, rfl, hagent⟩
  | turn hpast hmakes ih =>
      cases (hpast.chronicle hB hstart).course hB hmakes with
      | rests hleaves hcache => exact ih (hleaves.executions ▸ he) hagent
      | begins new hid hregistered hphase hmove hleaves hcache =>
          rcases List.mem_append.1 (hleaves.executions ▸ he) with hold | hnew
          · exact ih hold hagent
          -- only registered agents begin, and `k` does not come back
          · obtain rfl := List.mem_singleton.1 hnew
            exact absurd (hagent ▸ hregistered) (hpast.isRetired hk).2
      | refuses err herr hmove hleaves hcache => exact ih (hleaves.executions ▸ he) hagent
      | goes e₁ he₁ hmove hfares =>
          obtain ⟨e', he', hid, hsame⟩ := hfares.exists_mem he
          obtain ⟨e₀, he₀, hid', hagent'⟩ := ih he' (hsame.trans hagent)
          exact ⟨e₀, he₀, hid'.trans hid, hagent'⟩

end InFlight

end Scheduler

namespace Timeline

open Scheduler

/-! ## Calls that have succeeded -/

section Retires

variable {B : Backend} {t t' : Timeline B} {agents : List (String × Nat)}

/-- Agents have been deregistered, and what they answered for was evicted. -/
inductive Retires (t : Timeline B) : List (String × Nat) → Timeline B → Prop
  | agent {name : String} {k : Nat} {stats : Option MergeStats} {t' : Timeline B}
      (hk : t.scheduler.registry.caching[name]? = some k)
      (h : t.deregister name true = (.ok stats, t')) : Retires t [(name, k)] t'
  | account {provider account : String} {stats : MergeStats} {t' : Timeline B}
      (h : t.deregisterAccount provider account = (.ok stats, t')) :
      Retires t (t.scheduler.registry.ofAccount t.scheduler.profileOf provider account) t'

/-- Whether a registry is another one without some of its agents. -/
structure Without (agents : List (String × Nat)) (r r' : Registry) : Prop where
  registered : ∀ p ∈ agents, r.caching[p.1]? = some p.2
  gone : ∀ p ∈ agents, r'.caching[p.1]? = none
  kept : ∀ (name : String) (k : Nat), r'.caching[name]? = some k → r.caching[name]? = some k

/-- Either call takes agents out of the registry, and evicts for one after the other. -/
theorem Retires.exists_evictScopes (h : t.Retires agents t') : ∃ registry stats,
    Without agents t.scheduler.registry registry ∧
    evictScopes {} { t with scheduler := { t.scheduler with registry } } agents = (.ok stats, t') := by
  cases h with
  | @agent name k stats t' hk h =>
      refine ⟨t.scheduler.registry.deregister name, ?_⟩
      rw [deregister, hk] at h
      dsimp only at h
      rw [if_pos rfl] at h
      let gone : Timeline B :=
        { t with scheduler := { t.scheduler with registry := t.scheduler.registry.deregister name } }
      change (((gone.dropSlot name).evictScope k).1.map some, ((gone.dropSlot name).evictScope k).2) = _ at h
      rcases hevict : (gone.dropSlot name).evictScope k with ⟨result, t₁⟩
      rw [hevict] at h
      cases result with
      | error e => cases h
      | ok more =>
          cases h
          refine ⟨MergeStats.combine {} more, ⟨?_, ?_, fun _ _ => Registry.getElem?_deregister⟩, ?_⟩
          · rintro p hp
            obtain rfl := List.mem_singleton.1 hp
            exact hk
          · rintro p hp
            obtain rfl := List.mem_singleton.1 hp
            exact Registry.getElem?_deregister_self _ _
          · change evictScopes {} gone [(name, k)] = _
            rw [evictScopes, hevict]
            rfl
  | @account provider account stats t' h =>
      exact ⟨_, stats, ⟨fun p hp => Registry.getElem?_of_mem_ofAccount hp,
        fun p hp => Registry.getElem?_deregisterAccount_of_mem hp,
        fun _ _ => Registry.getElem?_deregisterAccount⟩, h⟩

/-- Who has left was registered under no other name. -/
theorem Retires.isRetired (h : t.Retires agents t') (hnamed : Named t.scheduler) {name : String} {k : Nat}
    (hk : (name, k) ∈ agents) : t'.scheduler.IsRetired k := by
  obtain ⟨registry, stats, hwithout, hevict⟩ := h.exists_evictScopes
  have hkeeps := keepsAgents_evictScopes agents {} { t with scheduler := { t.scheduler with registry } }
  rw [hevict] at hkeeps
  obtain ⟨hlt, hname⟩ := hnamed name k (hwithout.registered _ hk)
  refine ⟨Nat.lt_of_lt_of_eq hlt hkeeps.count.symm, ?_⟩
  rintro ⟨name', hk'⟩
  rw [hkeeps.registry] at hk'
  -- an agent knows its name, so the two names are one
  obtain ⟨-, hname'⟩ := hnamed name' k (hwithout.kept name' k hk')
  rw [← hname', hname, hwithout.gone _ hk] at hk'
  contradiction

end Retires

/-! ## Caches that answer -/

section Evicted

variable {medium : Medium} {type : String} {t t' : Timeline medium.backend} {agents : List (String × Nat)}

/-- In a cache that answers, an eviction that succeeds takes no time and leaves nothing of what the agent
answers for. -/
theorem evictScope_of_sound (ht : medium.Tells type) (hs : medium.Sound t.scheduler.cache)
    (htakes : medium.TakesIds type (medium.view t.scheduler.cache)) {k : Nat} {stats : MergeStats}
    (h : t.evictScope k = (.ok stats, t')) :
    ∃ cache activity, t' = { t with scheduler := { t.scheduler with cache, activity } } ∧
      medium.Sound cache ∧ medium.TakesIds type (medium.view cache) ∧
      ∀ id, id ∈ medium.ids type (medium.view cache) ↔
        id ∈ medium.ids type (medium.view t.scheduler.cache) ∧
          ¬(t.scheduler.profileOf k).AnswersFor t.scheduler.engine.parsers type id := by
  obtain ⟨cache, hends, hsound, -⟩ := Medium.exists_endsIn hs (t.scheduler.engine.mergeSnapshot
    (t.scheduler.profileOf k).source (.ofList (t.scheduler.profileOf k).authoritativeTypes) .empty)
  obtain ⟨activity, hwork⟩ := Timeline.exists_work _ hends
  obtain ⟨hresult, rfl⟩ := Prod.mk.inj (h.symm.trans hwork)
  rw [← hresult] at hends
  obtain ⟨htakes', hids⟩ := Medium.mem_ids_of_endsIn ht hs htakes hends
  refine ⟨cache, activity, rfl, hsound, htakes', fun id => ?_⟩
  have hnone : id ∉ Report.ids .empty type := by
    simp [Report.ids, Report.entitiesOf, Report.empty, StringMap.find]
  rw [hids, Profile.mem_staleOf_empty, explicitIds_empty]
  simp only [hnone, List.not_mem_nil, or_false, not_and]
  exact ⟨fun h => ⟨h.1, h.2 h.1⟩, fun h => ⟨h.1, fun _ => h.2⟩⟩

theorem evictScopes_of_sound (ht : medium.Tells type) (hs : medium.Sound t.scheduler.cache)
    (htakes : medium.TakesIds type (medium.view t.scheduler.cache)) {stats stats' : MergeStats}
    (h : evictScopes stats t agents = (.ok stats', t')) :
    ∃ slots cache activity, t' = { t with scheduler := { t.scheduler with slots, cache, activity } } ∧
      ∀ id, id ∈ medium.ids type (medium.view cache) ↔
        id ∈ medium.ids type (medium.view t.scheduler.cache) ∧
          ∀ p ∈ agents, ¬(t.scheduler.profileOf p.2).AnswersFor t.scheduler.engine.parsers type id := by
  induction agents generalizing stats t with
  | nil =>
      cases h
      exact ⟨_, _, _, rfl, fun id => by simp⟩
  | cons p agents ih =>
      rw [evictScopes] at h
      rcases hfirst : (t.dropSlot p.1).evictScope p.2 with ⟨result, t₁⟩
      rw [hfirst] at h
      cases result with
      | error e => cases h
      | ok more =>
          obtain ⟨cache, activity, rfl, hs₁, htakes₁, hids⟩ :=
            evictScope_of_sound (t := t.dropSlot p.1) ht hs htakes hfirst
          obtain ⟨slots, cache', activity', rfl, hrest⟩ := ih hs₁ htakes₁ h
          refine ⟨slots, cache', activity', rfl, fun id => ?_⟩
          rw [hrest, List.forall_mem_cons, ← and_assoc]
          exact and_congr_left fun _ => hids id

/-- Either call takes no time in a cache that answers. -/
theorem Retires.exists_scheduler (ht : medium.Tells type) (hs : medium.Sound t.scheduler.cache)
    (htakes : medium.TakesIds type (medium.view t.scheduler.cache)) (h : t.Retires agents t') :
    ∃ registry slots cache activity,
      t'.scheduler = { t.scheduler with registry, slots, cache, activity } ∧
      ∀ id, id ∈ medium.ids type (medium.view cache) ↔
        id ∈ medium.ids type (medium.view t.scheduler.cache) ∧
          ∀ p ∈ agents, ¬(t.scheduler.profileOf p.2).AnswersFor t.scheduler.engine.parsers type id := by
  obtain ⟨registry, stats, -, hevict⟩ := h.exists_evictScopes
  obtain ⟨slots, cache, activity, rfl, hids⟩ := evictScopes_of_sound
    (t := { t with scheduler := { t.scheduler with registry } }) ht hs htakes hevict
  exact ⟨registry, slots, cache, activity, rfl, hids⟩

end Evicted

/-- Once agents have been deregistered and evicted, nothing of what they answered for is cached, and none of
their executions begins. Those in flight go on: each leaves the cache alone as long as it has not begun to
merge, and then in a cache that answers ids come if and only if it completes with a report that names them. -/
theorem evicted_until_reported {medium : Medium} {type : String} (ht : medium.Tells type)
    {options : Schedule.Options} {engine : Engine} {cache : medium.backend.State}
    {past : List (Turn medium.backend)} {t t' : Timeline medium.backend}
    (hpast : Passes { options, engine, cache } past t.scheduler) (hs : medium.Sound t.scheduler.cache)
    (htakes : medium.TakesIds type (medium.view t.scheduler.cache)) {agents : List (String × Nat)}
    (hretires : t.Retires agents t') {name : String} {k : Nat} (hk : (name, k) ∈ agents) :
    (∀ id, (t.scheduler.profileOf k).AnswersFor engine.parsers type id →
      id ∉ medium.ids type (medium.view t'.scheduler.cache)) ∧
    ∀ {turns : List (Turn medium.backend)} {s : Scheduler medium.backend}, Passes t'.scheduler turns s →
      ∀ earlier b later, turns = earlier ++ b :: later → ∀ e ∈ b.before.executions, e.agent = k →
        (∃ e' ∈ t.scheduler.executions, e'.id = e.id ∧ e'.agent = k) ∧
        (b.move.execution? = some e.id →
          (b.after.cache ≠ b.before.cache → ∃ c ∈ past ++ earlier ++ [b], c.Begins e.id) ∧
          (e.isMerging = false → medium.Sound b.before.cache →
            medium.TakesIds type (medium.view b.before.cache) →
            ∀ id, id ∉ medium.ids type (medium.view b.before.cache) →
              (id ∈ medium.ids type (medium.view b.after.cache) ↔ b.Reports e type id))) := by
  have hB := medium.blameless
  have hretired := hretires.isRetired (hpast.named (named_fresh options engine cache)) hk
  have hchronicle : Chronicle past t.scheduler :=
    hpast.chronicle hB (Chronicle.fresh options engine cache)
  obtain ⟨registry, slots, evicted, activity, hsame, hids⟩ := hretires.exists_scheduler ht hs htakes
  have hengine : t.scheduler.engine = engine := hpast.engine
  rw [hsame] at hretired ⊢
  constructor
  · intro id hanswers hid
    rw [← hengine] at hanswers
    exact ((hids id).1 hid).2 (name, k) hk hanswers
  · intro turns s hturns earlier b later hsplit e he hagent
    obtain ⟨hearlier, hmakes⟩ := hturns.split hsplit
    -- the call leaves all executions as they are, so their past is told on from where it stood
    have hleft : Chronicle past { t.scheduler with registry, slots, cache := evicted, activity } :=
      { hchronicle with }
    have hbefore := hearlier.chronicle hB hleft
    refine ⟨hearlier.exists_inFlight hB hleft hretired he hagent, fun hmove => ⟨?_, ?_⟩⟩
    · intro htouches
      rcases hbefore.touches (hbefore.course hB hmakes) htouches with hwork | ⟨id, hid, hbegun⟩
      · rw [Move.execution?_of_isWork hwork] at hmove
        contradiction
      · obtain rfl := Option.some.inj (hid.symm.trans hmove)
        exact hbegun
    · intro hphase hsound htakes' id hid
      exact (hmakes.settles hbefore hsound he hphase hmove).mem_ids_iff ht hsound htakes' hid

/-! ## An example of an agent that leaves while it loads -/

/-- An agent that takes a second to list a bucket. -/
def slowLister : CachingAgent := { lister "east" ["a"] with delay := some ⟨1000000000⟩ }

/-- The agent is registered and called. -/
def calledOnce : List (Move (Medium.memory "memory").backend) :=
  [.register slowLister, .call 0 "east", .grant 0 0]

/-- The agent loads. -/
def loading : Timeline (Medium.memory "memory").backend where
  scheduler := calledOnce.foldl Scheduler.after unlisted

/-- The agent has been deregistered, and its scope evicted. -/
def departed : Timeline (Medium.memory "memory").backend := (loading.deregister "east" true).2

/-- The turn in which the agent has its data. -/
def reporting : Turn (Medium.memory "memory").backend where
  before := departed.scheduler
  move := .wake 1000000000 0
  after := departed.scheduler.after (.wake 1000000000 0)

/-- The agent has been deregistered and its scope evicted, no agent is registered any more, and then the
execution that is still in flight adds the bucket. -/
theorem bucket_added_after_eviction :
    (loading.deregister "east" true).1.isOk = true ∧ departed.scheduler.registry.caching.isEmpty = true ∧
    (loading.scheduler.profileOf 0).AnswersFor {} "bucket" "cloud:bucket:prod:east:a" ∧
    "cloud:bucket:prod:east:a" ∉
      (Medium.memory "memory").ids "bucket" ((Medium.memory "memory").view reporting.before.cache) ∧
    "cloud:bucket:prod:east:a" ∈
      (Medium.memory "memory").ids "bucket" ((Medium.memory "memory").view reporting.after.cache) :=
  ⟨by decide +kernel, by decide +kernel, ⟨by decide +kernel, by decide +kernel⟩, by decide +kernel,
    by decide +kernel⟩

/-- The execution that loads while its agent is deregistered completes a second later, and reports the
bucket. -/
theorem loading_agent_reports :
    Passes unlisted (turnsOf unlisted calledOnce) loading.scheduler ∧ loading.Retires [("east", 0)] departed ∧
    Passes departed.scheduler [reporting] reporting.after ∧
    ∃ e ∈ reporting.before.executions, e.agent = 0 ∧ e.isMerging = false ∧
      reporting.Reports e "bucket" "cloud:bucket:prod:east:a" := by
  have hpast := passes_turnsOf (.start : Passes unlisted [] unlisted) calledOnce
  have hretires : loading.Retires [("east", 0)] departed := by
    obtain ⟨stats, hstats⟩ := Plan.exists_of_isOk (x := (loading.deregister "east" true).1) (by decide +kernel)
    exact .agent (by decide +kernel) (Prod.ext hstats rfl)
  have hflight : departed.scheduler.executions.map (fun e => (e.id, e.agent, e.isMerging)) =
      [(0, 0, false)] := by decide +kernel
  obtain ⟨e, hexecutions, hfields⟩ := List.map_eq_singleton_iff.1 hflight
  simp only [Prod.mk.injEq] at hfields
  obtain ⟨hid, hagent, hphase⟩ := hfields
  have he : e ∈ reporting.before.executions := hexecutions ▸ List.mem_singleton_self e
  have hpasses : Passes departed.scheduler [reporting] reporting.after := .turn .start (.after _)
  refine ⟨hpast, hretires, hpasses, e, he, hagent, hphase, ?_⟩
  have ht : (Medium.memory "memory").Tells "bucket" := trivial
  obtain ⟨-, hlater⟩ := evicted_until_reported ht hpast trivial trivial hretires List.mem_cons_self
  obtain ⟨-, hturn⟩ := hlater hpasses [] reporting [] rfl e he hagent
  refine ((hturn (congrArg some hid.symm)).2 hphase trivial trivial _ ?_).1 ?_
  · decide +kernel
  · decide +kernel

end Timeline

end Inventory
