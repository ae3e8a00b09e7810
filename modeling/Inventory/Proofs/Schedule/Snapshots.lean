import Inventory.Proofs.Agent.Reports
import Inventory.Proofs.Schedule.Completions
import Inventory.Proofs.Schedule.Merges
import Inventory.Proofs.Schedule.Operations

/-!
# Inventory.Proofs.Schedule.Snapshots

What is cached in the scope of an agent is what it has last reported.

The agents are snapshot agents that inform nobody; they are registered, changed, called and dispatched
in any order, and nothing else works on the cache. Then the ids of a type are those of the last reports of
the agents with authority for it, each in the scope of its agent (`UpToDate`). No id is in two of these
scopes, so each agent finds in its own scope what it has last reported, and nothing if it has never
completed (`cached_scope_is_last_snapshot`).
-/

namespace Inventory

open Engine

/-! ## Merging a snapshot -/

section Merge

variable {medium : Medium} {c c' : medium.backend.State} {a : CachingAgent} {x : Snapshot} {r : Report}
  {engine : Engine} {stats : MergeStats} (hs : medium.Sound c) (hconduct : a.conduct = .snapshot x)
  (hx : x.informs = []) (hreport : a.report = .ok r)
  (hends : medium.backend.EndsIn (engine.mergeSnapshot a.profile.source
    (.ofList a.profile.authoritativeTypes) r) c c' (.ok stats))

include hs hconduct hx hreport hends

/-- If the report of an agent is merged, the agent answers for all its resources. -/
theorem Medium.contains_of_mem_keys (hparsers : engine.parsers.ReadBack)
    (hkeys : engine.validatesKeys = true) {id : String} (hid : id ∈ a.keys) :
    a.scope.contains engine.parsers id = true := by
  have hids : id ∈ r.ids x.type := by
    rw [(CachingAgent.report_snapshot hconduct hx hreport x.type).1, if_pos rfl]
    exact hid
  obtain ⟨key, hkey⟩ := parses_of_accepts hkeys (accepts_of_endsIn hs hends) hids
  obtain ⟨name, -, rfl⟩ : ∃ name ∈ x.names, a.keyOf x name = id := by
    simpa [CachingAgent.keys, hconduct] using hid
  exact CachingAgent.contains_keyOf hconduct hparsers hkey

/-- The merge leaves in the scope of the agent what it has reported, and beyond it what was there. -/
theorem Medium.mem_ids_of_snapshot {type : String} (ht : medium.Tells type)
    (htakes : medium.TakesIds type (medium.view c)) (id : String) :
    id ∈ medium.ids type (medium.view c') ↔
      if x.type = type then
        id ∈ a.keys ∨
          id ∈ medium.ids type (medium.view c) ∧ a.scope.contains engine.parsers id = false
      else id ∈ medium.ids type (medium.view c) := by
  obtain ⟨hids, hevictions⟩ := CachingAgent.report_snapshot hconduct hx hreport type
  have hexplicit : explicitIds r type = [] := by rw [explicitIds, hevictions]; rfl
  rw [(mem_ids_of_endsIn ht hs htakes hends).2, hexplicit, hids, staleOf,
    CachingAgent.authoritativeTypes_of_snapshot hconduct hx]
  by_cases htype : x.type = type
  · subst htype
    have hscope : a.profile.source.scope = a.scope := rfl
    rw [if_pos rfl, if_pos rfl, if_pos (by simp), staleIn, StringSet.mem_filter, hids, if_pos rfl, hscope]
    cases a.scope.contains engine.parsers id <;> by_cases hkey : id ∈ a.keys <;> simp [hkey]
  · rw [if_neg htype, if_neg htype, if_neg (by simpa using htype)]
    simp

end Merge

namespace Scheduler

/-! ## Being up to date -/

variable {medium : Medium} {parsers : KeyParsers} {s s' : Scheduler medium.backend}
  {last : Nat → StringSet} {k : Nat}

/-- All agents are snapshot agents, and the ids of a type are those that its agents have last reported. The
parsers read no text of a key as another key. -/
structure UpToDate (parsers : KeyParsers) (s : Scheduler medium.backend) (last : Nat → StringSet) :
    Prop where
  sound : medium.Sound s.cache
  takesIds : ∀ type, medium.Tells type → medium.TakesIds type (medium.view s.cache)
  engine : s.engine = { parsers }
  readBack : parsers.ReadBack
  agents : ∀ a ∈ s.agents, a.IsSnapshot medium.Tells
  divided : s.registry.Divided s.profileOf
  numbered : ∀ k, s.IsRegistered k → k < s.agents.length
  executions : ∀ e ∈ s.executions, e.isMerging = false ∧ s.IsRegistered e.agent
  cached : ∀ type, medium.Tells type → ∀ id, id ∈ medium.ids type (medium.view s.cache) ↔
    ∃ k, s.IsRegistered k ∧ type ∈ (s.profileOf k).authoritativeTypes ∧ id ∈ last k
  covered : ∀ k, ∀ id ∈ last k, (s.profileOf k).scope.contains parsers id = true
  unnumbered : ∀ k, s.agents.length ≤ k → last k = ∅

namespace UpToDate

theorem fresh {cache : medium.backend.State} (hcache : medium.IsFresh cache)
    (options : Schedule.Options) (hparsers : parsers.ReadBack) :
    UpToDate parsers ({ options, engine := { parsers }, cache } : Scheduler medium.backend)
      fun _ => ∅ where
  sound := hcache.sound
  takesIds type _ := hcache.view_eq.symm ▸ medium.takesIds_fresh type
  engine := rfl
  readBack := hparsers
  agents _ h := nomatch h
  divided := Registry.divided_empty
  numbered k h := by simp [IsRegistered] at h
  executions _ h := nomatch h
  cached type _ id := by simp [hcache.view_eq, medium.ids_fresh type]
  covered k id h := absurd h Std.ExtTreeSet.not_mem_empty
  unnumbered _ _ := rfl

variable (h : UpToDate parsers s last)

include h

/-! ## What is cached in the scope of an agent -/

theorem isSnapshot (hk : s.IsRegistered k) : (s.agentOf k).IsSnapshot medium.Tells := by
  have hlt := h.numbered k hk
  refine h.agents _ ?_
  rw [agentOf, List.getD_eq_getElem?_getD, List.getElem?_eq_getElem hlt]
  exact List.getElem_mem hlt

theorem apart {j : Nat} (hj : s.IsRegistered j) (hk : s.IsRegistered k) (hne : j ≠ k) :
    (s.profileOf j).Apart (s.profileOf k) := by
  obtain ⟨name, hj⟩ := hj
  obtain ⟨name', hk⟩ := hk
  refine h.divided.apart name name' j k hj hk fun hname => hne ?_
  subst hname
  exact Option.some.inj (hj.symm.trans hk)

/-- Of the ids of its type, those in the scope of an agent are the ones that it has last reported. -/
theorem mem_iff (hk : s.IsRegistered k) {type : String} (ht : medium.Tells type)
    (htype : type ∈ (s.profileOf k).authoritativeTypes) (id : String) :
    id ∈ last k ↔ id ∈ medium.ids type (medium.view s.cache) ∧
      (s.profileOf k).scope.contains parsers id = true := by
  constructor
  · intro hid
    exact ⟨(h.cached type ht id).2 ⟨k, hk, htype, hid⟩, h.covered k id hid⟩
  · rintro ⟨hmem, hscope⟩
    obtain ⟨j, hj, htype', hid⟩ := (h.cached type ht id).1 hmem
    by_cases hjk : j = k
    · exact hjk ▸ hid
    · have hnot := (h.apart hj hk hjk).not_contains htype' htype (h.covered j id hid)
      rw [hscope] at hnot
      contradiction

/-! ## Steps that merge nothing -/

theorem finish (now : Nat) (e : Execution medium.backend) (result : Except Error MergeStats) :
    UpToDate parsers (s.finish now e result) last :=
  { h with executions := fun e' he' => h.executions e' (List.mem_filter.1 he').1 }

theorem setPhase (id : Nat) (phase : Phase medium.backend)
    (hphase : ∀ e : Execution medium.backend, { e with phase }.isMerging = false) :
    UpToDate parsers (s.setPhase id phase) last :=
  { h with
    executions := fun e' he' => by
      obtain ⟨e, he, rfl⟩ := List.mem_map.1 he'
      split
      · exact ⟨hphase e, (h.executions e he).2⟩
      · exact h.executions e he }

theorem begin (hk : s.IsRegistered k) (now : Nat) (isDispatched : Bool) :
    UpToDate parsers (s.begin now k isDispatched) last := by
  have hadding : UpToDate parsers (s.adding (s.nextExecution now k isDispatched)) last :=
    { h with
      executions := fun e he => by
        rcases List.mem_append.1 he with hold | hnew
        · exact h.executions e hold
        · obtain rfl := List.mem_singleton.1 hnew
          exact ⟨rfl, hk⟩ }
  rw [begin_eq]
  dsimp only
  split
  · exact hadding.finish now _ _
  · exact hadding

theorem modifyAgent (number : Nat) {change : CachingAgent → CachingAgent}
    (hprofile : ∀ a, (change a).profile = a.profile)
    (hsnapshot : ∀ a, a.IsSnapshot medium.Tells → (change a).IsSnapshot medium.Tells) :
    UpToDate parsers (s.modifyAgent number change) last := by
  have hprofiles : (s.modifyAgent number change).profileOf = s.profileOf :=
    funext fun k => agentOf_modifyAgent CachingAgent.profile hprofile s number k
  have hlength : (s.modifyAgent number change).agents.length = s.agents.length := List.length_modify ..
  exact { h with
    agents := fun a ha => by
      obtain ⟨i, hi, rfl⟩ : ∃ i, ∃ hi : i < (s.agents.modify number change).length,
          (s.agents.modify number change)[i] = a := List.mem_iff_getElem.1 ha
      rw [List.getElem_modify]
      split
      · exact hsnapshot _ (h.agents _ (List.getElem_mem _))
      · exact h.agents _ (List.getElem_mem _)
    divided := hprofiles ▸ h.divided
    numbered := hlength ▸ h.numbered
    cached := hprofiles ▸ h.cached
    covered := hprofiles ▸ h.covered
    unnumbered := hlength ▸ h.unnumbered }

/-- An agent that is new has reported nothing yet. -/
theorem register {a : CachingAgent} (ha : a.IsSnapshot medium.Tells) (hs' : s.register a = .ok s') :
    UpToDate parsers s' last := by
  have hregistry := register_registry hs'
  have hprofile : ∀ k, s.IsRegistered k → s'.profileOf k = s.profileOf k := fun k hk => by
    rw [profileOf_register hs', if_neg (Nat.ne_of_lt (h.numbered k hk))]
  have hregistered := isRegistered_register hs'
  have heq := register_eq_ok hs'
  have hcache : s'.cache = s.cache := by rw [heq]
  have hlength : s'.agents.length = s.agents.length + 1 := by simp [heq]
  have hdivided : s.registry.Divided s'.profileOf :=
    h.divided.congr fun name k hk => hprofile k ⟨name, hk⟩
  have hexecutions : s'.executions = s.executions := by rw [heq]
  constructor
  · rw [hcache]
    exact h.sound
  · rw [hcache]
    exact h.takesIds
  · rw [heq]
    exact h.engine
  · exact h.readBack
  · rw [heq]
    exact List.forall_mem_append.2 ⟨h.agents, List.forall_mem_singleton.2 ha⟩
  · exact hdivided.register hregistry
  · intro k hk
    rcases (hregistered k).1 hk with hold | rfl
    · have hlt := h.numbered k hold
      omega
    · omega
  · rw [hexecutions]
    exact fun e he => ⟨(h.executions e he).1, (hregistered e.agent).2 (.inl (h.executions e he).2)⟩
  · intro type ht id
    rw [hcache, h.cached type ht id]
    refine exists_congr fun k => ?_
    rw [hregistered]
    constructor
    · rintro ⟨hk, htype, hid⟩
      exact ⟨.inl hk, hprofile k hk ▸ htype, hid⟩
    · rintro ⟨hk | rfl, htype, hid⟩
      · exact ⟨hk, hprofile k hk ▸ htype, hid⟩
      · rw [h.unnumbered _ (Nat.le_refl _)] at hid
        exact absurd hid Std.ExtTreeSet.not_mem_empty
  · intro k id hid
    by_cases hk : k = s.agents.length
    · rw [h.unnumbered k (Nat.le_of_eq hk.symm)] at hid
      exact absurd hid Std.ExtTreeSet.not_mem_empty
    · rw [profileOf_register hs', if_neg hk]
      exact h.covered k id hid
  · intro k hk
    exact h.unnumbered k (by omega)

/-! ## The step that merges -/

/-- What answers requests as before is as up to date as before. -/
theorem of_view {cache : medium.backend.State} (activity : List Activity) (hsound : medium.Sound cache)
    (hview : medium.view cache = medium.view s.cache) : UpToDate parsers { s with cache, activity } last :=
  { h with
    sound := hsound
    takesIds := hview ▸ h.takesIds
    cached := hview ▸ h.cached }

/-- Other ids take the place of those in the scope of an agent. What the other agents have last reported
is not in that scope, so it stays. -/
theorem mem_replaced (hk : s.IsRegistered k) {type : String} (ht : medium.Tells type)
    (htype : type ∈ (s.profileOf k).authoritativeTypes) (new : StringSet) (id : String) :
    (id ∈ new ∨ id ∈ medium.ids type (medium.view s.cache) ∧
        (s.profileOf k).scope.contains parsers id = false) ↔
      ∃ j, s.IsRegistered j ∧ type ∈ (s.profileOf j).authoritativeTypes ∧
        id ∈ if j = k then new else last j := by
  constructor
  · rintro (hnew | ⟨hmem, hscope⟩)
    · exact ⟨k, hk, htype, by rwa [if_pos rfl]⟩
    · obtain ⟨j, hj, htype', hid⟩ := (h.cached type ht id).1 hmem
      have hne : j ≠ k := fun hjk => by
        have hin := h.covered j id hid
        rw [hjk, hscope] at hin
        contradiction
      exact ⟨j, hj, htype', by rwa [if_neg hne]⟩
  · rintro ⟨j, hj, htype', hid⟩
    split at hid
    · exact .inl hid
    · next hne =>
      have hout := (h.apart hj hk hne).not_contains htype' htype (h.covered j id hid)
      exact .inr ⟨(h.cached type ht id).2 ⟨j, hj, htype', hid⟩, hout⟩

/-- After a merge the agent has last reported what has been merged. -/
theorem merged (hk : s.IsRegistered k) {r : Report} (hreport : (s.agentOf k).report = .ok r)
    {cache : medium.backend.State} {stats : MergeStats} (activity : List Activity)
    (hsound : medium.Sound cache)
    (hends : medium.backend.EndsIn (s.engine.mergeSnapshot (s.profileOf k).source
      (.ofList (s.profileOf k).authoritativeTypes) r) s.cache cache (.ok stats)) :
    UpToDate parsers { s with cache, activity } fun j => if j = k then (s.agentOf k).keys else last j := by
  obtain ⟨x, hconduct, hx, htx⟩ := h.isSnapshot hk
  rw [h.engine] at hends
  have hcovered : ∀ id ∈ (s.agentOf k).keys, (s.profileOf k).scope.contains parsers id = true :=
    fun id hid => Medium.contains_of_mem_keys h.sound hconduct hx hreport hends h.readBack rfl hid
  have hids : ∀ type, medium.Tells type → ∀ id, id ∈ medium.ids type (medium.view cache) ↔ _ :=
    fun type ht => Medium.mem_ids_of_snapshot h.sound hconduct hx hreport hends ht (h.takesIds type ht)
  have htypes : ∀ type, type ∈ (s.profileOf k).authoritativeTypes ↔ x.type = type := fun type => by
    rw [profileOf, CachingAgent.authoritativeTypes_of_snapshot hconduct hx, List.mem_singleton, eq_comm]
  refine { h with sound := hsound, takesIds := ?_, cached := ?_, covered := ?_, unnumbered := ?_ }
  · exact fun type ht => (Medium.mem_ids_of_endsIn ht h.sound (h.takesIds type ht) hends).1
  · intro type ht id
    rw [hids type ht id]
    by_cases htype : x.type = type
    · rw [if_pos htype]
      exact h.mem_replaced hk ht ((htypes type).2 htype) _ id
    · rw [if_neg htype, h.cached type ht id]
      refine exists_congr fun j => and_congr_right fun _ => and_congr_right fun hjtype => ?_
      have hne : j ≠ k := fun hjk => htype ((htypes type).1 (hjk ▸ hjtype))
      rw [if_neg hne]
  · intro j id hid
    split at hid
    · next hj => exact hj ▸ hcovered id hid
    · exact h.covered j id hid
  · intro j hj
    have hne : j ≠ k := fun hjk => Nat.not_lt.2 hj (hjk ▸ h.numbered k hk)
    exact (if_neg hne).trans (h.unnumbered j hj)

end UpToDate

/-! ## What a move does -/

/-- Whether a move registers a snapshot agent, adjusts an agent, or is one of those of which calls, looks
of the dispatcher and the passing of time are made. -/
def Move.IsRoutine {B : Backend} (tells : String → Prop) : Move B → Prop
  | .register a => a.IsSnapshot tells
  | .modifyAgent _ change _ => ∃ adjustment : Adjustment, change = adjustment.apply
  | move => move.isOwn = true

/-- A step leaves the cache up to date, and as it was unless it completes an execution. -/
def Updates (parsers : KeyParsers) (last : Nat → StringSet) (s s' : Scheduler medium.backend) : Prop :=
  UpToDate parsers s' (lastAfter last s s') ∧
    (completed s s' = [] → medium.view s'.cache = medium.view s.cache)

/-- A step that completes nothing. -/
theorem updates_of_quiet (h : UpToDate parsers s' last) (hcompleted : completed s s' = [])
    (hview : medium.view s'.cache = medium.view s.cache) : Updates parsers last s s' :=
  ⟨(lastAfter_of_eq_nil hcompleted).symm ▸ h, fun _ => hview⟩

/-- The agents and the outcomes are all that counts of where a step begins. -/
theorem Updates.congr {s₁ : Scheduler medium.backend} (h : Updates parsers last s₁ s')
    (hcache : s₁.cache = s.cache) (houtcomes : s₁.outcomes = s.outcomes)
    (hagents : ∀ id, (s₁.executions.find? (·.id == id)).map Execution.agent =
      (s.executions.find? (·.id == id)).map Execution.agent)
    (hkeys : ∀ k, (s₁.agentOf k).keys = (s.agentOf k).keys) : Updates parsers last s s' := by
  have hcompleted : completed s₁ s' = completed s s' := completed_congr houtcomes hagents
  have hlast : lastAfter last s₁ s' = lastAfter last s s' := by
    funext k
    rw [lastAfter, lastAfter, hcompleted, hkeys]
  exact ⟨hlast ▸ h.1, fun hnone => hcache ▸ h.2 (hcompleted.trans hnone)⟩

namespace UpToDate

variable {e : Execution medium.backend} (h : UpToDate parsers s last)

include h

/-- An execution that loads. -/
theorem loads (hk : s.IsRegistered e.agent)
    (he : (s.executions.find? (·.id == e.id)).map Execution.agent = some e.agent)
    (hs' : Loads s e s') : Updates parsers last s s' := by
  cases hs' with
  | waits => exact updates_of_quiet h (completed_of_eq rfl) rfl
  | fails now cache activity error hsound hview =>
      exact updates_of_quiet ((h.of_view activity hsound hview).finish now e _)
        (completed_of_error rfl) hview
  | completes now cache activity stats r hreport hsound hends =>
      have hcompleted : completed s ({ s with cache, activity }.finish now e (.ok stats)) = [e.agent] :=
        completed_of_ok rfl he
      have hlast : lastAfter last s ({ s with cache, activity }.finish now e (.ok stats)) =
          fun j => if j = e.agent then (s.agentOf e.agent).keys else last j := by
        funext j
        rw [lastAfter, hcompleted]
        by_cases hj : j = e.agent <;> simp [hj]
      refine ⟨hlast ▸ (h.merged hk hreport activity hsound hends).finish now e _, fun hnone => ?_⟩
      rw [hcompleted] at hnone
      contradiction

/-- An execution that begins ends at once only after a shutdown, with an error. -/
theorem updates_begin (hk : s.IsRegistered k) (slots : Schedule.Slots) (now : Nat) (isDispatched : Bool) :
    Updates parsers last s ({ s with slots }.begin now k isDispatched) := by
  have hbegin : UpToDate parsers ({ s with slots }.begin now k isDispatched) last :=
    begin (s := { s with slots }) { h with } hk now isDispatched
  have hends : completed s ({ s with slots }.begin now k isDispatched) = [] ∧
      ({ s with slots }.begin now k isDispatched).cache = s.cache := by
    rw [begin_eq]
    dsimp only
    split
    · exact ⟨completed_of_error rfl, rfl⟩
    · exact ⟨completed_of_eq rfl, rfl⟩
  exact updates_of_quiet hbegin hends.1 (by rw [hends.2])

theorem asked (now : Nat) (e : Execution medium.backend) : UpToDate parsers (s.asked now e) last := by
  have hpermit : UpToDate parsers { s with permits := s.permits - 1 } last := { h with }
  have hphase := hpermit.setPhase e.id (.loading (s.readyAt now e) (s.deadlineAt now)) fun _ => rfl
  have hobserved : UpToDate parsers (({ s with permits := s.permits - 1 }.setPhase e.id
      (.loading (s.readyAt now e) (s.deadlineAt now))).observe now e.name .started) last :=
    { hphase with }
  rw [Scheduler.asked]
  exact hobserved.modifyAgent e.agent (fun _ => rfl) fun _ ha => ha

/-- An execution that gets its permit. -/
theorem updates_grant (hk : s.IsRegistered e.agent)
    (he : (s.executions.find? (·.id == e.id)).map Execution.agent = some e.agent) (now : Nat) :
    Updates parsers last s (s.grant now e) := by
  have hagents : ∀ id, ((s.asked now e).executions.find? (·.id == id)).map Execution.agent =
      (s.executions.find? (·.id == id)).map Execution.agent :=
    find?_setPhase { s with permits := s.permits - 1 } e.id _
  have hkeys : ∀ k, ((s.asked now e).agentOf k).keys = (s.agentOf k).keys :=
    @agentOf_modifyAgent _ _ CachingAgent.keys (fun a => { a with calls := a.calls + 1 }) (fun _ => rfl)
      _ e.agent
  have hasked := h.asked now e
  let loading : Execution medium.backend :=
    { e with phase := .loading (s.readyAt now e) (s.deadlineAt now) }
  have hloads : Loads (s.asked now e) loading (s.grant now e) := loads_load hasked.sound now loading _ _
  have hupdates := hasked.loads (e := loading) hk ((hagents e.id).trans he) hloads
  exact hupdates.congr rfl rfl hagents hkeys

theorem updates_onExecution (id : Nat) {step : Execution medium.backend → Scheduler medium.backend}
    (hstep : ∀ e ∈ s.executions, s.executions.find? (·.id == e.id) = some e →
      Updates parsers last s (step e)) : Updates parsers last s (s.onExecution id step) := by
  unfold onExecution
  split
  · next e he =>
    have hid : e.id = id := by simpa using List.find?_some he
    exact hstep e (List.mem_of_find?_eq_some he) (hid.symm ▸ he)
  · exact updates_of_quiet h (completed_of_eq rfl) rfl

/-- A routine move keeps the cache up to date. -/
theorem after {move : Move medium.backend} (hmove : move.IsRoutine medium.Tells) :
    Updates parsers last s (s.after move) := by
  cases move with
  | register a =>
      cases hs' : s.register a with
      | error err =>
          simp only [Scheduler.after, hs']
          exact updates_of_quiet h (completed_of_eq rfl) rfl
      | ok s' =>
          simp only [Scheduler.after, hs']
          have heq := register_eq_ok hs'
          exact updates_of_quiet (h.register hmove hs') (completed_of_eq (by rw [heq])) (by rw [heq])
  | modifyAgent number change keeps =>
      obtain ⟨adjustment, rfl⟩ := hmove
      exact updates_of_quiet (h.modifyAgent number (CachingAgent.profile_adjusted adjustment)
        fun a ha => ha.adjusted adjustment) (completed_of_eq rfl) rfl
  | deregister => contradiction
  | deregisterAccount => contradiction
  | dropSlot => contradiction
  | call now agent =>
      dsimp only [Scheduler.after]
      split
      · exact updates_of_quiet h (completed_of_eq rfl) rfl
      · next k hk =>
        split
        · exact updates_of_quiet { h with } (completed_of_eq rfl) rfl
        · exact h.updates_begin ⟨agent, hk⟩ _ now false
  | dispatch now agent =>
      dsimp only [Scheduler.after]
      split
      · exact updates_of_quiet h (completed_of_eq rfl) rfl
      · next k hk =>
        dsimp only [Scheduler.dispatch]
        split
        · exact h.updates_begin ⟨agent, hk⟩ _ now true
        · exact updates_of_quiet { h with } (completed_of_eq rfl) rfl
  | retain nextTick => exact updates_of_quiet { h with } (completed_of_eq rfl) rfl
  | grant now id =>
      refine h.updates_onExecution id fun e hmem he => ?_
      split
      · exact h.updates_grant (h.executions e hmem).2 (by rw [he]; rfl) now
      · exact updates_of_quiet h (completed_of_eq rfl) rfl
  | wake now id =>
      refine h.updates_onExecution id fun e hmem he => ?_
      obtain ⟨hmerging, hk⟩ := h.executions e hmem
      cases hphase : e.phase with
      | waiting => simpa only [wake, hphase] using updates_of_quiet h (completed_of_eq rfl) rfl
      | loading ready deadline =>
          have hloads := loads_load h.sound now e ready deadline
          simpa only [wake, hphase] using h.loads hk (by rw [he]; rfl) hloads
      | merging => simp [Execution.isMerging, hphase] at hmerging
  | cancel now id =>
      exact h.updates_onExecution id fun e _ _ =>
        updates_of_quiet (h.finish now e _) (completed_of_error rfl) rfl
  | stop => exact updates_of_quiet { h with } (completed_of_eq rfl) rfl
  | work => contradiction

theorem foldl {moves : List (Move medium.backend)}
    (hmoves : ∀ move ∈ moves, move.IsRoutine medium.Tells) :
    UpToDate parsers (moves.foldl Scheduler.after s) (lastKeys last s moves) := by
  induction moves generalizing s last with
  | nil => exact h
  | cons move moves ih =>
      exact ih (h.after (hmoves move List.mem_cons_self)).1 fun m hm =>
        hmoves m (List.mem_cons_of_mem _ hm)

end UpToDate

/-- Whatever snapshot agents are registered and however they are changed, called and dispatched, the
cached ids of the type of a registered agent that are in its scope are the keys that it has reported when
it last completed, and none if it never has. Whatever ends otherwise, or does not begin, changes nothing
that is cached. Of the parsers it counts only that they read no text of a key as another key, which holds of
all that read the common layout. -/
theorem cached_scope_is_last_snapshot {medium : Medium} {cache : medium.backend.State}
    (hcache : medium.IsFresh cache) (options : Schedule.Options) (hparsers : parsers.ReadBack)
    {moves : List (Move medium.backend)} (hmoves : ∀ move ∈ moves, move.IsRoutine medium.Tells) :
    let start : Scheduler medium.backend := { options, engine := { parsers }, cache }
    let s := moves.foldl Scheduler.after start
    (∀ (name : String) (k : Nat), s.registry.caching[name]? = some k →
      ∃ x, (s.agentOf k).conduct = .snapshot x ∧
        ∃ ids, medium.backend.Replies s.cache (.identifiers x.type) (.ok ids) ∧
          ids.filter ((s.agentOf k).scope.contains parsers) = lastKeys (fun _ => ∅) start moves k) ∧
    ∀ move : Move medium.backend, move.IsRoutine medium.Tells → completed s (s.after move) = [] →
      medium.view (s.after move).cache = medium.view s.cache := by
  intro start s
  have h : UpToDate parsers s (lastKeys (fun _ => ∅) start moves) :=
    (UpToDate.fresh hcache options hparsers).foldl hmoves
  refine ⟨fun name k hk => ?_, fun move hmove => (h.after hmove).2⟩
  have hregistered : s.IsRegistered k := ⟨name, hk⟩
  obtain ⟨x, hconduct, hx, ht⟩ := h.isSnapshot hregistered
  have hreply := Medium.replies_ids ht h.sound (h.takesIds x.type ht)
  have htype : x.type ∈ (s.profileOf k).authoritativeTypes := by
    rw [profileOf, CachingAgent.authoritativeTypes_of_snapshot hconduct hx]
    exact List.mem_singleton_self _
  refine ⟨x, hconduct, _, hreply, Std.ExtTreeSet.ext_mem fun id => ?_⟩
  rw [StringSet.mem_filter, h.mem_iff hregistered ht htype id]
  rfl

/-! ## An example of two regions -/

/-- Changes a snapshot agent that is registered. -/
def Move.adjust {B : Backend} (number : Nat) (adjustment : Adjustment) : Move B :=
  .modifyAgent number adjustment.apply fun a =>
    congrArg Profile.agent (CachingAgent.profile_adjusted adjustment a)

/-- An agent that lists the buckets of a region. -/
def lister (region : String) (names : List String) : CachingAgent :=
  { name := region, provider := "cloud", account := "prod", region := some region
    conduct := .snapshot { type := "bucket", names } }

/-- An agent for each of two regions is registered and completes, and then the first one finds other
buckets and fails to load them. -/
def listed : List (Move (Medium.memory "memory").backend) :=
  [.register (lister "east" ["a", "b:c"]), .register (lister "west" ["a"]),
    .call 0 "east", .grant 0 0, .call 0 "west", .grant 0 1,
    .adjust 0 (.setNames ["d"]), .adjust 0 (.setFail true), .call 1 "east"]

/-- Nothing has been cached. -/
def unlisted : Scheduler (Medium.memory "memory").backend := { cache := (Medium.memory "memory").fresh }

theorem isRoutine_listed : ∀ move ∈ listed, move.IsRoutine (Medium.memory "memory").Tells := by
  have hlister : ∀ region names, (lister region names).IsSnapshot (Medium.memory "memory").Tells :=
    fun region names => ⟨{ type := "bucket", names }, rfl, rfl, trivial⟩
  simp [listed, Move.IsRoutine, Move.isOwn, Move.adjust, hlister]

/-- The first agent keeps in its region what it has last listed, when the other one completes and when
its own next run fails. -/
theorem two_regions_listed :
    (Medium.memory "memory").IsFresh unlisted.cache ∧
    KeyParsers.ReadBack {} ∧ (∀ move ∈ listed, move.IsRoutine (Medium.memory "memory").Tells) ∧
    let s := listed.foldl Scheduler.after unlisted
    (∃ ids, (Medium.memory "memory").backend.Replies s.cache (.identifiers "bucket") (.ok ids) ∧
      (ids.filter ((s.agentOf 0).scope.contains {})).toList =
        ["cloud:bucket:prod:east:a", "cloud:bucket:prod:east:b%3Ac"]) ∧
    completed s (s.after (.grant 1 2)) = [] ∧
    (Medium.memory "memory").view (s.after (.grant 1 2)).cache = (Medium.memory "memory").view s.cache := by
  have hfresh : (Medium.memory "memory").IsFresh unlisted.cache := (Medium.memory "memory").isFresh_fresh
  have hparsers : KeyParsers.ReadBack {} := KeyParsers.areCommon_empty.readBack
  have h := cached_scope_is_last_snapshot hfresh {} hparsers isRoutine_listed
  have hregistered : (listed.foldl Scheduler.after unlisted).registry.caching["east"]? = some 0 := by
    decide +kernel
  have hlast : (lastKeys (fun _ => ∅) unlisted listed 0).toList =
      ["cloud:bucket:prod:east:a", "cloud:bucket:prod:east:b%3Ac"] := by decide +kernel
  have hfails : completed (listed.foldl Scheduler.after unlisted)
      ((listed.foldl Scheduler.after unlisted).after (.grant 1 2)) = [] := by decide +kernel
  obtain ⟨x, hconduct, ids, hreply, hids⟩ :
      ∃ x, ((listed.foldl Scheduler.after unlisted).agentOf 0).conduct = .snapshot x ∧ _ :=
    h.1 "east" 0 hregistered
  have htypes : ((listed.foldl Scheduler.after unlisted).agentOf 0).types.head? =
      some ⟨"bucket", true⟩ := by decide +kernel
  have htype : x.type = "bucket" := by
    rw [CachingAgent.types, hconduct] at htypes
    exact congrArg DataType.name (Option.some.inj htypes)
  refine ⟨hfresh, hparsers, isRoutine_listed, ⟨ids, htype ▸ hreply, ?_⟩, hfails, h.2 (.grant 1 2) rfl hfails⟩
  rw [← hlast]
  exact congrArg Std.ExtTreeSet.toList hids

end Scheduler

end Inventory
