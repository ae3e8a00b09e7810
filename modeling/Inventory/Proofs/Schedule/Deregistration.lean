import Inventory.Proofs.Merge.Index
import Inventory.Proofs.Schedule.Registered

/-!
# Inventory.Proofs.Schedule.Deregistration

What a deregistration that failed leaves to do.

Agents leave the registry before what they had authority for is evicted, one after the other up to the first
failure (`evictScopes_eq_error`). So whoever deregisters them again finds none of them, over whatever backend
(`deregister_again`, `deregisterAccount_again`).
-/

namespace Inventory

/-! ## What an agent answers for -/

namespace Profile

variable {p q : Profile} {parsers : KeyParsers} {type id : String}

/-- Whether an agent answers for an id: it has authority for the type, and the id is in its scope. -/
def AnswersFor (p : Profile) (parsers : KeyParsers) (type id : String) : Prop :=
  type ∈ p.authoritativeTypes ∧ p.scope.contains parsers id = true

theorem Apart.not_answersFor (h : p.Apart q) (hp : p.AnswersFor parsers type id) :
    ¬q.AnswersFor parsers type id := by
  rintro ⟨hq, hscope⟩
  rw [h.not_contains hp.1 hq hp.2] at hscope
  contradiction

/-- An agent that has reported nothing has made stale what it answers for. -/
theorem mem_staleOf_empty {engine : Engine} {before : StringSet} :
    id ∈ engine.staleOf p.source (.ofList p.authoritativeTypes) .empty type before ↔
      id ∈ before ∧ p.AnswersFor engine.parsers type id := by
  have hnone : (Report.ids .empty type).contains id = false := by
    simp [Report.ids, Report.entitiesOf, Report.empty, StringMap.find]
  rw [Engine.staleOf, AnswersFor]
  by_cases htype : type ∈ p.authoritativeTypes
  · rw [if_pos (by simpa using htype), Engine.staleIn, StringSet.mem_filter]
    simp [htype, hnone, source]
  · rw [if_neg (by simpa using htype)]
    simp [htype]

end Profile

theorem explicitIds_empty (type : String) : Engine.explicitIds .empty type = [] := by
  simp [Engine.explicitIds, Report.evictionsOf, Report.empty, StringMap.find]

/-- Ids have gone that are among some, and none has come. -/
structure LosesOnly (tells : String → Prop) (among : String → String → Prop)
    (before after : String → StringSet) : Prop where
  subset : ∀ type, tells type → ∀ id ∈ after type, id ∈ before type
  kept : ∀ type, tells type → ∀ id ∈ before type, ¬among type id → id ∈ after type

namespace LosesOnly

variable {tells : String → Prop} {among among' : String → String → Prop}
  {before between after : String → StringSet}

theorem refl (ids : String → StringSet) : LosesOnly tells among ids ids :=
  ⟨fun _ _ _ h => h, fun _ _ _ h _ => h⟩

theorem trans (h₁ : LosesOnly tells among before between) (h : LosesOnly tells among' between after) :
    LosesOnly tells (fun type id => among type id ∨ among' type id) before after where
  subset type ht id hid := h₁.subset type ht id (h.subset type ht id hid)
  kept type ht id hid hnot :=
    h.kept type ht id (h₁.kept type ht id hid fun hfirst => hnot (.inl hfirst))
      fun hsecond => hnot (.inr hsecond)

/-- What is not among the ids that may go is there as before. -/
theorem mem_iff (h : LosesOnly tells among before after) {type id : String} (ht : tells type)
    (hnot : ¬among type id) : id ∈ after type ↔ id ∈ before type :=
  ⟨h.subset type ht id, fun hid => h.kept type ht id hid hnot⟩

theorem mono (h : LosesOnly tells among before after) (hmono : ∀ type id, among type id → among' type id) :
    LosesOnly tells among' before after where
  subset := h.subset
  kept type ht id hid hnot := h.kept type ht id hid fun hamong => hnot (hmono type id hamong)

end LosesOnly

/-! ## Registries that agents have left -/

namespace Registry

variable {profileOf : Nat → Profile} {r : Registry}

theorem getElem?_deregister_self (r : Registry) (agent : String) :
    (r.deregister agent).caching[agent]? = none := by
  simp [deregister]

/-- The agents of an account are registered. -/
theorem getElem?_of_mem_ofAccount {provider account name : String} {k : Nat}
    (h : (name, k) ∈ r.ofAccount profileOf provider account) : r.caching[name]? = some k :=
  Std.ExtTreeMap.mem_toList_iff_getElem?_eq_some.1 (List.mem_filter.1 h).1

theorem getElem?_deregisterAccount_of_mem {provider account name : String} {k : Nat}
    (h : (name, k) ∈ r.ofAccount profileOf provider account) :
    (r.deregisterAccount profileOf provider account).caching[name]? = none := by
  rw [deregisterAccount, StringMap.getElem?_eraseMany, if_pos (List.mem_map.2 ⟨(name, k), h, rfl⟩)]

theorem ofAccount_deregisterAccount (r : Registry) (profileOf : Nat → Profile) (provider account : String) :
    (r.deregisterAccount profileOf provider account).ofAccount profileOf provider account = [] := by
  rw [ofAccount, List.filter_eq_nil_iff]
  rintro ⟨name, k⟩ hmem hof
  have hleft := Std.ExtTreeMap.mem_toList_iff_getElem?_eq_some.1 hmem
  have hthere := Std.ExtTreeMap.mem_toList_iff_getElem?_eq_some.2 (getElem?_deregisterAccount hleft)
  rw [getElem?_deregisterAccount_of_mem (List.mem_filter.2 ⟨hthere, hof⟩)] at hleft
  contradiction

end Registry

namespace Timeline

open Scheduler

variable {B : Backend} {t t' u : Timeline B}

/-! ## Work that is over at once -/

/-- Work of which every request is answered takes no time. -/
theorem exists_work {α : Type} (limit : Option Limit) {work : B.Work α} {cache : B.State}
    {result : Except Error α} (h : work.EndsIn B.answer t.scheduler.cache cache result) :
    ∃ activity, t.work limit work =
      (result, { t with scheduler := { t.scheduler with cache, activity } }) := by
  induction work generalizing t with
  | done result =>
      obtain ⟨rfl, hprogress⟩ := h
      obtain rfl := Plan.Progress.ended.inj hprogress
      exact ⟨_, rfl⟩
  | note a next ih =>
      exact ih (t := { t with scheduler := { t.scheduler with activity := a :: t.scheduler.activity } }) h
  | ask r next ih =>
      obtain ⟨cache₁, reply, hreply, hends⟩ := Plan.endsIn_ask.1 h
      obtain ⟨activity, hwork⟩ := ih reply
        (t := { t with scheduler := { t.scheduler with cache := cache₁ } }) hends
      refine ⟨activity, ?_⟩
      rw [Timeline.work, hreply]
      exact hwork

/-! ## Evictions one after the other -/

/-- The agents of an account have left the registry, and what they answer for has still to be evicted. -/
def disbanded (t : Timeline B) (provider account : String) : Timeline B :=
  t.modify fun _ s => { s with registry := s.registry.deregisterAccount s.profileOf provider account }

theorem deregisterAccount_eq (t : Timeline B) (provider account : String) :
    t.deregisterAccount provider account = evictScopes {} (t.disbanded provider account)
      (t.scheduler.registry.ofAccount t.scheduler.profileOf provider account) := rfl

theorem keepsAgents_dropSlot (t : Timeline B) (agent : String) :
    KeepsAgents t.scheduler (t.dropSlot agent).scheduler := ⟨rfl, rfl, rfl, rfl⟩

theorem keepsAgents_evictScopes (agents : List (String × Nat)) (stats : MergeStats) (t : Timeline B) :
    KeepsAgents t.scheduler (evictScopes stats t agents).2.scheduler := by
  induction agents generalizing stats t with
  | nil => exact .refl _
  | cons p agents ih =>
      have hfirst := (keepsAgents_dropSlot t p.1).trans (keepsAgents_evictScope (t.dropSlot p.1) p.2)
      rw [evictScopes]
      split
      · rename_i e t₁ h
        rwa [h] at hfirst
      · rename_i more t₁ h
        rw [h] at hfirst
        exact hfirst.trans (ih _ t₁)

theorem keepsAgents_deregisterAccount (t : Timeline B) (provider account : String) :
    KeepsAgents (t.disbanded provider account).scheduler (t.deregisterAccount provider account).2.scheduler :=
  keepsAgents_evictScopes _ _ _

/-- Evictions fail with the first that does; those after it are not tried. -/
theorem evictScopes_eq_error {agents : List (String × Nat)} {stats : MergeStats} {e : Error}
    (h : evictScopes stats t agents = (.error e, t')) :
    ∃ done name k rest stats₁ t₁, agents = done ++ (name, k) :: rest ∧
      evictScopes stats t done = (.ok stats₁, t₁) ∧ (t₁.dropSlot name).evictScope k = (.error e, t') := by
  induction agents generalizing stats t with
  | nil => cases h
  | cons p agents ih =>
      rw [evictScopes] at h
      split at h
      · rename_i e' t₁ hfirst
        cases h
        exact ⟨[], p.1, p.2, agents, stats, t, rfl, rfl, hfirst⟩
      · rename_i more t₁ hfirst
        obtain ⟨done, name, k, rest, stats₁, t₂, rfl, hdone, hfails⟩ := ih h
        refine ⟨p :: done, name, k, rest, stats₁, t₂, rfl, ?_, hfails⟩
        rw [evictScopes, hfirst]
        exact hdone

/-! ## Deregistering again -/

/-- However a deregistration has ended, the agent is not registered afterwards. -/
theorem deregister_again {agent : String} {evict : Bool} {result : Except Error (Option MergeStats)}
    (h : t.deregister agent evict = (result, t')) (hu : KeepsAgents t'.scheduler u.scheduler) :
    u.deregister agent evict = (.error (.unknownAgent agent), u) := by
  have hgone : u.scheduler.registry.caching[agent]? = none := by
    rw [hu.registry]
    unfold deregister at h
    split at h
    · rename_i hnone
      cases h
      exact hnone
    · rename_i k hk
      let gone := (t.modify fun _ s => { s with registry := s.registry.deregister agent }).dropSlot agent
      have hself : gone.scheduler.registry.caching[agent]? = none :=
        Registry.getElem?_deregister_self t.scheduler.registry agent
      dsimp only at h
      split at h
      · cases h
        rw [(keepsAgents_evictScope gone k).registry]
        exact hself
      · cases h
        exact hself
  rw [deregister, hgone]

/-- However a deregistration has ended, no agent of the account is registered afterwards. -/
theorem deregisterAccount_again {provider account : String} {result : Except Error MergeStats}
    (h : t.deregisterAccount provider account = (result, t')) (hu : KeepsAgents t'.scheduler u.scheduler) :
    u.deregisterAccount provider account = (.ok {}, u) := by
  have hkeeps := keepsAgents_deregisterAccount t provider account
  rw [h] at hkeeps
  have hall := hkeeps.trans hu
  have hregistry : u.scheduler.registry =
      t.scheduler.registry.deregisterAccount t.scheduler.profileOf provider account := hall.registry
  have hprofiles : u.scheduler.profileOf = t.scheduler.profileOf := hall.profiles
  have hnone : u.scheduler.registry.ofAccount u.scheduler.profileOf provider account = [] := by
    rw [hregistry, hprofiles]
    exact Registry.ofAccount_deregisterAccount _ _ _ _
  have hself : u.scheduler.registry.deregisterAccount u.scheduler.profileOf provider account =
      u.scheduler.registry := by
    rw [Registry.deregisterAccount, hnone]
    rfl
  rw [deregisterAccount_eq, hnone]
  simp only [evictScopes, disbanded, modify, hself]

end Timeline

end Inventory
