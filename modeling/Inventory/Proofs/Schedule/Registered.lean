import Inventory.Proofs.Schedule.Turns

/-!
# Inventory.Proofs.Schedule.Registered

Which agents are registered, and for how long.

Whatever a scheduler does by itself, and whatever time passes, the agents and the registry stay as they are
(`KeepsAgents`). Agents are numbered in the order in which they are registered, so an agent that is no longer
registered under its number never is again (`Passes.isRetired`).
-/

namespace Inventory

namespace Scheduler

variable {B : Backend} {s s₁ s' start : Scheduler B} {k : Nat}

/-! ## Steps that leave the agents alone -/

/-- Whether a step changes neither the registry nor what agents declare. -/
structure KeepsAgents (s s' : Scheduler B) : Prop where
  registry : s'.registry = s.registry
  engine : s'.engine = s.engine
  count : s'.agents.length = s.agents.length
  profiles : s'.profileOf = s.profileOf

theorem KeepsAgents.refl (s : Scheduler B) : KeepsAgents s s := ⟨rfl, rfl, rfl, rfl⟩

theorem KeepsAgents.trans (h₁ : KeepsAgents s s₁) (h : KeepsAgents s₁ s') : KeepsAgents s s' where
  registry := h.registry.trans h₁.registry
  engine := h.engine.trans h₁.engine
  count := h.count.trans h₁.count
  profiles := h.profiles.trans h₁.profiles

theorem keepsAgents_finish (s : Scheduler B) (now : Nat) (e : Execution B)
    (result : Except Error MergeStats) : KeepsAgents s (s.finish now e result) := ⟨rfl, rfl, rfl, rfl⟩

theorem keepsAgents_proceed (s : Scheduler B) (now : Nat) (e : Execution B) (source : Source)
    (deadline : Nat) (work : B.Work MergeStats) : KeepsAgents s (s.proceed now e source deadline work) := by
  have hfollow : KeepsAgents s (s.follow work).1 := ⟨rfl, rfl, rfl, rfl⟩
  unfold proceed
  split
  · rename_i s₁ result h
    rw [h] at hfollow
    exact hfollow.trans (keepsAgents_finish _ _ _ _)
  · rename_i s₁ rest h
    rw [h] at hfollow
    split
    · exact hfollow.trans (keepsAgents_finish _ _ _ _)
    · exact hfollow.trans ⟨rfl, rfl, rfl, rfl⟩

theorem keepsAgents_load (s : Scheduler B) (now : Nat) (e : Execution B) (ready deadline : Nat) :
    KeepsAgents s (s.load now e ready deadline) := by
  unfold load
  split
  · cases (s.agentOf e.agent).report with
    | error err => exact keepsAgents_finish _ _ _ _
    | ok r =>
        dsimp only [loaded]
        split
        · exact keepsAgents_finish _ _ _ _
        · exact keepsAgents_proceed _ _ _ _ _ _
  · split
    · exact keepsAgents_finish _ _ _ _
    · exact .refl s

/-- To ask an agent for its data changes nothing of what it declares. -/
theorem keepsAgents_asked (s : Scheduler B) (now : Nat) (e : Execution B) : KeepsAgents s (s.asked now e) where
  registry := rfl
  engine := rfl
  count := List.length_modify ..
  profiles := funext (@agentOf_modifyAgent _ _ CachingAgent.profile (fun a => { a with calls := a.calls + 1 })
    (fun _ => rfl) _ e.agent)

theorem keepsAgents_grant (s : Scheduler B) (now : Nat) (e : Execution B) :
    KeepsAgents s (s.grant now e) :=
  (keepsAgents_asked s now e).trans (keepsAgents_load _ _ _ _ _)

theorem keepsAgents_wake (s : Scheduler B) (now : Nat) (e : Execution B) : KeepsAgents s (s.wake now e) := by
  unfold wake
  cases e.phase with
  | waiting => exact .refl s
  | loading ready deadline => exact keepsAgents_load _ _ _ _ _
  | merging source since deadline rest =>
      dsimp only
      split
      · exact keepsAgents_proceed _ _ _ _ _ _
      · split
        · exact keepsAgents_finish _ _ _ _
        · exact .refl s

theorem keepsAgents_begin (s : Scheduler B) (now k : Nat) (isDispatched : Bool) :
    KeepsAgents s (s.begin now k isDispatched) := by
  rw [begin_eq]
  dsimp only
  split <;> exact ⟨rfl, rfl, rfl, rfl⟩

theorem keepsAgents_dispatch (s : Scheduler B) (now : Nat) (name : String) (k : Nat) :
    KeepsAgents s (s.dispatch now name k) := by
  have hslots : KeepsAgents s { s with slots := s.slots.claimIfDue now name } := ⟨rfl, rfl, rfl, rfl⟩
  unfold dispatch
  dsimp only
  split
  · exact hslots.trans (keepsAgents_begin _ _ _ _)
  · exact hslots

theorem keepsAgents_onExecution {id : Nat} {step : Execution B → Scheduler B}
    (hstep : ∀ e, KeepsAgents s (step e)) : KeepsAgents s (s.onExecution id step) :=
  onExecution_induction id (.refl s) fun e _ => hstep e

/-! ### Several steps -/

theorem keepsAgents_foldl {β : Type} {step : Scheduler B → β → Scheduler B}
    (hstep : ∀ s x, KeepsAgents s (step s x)) (l : List β) (s : Scheduler B) :
    KeepsAgents s (l.foldl step s) := by
  induction l generalizing s with
  | nil => exact .refl s
  | cons x l ih => exact (hstep s x).trans (ih (step s x))

theorem keepsAgents_grantAll (now limit : Nat) (s : Scheduler B) :
    KeepsAgents s (grantAll now limit s) := by
  induction limit generalizing s with
  | zero => exact .refl s
  | succ limit ih =>
      unfold grantAll
      split
      · exact .refl s
      · split
        · exact (keepsAgents_grant s now _).trans (ih _)
        · exact .refl s

theorem keepsAgents_tick (s : Scheduler B) (now : Nat) : KeepsAgents s (s.tick now) := by
  have hslots : ∀ slots nextTick, KeepsAgents s { s with slots, nextTick } := fun _ _ => ⟨rfl, rfl, rfl, rfl⟩
  have hdispatch : ∀ (s : Scheduler B) (p : String × Nat), KeepsAgents s (s.dispatch now p.1 p.2) :=
    fun s p => keepsAgents_dispatch s now p.1 p.2
  exact (hslots _ _).trans (keepsAgents_foldl hdispatch _ _)

theorem keepsAgents_wakeAll (s : Scheduler B) (now : Nat) : KeepsAgents s (s.wakeAll now) := by
  have hwake := keepsAgents_foldl (fun (s : Scheduler B) e => keepsAgents_wake s now e) s.executions s
  unfold wakeAll
  dsimp only
  split
  · split
    · exact (hwake.trans (keepsAgents_tick _ now)).trans (keepsAgents_grantAll _ _ _)
    · exact hwake.trans (keepsAgents_grantAll _ _ _)
  · exact hwake.trans (keepsAgents_grantAll _ _ _)

end Scheduler

/-! ## Time that passes -/

namespace Timeline

open Scheduler

variable {B : Backend}

theorem keepsAgents_pass (stop : Scheduler B → Bool) (target : Nat) (t : Timeline B) :
    KeepsAgents t.scheduler (t.pass stop target).scheduler := by
  fun_induction pass stop target t with
  | case1 t hstop => exact .refl _
  | case2 t hstop next hnext hlt ih => exact (keepsAgents_wakeAll _ next).trans ih
  | case3 t hstop next hnext hlt => exact .refl _
  | case4 t hstop hnext => exact .refl _

theorem keepsAgents_work {α : Type} (limit : Option Limit) (t : Timeline B) (work : B.Work α) :
    KeepsAgents t.scheduler (t.work limit work).2.scheduler := by
  induction work generalizing t with
  | done result => exact .refl _
  | note a next ih =>
      have hnote : KeepsAgents t.scheduler { t.scheduler with activity := a :: t.scheduler.activity } :=
        ⟨rfl, rfl, rfl, rfl⟩
      exact hnote.trans (ih { t with scheduler := { t.scheduler with activity := a :: t.scheduler.activity } })
  | ask r next ih =>
      let asked : Timeline B :=
        { t with scheduler := { t.scheduler with cache := (B.answer r t.scheduler.cache).1 } }
      have hask : KeepsAgents t.scheduler asked.scheduler := ⟨rfl, rfl, rfl, rfl⟩
      rw [Timeline.work]
      dsimp only
      split
      · exact hask.trans (ih _ asked)
      · split
        · exact hask.trans (keepsAgents_pass _ _ asked)
        · exact (hask.trans (keepsAgents_pass _ _ asked)).trans (ih _ _)

/-- An eviction leaves the agents as they are, however long it takes. -/
theorem keepsAgents_evictScope (t : Timeline B) (k : Nat) :
    KeepsAgents t.scheduler (t.evictScope k).2.scheduler := keepsAgents_work _ _ _

end Timeline

namespace Scheduler

variable {B : Backend} {s s' start : Scheduler B} {k : Nat}

/-! ## Numbers -/

/-- Agents are registered under their own names, and by their own numbers. -/
def Named (s : Scheduler B) : Prop :=
  ∀ (name : String) (k : Nat), s.registry.caching[name]? = some k → k < s.agents.length ∧
    (s.profileOf k).agent = name

theorem KeepsAgents.isRegistered (h : KeepsAgents s s') : s'.IsRegistered k ↔ s.IsRegistered k := by
  rw [IsRegistered, h.registry, IsRegistered]

theorem KeepsAgents.named (h : KeepsAgents s s') (hs : Named s) : Named s' := by
  rw [Named, h.registry, h.count, h.profiles]
  exact hs

/-- What a move does to the agents: none comes back, and new ones have new numbers. -/
structure Enrols (s s' : Scheduler B) : Prop where
  engine : s'.engine = s.engine
  count : s.agents.length ≤ s'.agents.length
  registered : ∀ k, s'.IsRegistered k → s.IsRegistered k ∨ k = s.agents.length
  named : Named s → Named s'

theorem KeepsAgents.enrols (h : KeepsAgents s s') : Enrols s s' where
  engine := h.engine
  count := Nat.le_of_eq h.count.symm
  registered _ hk := .inl (h.isRegistered.1 hk)
  named := h.named

/-- Of the registered agents some may go. -/
theorem enrols_of_getElem? {registry : Registry} (slots : Schedule.Slots)
    (h : ∀ (name : String) (k : Nat), registry.caching[name]? = some k → s.registry.caching[name]? = some k) :
    Enrols s { s with registry, slots } where
  engine := rfl
  count := Nat.le_refl _
  registered k hk := by
    obtain ⟨name, hname⟩ := hk
    exact .inl ⟨name, h name k hname⟩
  named hs name k hname := hs name k (h name k hname)

theorem enrols_register {a : CachingAgent} (hs' : s.register a = .ok s') : Enrols s s' where
  engine := by rw [register_eq_ok hs']
  count := by rw [register_eq_ok hs']; simp
  registered k hk := (isRegistered_register hs' k).1 hk
  named hs name k hname := by
    rw [profileOf_register hs']
    obtain rfl := register_eq_ok hs'
    rw [Std.ExtTreeMap.getElem?_insert] at hname
    split at hname
    · rename_i hsame
      obtain rfl := Option.some.inj hname
      rw [if_pos rfl]
      exact ⟨by simp, by simpa [CachingAgent.profile] using hsame⟩
    · obtain ⟨hlt, hagent⟩ := hs name k hname
      rw [if_neg (Nat.ne_of_lt hlt)]
      exact ⟨by simp; omega, hagent⟩

theorem enrols_modifyAgent (s : Scheduler B) (number : Nat) {change : CachingAgent → CachingAgent}
    (keeps : ∀ a, (change a).name = a.name) : Enrols s (s.modifyAgent number change) where
  engine := rfl
  count := Nat.le_of_eq (List.length_modify ..).symm
  registered _ hk := .inl hk
  named hs name k hname := by
    obtain ⟨hlt, hagent⟩ := hs name k hname
    refine ⟨by simpa [Scheduler.modifyAgent] using hlt, ?_⟩
    have hkept := agentOf_modifyAgent CachingAgent.name keeps s number k
    exact hkept.trans hagent

/-- Every move does no more than this to the agents. -/
theorem enrols_after (s : Scheduler B) (move : Move B) : Enrols s (s.after move) := by
  have hself : Enrols s s := (KeepsAgents.refl s).enrols
  cases move with
  | register a =>
      cases hs' : s.register a with
      | error e => simpa [Scheduler.after, hs'] using hself
      | ok s' => simpa [Scheduler.after, hs'] using enrols_register hs'
  | modifyAgent number change keeps => exact enrols_modifyAgent s number keeps
  | deregister agent =>
      simp only [Scheduler.after]
      split
      · exact enrols_of_getElem? _ fun _ _ => Registry.getElem?_deregister
      · exact hself
  | deregisterAccount provider account =>
      exact enrols_of_getElem? s.slots fun _ _ => Registry.getElem?_deregisterAccount
  | dropSlot agent => exact KeepsAgents.enrols ⟨rfl, rfl, rfl, rfl⟩
  | call now agent =>
      simp only [Scheduler.after]
      split
      · exact hself
      · split
        · exact KeepsAgents.enrols ⟨rfl, rfl, rfl, rfl⟩
        · have hclaimed : KeepsAgents s (s.claimed now agent) := ⟨rfl, rfl, rfl, rfl⟩
          exact (hclaimed.trans (keepsAgents_begin _ _ _ _)).enrols
  | dispatch now agent =>
      simp only [Scheduler.after]
      split
      · exact hself
      · exact (keepsAgents_dispatch s now agent _).enrols
  | retain nextTick => exact KeepsAgents.enrols ⟨rfl, rfl, rfl, rfl⟩
  | grant now id =>
      refine (keepsAgents_onExecution fun e => ?_).enrols
      split
      · exact keepsAgents_grant s now e
      · exact .refl s
  | wake now id => exact (keepsAgents_onExecution fun e => keepsAgents_wake s now e).enrols
  | cancel now id => exact (keepsAgents_onExecution fun e => keepsAgents_finish s now e _).enrols
  | stop => exact KeepsAgents.enrols ⟨rfl, rfl, rfl, rfl⟩
  | work cache activity => exact KeepsAgents.enrols ⟨rfl, rfl, rfl, rfl⟩

theorem Makes.enrols {move : Move B} (hmakes : Makes s move s') : Enrols s s' := by
  cases hmakes with
  | called hk hrunning => exact KeepsAgents.enrols ⟨rfl, rfl, rfl, rfl⟩
  | dispatched hk hdue => exact KeepsAgents.enrols ⟨rfl, rfl, rfl, rfl⟩
  | after move => exact enrols_after s move

/-! ## Agents that have left -/

/-- Whether an agent was registered once and no longer is. -/
def IsRetired (s : Scheduler B) (k : Nat) : Prop := k < s.agents.length ∧ ¬s.IsRegistered k

/-- An agent that has left does not come back under its number. -/
theorem Enrols.isRetired (h : Enrols s s') (hk : s.IsRetired k) : s'.IsRetired k := by
  obtain ⟨hlt, hnot⟩ := hk
  refine ⟨Nat.lt_of_lt_of_le hlt h.count, fun hregistered => ?_⟩
  rcases h.registered k hregistered with hold | rfl
  · exact hnot hold
  · exact Nat.lt_irrefl _ hlt

theorem Passes.isRetired {turns : List (Turn B)} (h : Passes start turns s) (hk : start.IsRetired k) :
    s.IsRetired k := by
  induction h with
  | start => exact hk
  | turn hpast hmakes ih => exact hmakes.enrols.isRetired ih

theorem named_fresh (options : Schedule.Options) (engine : Engine) (cache : B.State) :
    Named ({ options, engine, cache } : Scheduler B) := fun name k h => by simp at h

theorem Passes.named {turns : List (Turn B)} (h : Passes start turns s) (hstart : Named start) : Named s := by
  induction h with
  | start => exact hstart
  | turn hpast hmakes ih => exact hmakes.enrols.named ih

theorem Passes.engine {turns : List (Turn B)} (h : Passes start turns s) : s.engine = start.engine := by
  induction h with
  | start => rfl
  | turn hpast hmakes ih => exact hmakes.enrols.engine.trans ih

end Scheduler

end Inventory
