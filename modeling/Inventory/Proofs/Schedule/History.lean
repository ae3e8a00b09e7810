import Inventory.Proofs.Agent.Authority
import Inventory.Proofs.Plan.Run
import Inventory.Proofs.Schedule.Executions
import Inventory.Schedule.Timeline

/-!
# Inventory.Proofs.Schedule.History

When an agent is at work at most once.

A history of a scheduler is any sequence of moves, in any order and at any times: agents are registered
and deregistered, called and looked at, and executions get permits, load, merge and end. To the executions
in flight a move can do only a few things (`Amounts`).

As long as no agent in flight loses its mark while it is registered, or is registered without it, no two
executions in flight are of the same agent. The first move that breaks this lets the next call begin a
second one (`one_execution_each`).
-/

namespace Inventory

namespace Scheduler

variable {B : Backend} {s s' : Scheduler B}

/-! ## Moves -/

/-- A move in the life of a scheduler. -/
inductive Move (B : Backend) where
  | register (a : CachingAgent)
  /-- Changes a caching agent, but not its name. -/
  | modifyAgent (number : Nat) (change : CachingAgent → CachingAgent)
      (keeps : ∀ a, (change a).name = a.name)
  | deregister (agent : String)
  /-- Removes the agents of an account from the registry. -/
  | deregisterAccount (provider account : String)
  /-- Drops the slot of an agent of an account that is being deregistered. -/
  | dropSlot (agent : String)
  | call (now : Nat) (agent : String)
  /-- The dispatcher looks at an agent. -/
  | dispatch (now : Nat) (agent : String)
  /-- The dispatcher drops the slots of the agents that are not registered. -/
  | retain (nextTick : Option Nat)
  /-- Gives a permit to a waiting execution. -/
  | grant (now id : Nat)
  /-- An execution goes on: its data is there or took too long, or a request of its merge was not
  answered or took too long. -/
  | wake (now id : Nat)
  | cancel (now id : Nat)
  /-- Nothing is dispatched from now on. -/
  | stop
  /-- Something else works on the cache. -/
  | work (cache : B.State) (activity : List Activity)

namespace Move

/-- The execution that a move is about, if it is about one. -/
def execution? : Move B → Option Nat
  | .grant _ id | .wake _ id | .cancel _ id => some id
  | _ => none

/-- Whether a move is a shutdown. -/
def IsStop : Move B → Prop
  | .stop => True
  | _ => False

/-- Whether a move is work on the cache by something else than an execution. -/
def IsWork : Move B → Prop
  | .work .. => True
  | _ => False

theorem execution?_of_isWork {move : Move B} (h : move.IsWork) : move.execution? = none := by
  cases move with
  | work => rfl
  | _ => exact h.elim

end Move

/-- Does something with the execution of an id, if it is in flight. -/
def onExecution (s : Scheduler B) (id : Nat) (step : Execution B → Scheduler B) : Scheduler B :=
  match s.executions.find? (·.id == id) with
  | some e => step e
  | none => s

/-- Makes a move; one that is not possible changes nothing. -/
def after (s : Scheduler B) : Move B → Scheduler B
  | .register a =>
    match s.register a with
    | .ok s' => s'
    | .error _ => s
  | .modifyAgent number change _ => s.modifyAgent number change
  | .deregister agent =>
    if agent ∈ s.registry.caching then
      { s with registry := s.registry.deregister agent, slots := s.slots.erase agent }
    else s
  | .deregisterAccount provider account =>
    { s with registry := s.registry.deregisterAccount s.profileOf provider account }
  | .dropSlot agent => { s with slots := s.slots.erase agent }
  | .call now agent =>
    match s.registry.caching[agent]? with
    | none => s
    | some k =>
      if s.slots.isRunning agent then s.observe now agent .skipped
      else (s.claimed now agent).begin now k false
  | .dispatch now agent =>
    match s.registry.caching[agent]? with
    | none => s
    | some k => s.dispatch now agent k
  | .retain nextTick => { s with slots := s.slots.retain s.registry.caching.keys, nextTick }
  | .grant now id => s.onExecution id fun e =>
    if e.isWaiting ∧ s.permits ≠ 0 then s.grant now e else s
  | .wake now id => s.onExecution id (s.wake now)
  | .cancel now id => s.onExecution id (s.cancel now)
  | .stop => { s with isShutDown := true, nextTick := none }
  | .work cache activity => { s with cache, activity }

/-- Whether a move leaves the mark of every registered agent in flight: an agent is not registered
while it is in flight without a mark, and the slot of a registered agent in flight is not dropped. -/
def Permits (s : Scheduler B) : Move B → Prop
  | .register a => ∀ s', s.register a = .ok s' → ∀ e ∈ s.executions, e.name = a.name →
    s.slots.isRunning a.name = true
  | .dropSlot agent => agent ∈ s.registry.caching → ∀ e ∈ s.executions, e.name ≠ agent
  | _ => True

/-- Whether every move of a history is permitted when it is made. -/
def Careful (s : Scheduler B) : List (Move B) → Prop
  | [] => True
  | move :: rest => s.Permits move ∧ (s.after move).Careful rest

/-! ## What a move amounts to -/

/-- What holds without a step and after the step of any execution in flight holds after that of one. -/
theorem onExecution_induction {P : Scheduler B → Prop} (id : Nat) {step : Execution B → Scheduler B}
    (h : P s) (hstep : ∀ e ∈ s.executions, P (step e)) : P (s.onExecution id step) := by
  unfold onExecution
  split
  · rename_i e he
    exact hstep e (List.mem_of_find?_eq_some he)
  · exact h

/-- A registration adds an agent under the next number, and its name to the registry. -/
theorem register_eq_ok {a : CachingAgent} (h : s.register a = .ok s') :
    s' = { s with
      agents := s.agents ++ [a]
      registry := { s.registry with
        caching := s.registry.caching.insert a.name s.agents.length } } := by
  have hprofile : profileOf { s with agents := s.agents ++ [a] } s.agents.length = a.profile := by
    simp [profileOf, agentOf]
  rcases hregistry : s.registry.register (profileOf { s with agents := s.agents ++ [a] })
      s.agents.length with ⟨result, registry⟩
  cases result with
  | error e => simp [register, hregistry, Except.map] at h
  | ok _ =>
      obtain ⟨-, rfl⟩ := Registry.register_eq_ok_iff.1 hregistry
      simp only [register, hregistry, Except.map, Except.ok.injEq] at h
      rw [← h, hprofile]
      rfl

/-- Nothing is done with an execution that is not in flight. -/
theorem onExecution_cases (s : Scheduler B) (id : Nat) (step : Execution B → Scheduler B) :
    s.onExecution id step = s ∨ ∃ e ∈ s.executions, e.id = id ∧ s.onExecution id step = step e := by
  unfold onExecution
  split
  · rename_i e he
    exact .inr ⟨e, List.mem_of_find?_eq_some he, by simpa using List.find?_some he, rfl⟩
  · exact .inl rfl

/-- Whether a step concerns no execution. -/
structure Aside (s s' : Scheduler B) : Prop where
  executions : s'.executions = s.executions
  outcomes : s'.outcomes = s.outcomes
  begun : s'.begun = s.begun
  permits : s'.permits = s.permits

theorem Aside.refl (s : Scheduler B) : Aside s s := ⟨rfl, rfl, rfl, rfl⟩

/-- What a move can amount to. -/
inductive Amounts (s : Scheduler B) (move : Move B) (s' : Scheduler B) : Prop
  | aside (h : Aside s s')
      (hstop : ¬move.IsStop ∧ s'.isShutDown = s.isShutDown ∨ move.IsStop ∧ s'.isShutDown = true)
      (hcache : s'.cache = s.cache ∨ move.IsWork)
  /-- A registered agent has been claimed. -/
  | begins (slots : Schedule.Slots) (now k : Nat) (isDispatched : Bool) (hmove : move.execution? = none)
      (hstop : ¬move.IsStop) (hk : ∃ name : String, s.registry.caching[name]? = some k)
      (h : s' = { s with slots }.begin now k isDispatched)
  /-- A waiting execution gets a permit. -/
  | grants {e : Execution B} (he : e ∈ s.executions) (now : Nat) (hmove : move = .grant now e.id)
      (hwaits : e.isWaiting = true) (hfree : s.permits ≠ 0) (h : s' = s.grant now e)
  | wakes {e : Execution B} (he : e ∈ s.executions) (now : Nat) (hmove : move = .wake now e.id)
      (h : s' = s.wake now e)
  | cancels {e : Execution B} (he : e ∈ s.executions) (now : Nat) (hmove : move = .cancel now e.id)
      (h : s' = s.cancel now e)

/-- Every move amounts to one of these. -/
theorem amounts_after (s : Scheduler B) (move : Move B) : Amounts s move (s.after move) := by
  have hself : ¬move.IsStop → Amounts s move s := fun hstop =>
    .aside (.refl s) (.inl ⟨hstop, rfl⟩) (.inl rfl)
  cases move with
  | register a =>
      cases hs' : s.register a with
      | error e => simpa [Scheduler.after, hs'] using hself id
      | ok s' =>
          obtain rfl := register_eq_ok hs'
          simp only [Scheduler.after, hs']
          exact .aside ⟨rfl, rfl, rfl, rfl⟩ (.inl ⟨id, rfl⟩) (.inl rfl)
  | modifyAgent number change keeps => exact .aside ⟨rfl, rfl, rfl, rfl⟩ (.inl ⟨id, rfl⟩) (.inl rfl)
  | deregister agent =>
      simp only [Scheduler.after]
      split
      · exact .aside ⟨rfl, rfl, rfl, rfl⟩ (.inl ⟨id, rfl⟩) (.inl rfl)
      · exact hself id
  | deregisterAccount provider account =>
      exact .aside ⟨rfl, rfl, rfl, rfl⟩ (.inl ⟨id, rfl⟩) (.inl rfl)
  | dropSlot agent => exact .aside ⟨rfl, rfl, rfl, rfl⟩ (.inl ⟨id, rfl⟩) (.inl rfl)
  | call now agent =>
      simp only [Scheduler.after]
      split
      · exact hself id
      · rename_i k hk
        split
        · exact .aside ⟨rfl, rfl, rfl, rfl⟩ (.inl ⟨id, rfl⟩) (.inl rfl)
        · exact .begins _ now k false rfl id ⟨agent, hk⟩ rfl
  | dispatch now agent =>
      simp only [Scheduler.after]
      split
      · exact hself id
      · rename_i k hk
        cases hdue : s.slots.isDue now agent with
        | true =>
            rw [dispatch_of_due hdue]
            exact .begins _ now k true rfl id ⟨agent, hk⟩ rfl
        | false =>
            rw [dispatch_of_not_due hdue]
            exact .aside ⟨rfl, rfl, rfl, rfl⟩ (.inl ⟨id, rfl⟩) (.inl rfl)
  | retain nextTick => exact .aside ⟨rfl, rfl, rfl, rfl⟩ (.inl ⟨id, rfl⟩) (.inl rfl)
  | grant now id =>
      simp only [Scheduler.after]
      rcases s.onExecution_cases id _ with hsame | ⟨e, he, rfl, hstep⟩
      · rw [hsame]
        exact hself nofun
      · rw [hstep]
        split
        · rename_i hgranted
          exact .grants he now rfl hgranted.1 hgranted.2 rfl
        · exact hself nofun
  | wake now id =>
      simp only [Scheduler.after]
      rcases s.onExecution_cases id _ with hsame | ⟨e, he, rfl, hstep⟩
      · rw [hsame]
        exact hself nofun
      · rw [hstep]
        exact .wakes he now rfl rfl
  | cancel now id =>
      simp only [Scheduler.after]
      rcases s.onExecution_cases id _ with hsame | ⟨e, he, rfl, hstep⟩
      · rw [hsame]
        exact hself nofun
      · rw [hstep]
        exact .cancels he now rfl rfl
  | stop => exact .aside ⟨rfl, rfl, rfl, rfl⟩ (.inr ⟨trivial, rfl⟩) (.inl rfl)
  | work cache activity => exact .aside ⟨rfl, rfl, rfl, rfl⟩ (.inl ⟨id, rfl⟩) (.inr trivial)

/-! ## What a move keeps -/

theorem Numbered.fresh (options : Schedule.Options) (engine : Engine) (cache : B.State) :
    Numbered ({ options, engine, cache } : Scheduler B) where
  numbered := List.nodup_nil
  begun _ h := nomatch h
  ended _ h := nomatch h

theorem Exclusive.fresh (options : Schedule.Options) (engine : Engine) (cache : B.State) :
    Exclusive ({ options, engine, cache } : Scheduler B) where
  toNumbered := .fresh options engine cache
  named name k h := by simp at h
  running _ h := nomatch h
  alone := List.nodup_nil

/-- Agents that leave the registry, or slots that change for others, do no harm. -/
theorem Exclusive.restrict (h : Exclusive s) {registry : Registry} {slots : Schedule.Slots}
    (hregistry : ∀ (name : String) (k : Nat), registry.caching[name]? = some k →
      s.registry.caching[name]? = some k)
    (hslots : ∀ tag ∈ s.tags, tag.2 ∈ registry.caching →
      slots.isRunning tag.2 = s.slots.isRunning tag.2) :
    Exclusive { s with registry, slots } where
  toNumbered := { h.toNumbered with }
  named name k hk := h.named name k (hregistry name k hk)
  running tag htag hmem := by
    obtain ⟨k, hk⟩ := Option.isSome_iff_exists.1 (Std.ExtTreeMap.mem_iff_isSome_getElem?.1 hmem)
    have hold : tag.2 ∈ s.registry.caching := by
      rw [Std.ExtTreeMap.mem_iff_isSome_getElem?, hregistry tag.2 k hk, Option.isSome_some]
    exact (hslots tag htag hmem).trans (h.running tag htag hold)
  alone := h.alone

theorem tag_mem {e : Execution B} (h : e ∈ s.executions) : e.tag ∈ s.tags := List.mem_map_of_mem h

theorem Aside.numbered (h : Aside s s') (hs : Numbered s) : Numbered s' where
  numbered := by
    rw [tags, h.executions]
    exact hs.numbered
  begun := by
    rw [tags, h.executions, h.begun]
    exact hs.begun
  ended := by
    rw [h.outcomes, h.begun]
    exact hs.ended

/-- Every move tells executions apart. -/
theorem Numbered.after (h : Numbered s) (move : Move B) : Numbered (s.after move) := by
  cases amounts_after s move with
  | aside haside => exact haside.numbered h
  | begins slots now k isDispatched _ _ _ hbegin =>
      rw [hbegin]
      exact Numbered.begin (s := { s with slots }) { h with } now k isDispatched
  | grants he now _ _ _ hgrant =>
      rw [hgrant]
      exact h.advance (tag_mem he) (advance_grant s now _)
  | wakes he now _ hwake =>
      rw [hwake]
      exact h.advance (tag_mem he) (advance_wake s now _)
  | cancels he now _ hcancel =>
      rw [hcancel]
      exact h.finish (tag_mem he) now _

/-- After a registration too, agents are registered under their names. -/
theorem Exclusive.named_register (h : Exclusive s) {a : CachingAgent} (hs' : s.register a = .ok s')
    (name : String) (k : Nat) (hk : s'.registry.caching[name]? = some k) :
    (s'.agents.map CachingAgent.name)[k]? = some name := by
  have heq := register_eq_ok hs'
  subst heq
  rw [Std.ExtTreeMap.getElem?_insert] at hk
  rw [List.map_append]
  split at hk
  · rename_i hname
    cases hk
    simpa using hname
  · have hold := h.named name k hk
    rwa [List.getElem?_append_left (List.getElem?_eq_some_iff.1 hold).1]

theorem Exclusive.register (h : Exclusive s) {a : CachingAgent} (hs' : s.register a = .ok s')
    (hpermits : s.Permits (.register a)) : Exclusive s' := by
  have hnamed := h.named_register hs'
  have hmarked := hpermits s' hs'
  have heq := register_eq_ok hs'
  subst heq
  constructor
  · exact { h.toNumbered with }
  · exact hnamed
  · intro tag htag hmem
    obtain ⟨e, he, rfl⟩ := List.mem_map.1 htag
    rw [Std.ExtTreeMap.mem_insert] at hmem
    by_cases hname : e.name = a.name
    · simpa [Execution.tag, hname] using hmarked e he hname
    · refine h.running _ htag ?_
      simpa [Execution.tag, Ne.symm hname] using hmem
  · exact h.alone

theorem Exclusive.modifyAgent (h : Exclusive s) (number : Nat) {change : CachingAgent → CachingAgent}
    (keeps : ∀ a, (change a).name = a.name) : Exclusive (s.modifyAgent number change) where
  toNumbered := { h.toNumbered with }
  named name k hk := by
    rw [s.names_modifyAgent number keeps]
    exact h.named name k hk
  running := h.running
  alone := h.alone

/-- Every permitted move keeps the agents that run marked, and alone. -/
theorem Exclusive.after (h : Exclusive s) {move : Move B} (hpermits : s.Permits move) :
    Exclusive (s.after move) := by
  cases move with
  | register a =>
      cases hs' : s.register a with
      | error e => simpa [Scheduler.after, hs'] using h
      | ok s' => simpa [Scheduler.after, hs'] using h.register hs' hpermits
  | modifyAgent number change keeps => exact h.modifyAgent number keeps
  | deregister agent =>
      simp only [Scheduler.after]
      split
      · refine h.restrict (fun _ _ => Registry.getElem?_deregister) fun tag _ hmem => ?_
        have hne : agent ≠ tag.2 := by
          rintro rfl
          simp [Registry.deregister] at hmem
        exact Schedule.Slots.isRunning_erase hne
      · exact h
  | deregisterAccount provider account =>
      exact h.restrict (fun _ _ => Registry.getElem?_deregisterAccount) fun _ _ _ => rfl
  | dropSlot agent =>
      refine h.restrict (fun _ _ => id) fun tag htag hmem => ?_
      have hne : agent ≠ tag.2 := by
        rintro rfl
        obtain ⟨e, he, rfl⟩ := List.mem_map.1 htag
        exact hpermits hmem e he rfl
      exact Schedule.Slots.isRunning_erase hne
  | call now agent =>
      cases hk : s.registry.caching[agent]? with
      | none => simpa [Scheduler.after, hk] using h
      | some k =>
          cases hrunning : s.slots.isRunning agent with
          | true =>
              simp only [Scheduler.after, hk, hrunning, if_true]
              exact { h with }
          | false => simpa [Scheduler.after, hk, hrunning] using h.begin hk hrunning now false
  | dispatch now agent =>
      cases hk : s.registry.caching[agent]? with
      | none => simpa [Scheduler.after, hk] using h
      | some k => simpa [Scheduler.after, hk] using h.dispatch hk now
  | retain nextTick =>
      have hretained : Exclusive { s with slots := s.slots.retain s.registry.caching.keys } :=
        h.restrict (fun _ _ => id) fun tag _ hmem =>
          Schedule.Slots.isRunning_congr
            (Schedule.Slots.getElem?_retain (Std.ExtTreeMap.mem_keys.2 hmem))
      exact { hretained with }
  | grant now id =>
      refine onExecution_induction id h fun e he => ?_
      split
      · exact h.advance (tag_mem he) (advance_grant s now e)
      · exact h
  | wake now id =>
      refine onExecution_induction id h fun e he => ?_
      exact h.advance (tag_mem he) (advance_wake s now e)
  | cancel now id => exact onExecution_induction id h fun e he => h.finish (tag_mem he) now _
  | stop => exact { h with }
  | work cache activity => exact { h with }

theorem Exclusive.foldl {moves : List (Move B)} (h : Exclusive s) (hmoves : s.Careful moves) :
    Exclusive (moves.foldl Scheduler.after s) := by
  induction moves generalizing s with
  | nil => exact h
  | cons move moves ih => exact ih (h.after hmoves.1) hmoves.2

/-! ## The first move that is not permitted -/

theorem names_eq_tags (s : Scheduler B) : s.executions.map Execution.name = s.tags.map Prod.snd := by
  simp [tags, Execution.tag]

/-- A call begins an execution of an agent that is registered and not marked, whatever is in flight. -/
theorem names_call {agent : String} {k : Nat} (hk : s.registry.caching[agent]? = some k)
    (hname : (s.agents.map CachingAgent.name)[k]? = some agent)
    (hrunning : s.slots.isRunning agent = false) (hshutDown : s.isShutDown = false) (now : Nat) :
    (s.after (.call now agent)).executions.map Execution.name =
      s.executions.map Execution.name ++ [agent] := by
  have hagent : ((s.claimed now agent).profileOf k).agent = agent := agent_profileOf hname
  have hbegin : s.after (.call now agent) =
      (s.claimed now agent).adding ((s.claimed now agent).nextExecution now k false) := by
    simp [after, hk, hrunning, begin_eq, claimed, hshutDown]
  simp only [hbegin, adding, nextExecution, hagent, List.map_append, List.map_cons, List.map_nil]
  rfl

/-- A second execution begins with a call of an agent that is registered and in flight, but not
marked. -/
theorem not_nodup_names_call {e : Execution B} (he : e ∈ s.executions) {k : Nat}
    (hk : s.registry.caching[e.name]? = some k)
    (hname : (s.agents.map CachingAgent.name)[k]? = some e.name)
    (hrunning : s.slots.isRunning e.name = false) (hshutDown : s.isShutDown = false) (now : Nat) :
    ¬((s.after (.call now e.name)).executions.map Execution.name).Nodup := by
  rw [names_call hk hname hrunning hshutDown, List.nodup_append]
  intro ⟨_, _, hdisjoint⟩
  exact hdisjoint e.name (List.mem_map_of_mem he) e.name (List.mem_singleton.2 rfl) rfl

/-- What is not permitted leaves an agent that is registered and in flight, but not marked. -/
theorem Exclusive.exists_of_not_permits (h : Exclusive s) {move : Move B}
    (hmove : ¬s.Permits move) (hshutDown : s.isShutDown = false) :
    ∃ agent, ∀ now,
      ¬(((s.after move).after (.call now agent)).executions.map Execution.name).Nodup := by
  cases move with
  | register a =>
      simp only [Permits, not_forall] at hmove
      obtain ⟨s', hs', e, he, hname, hrunning⟩ := hmove
      have heq := register_eq_ok hs'
      have hafter : s.after (.register a) = s' := by simp [Scheduler.after, hs']
      have hk : s'.registry.caching[e.name]? = some s.agents.length := by simp [heq, hname]
      have hflight : e ∈ s'.executions := by simpa [heq] using he
      have hunmarked : s'.slots.isRunning e.name = false := by simpa [heq, hname] using hrunning
      have hworks : s'.isShutDown = false := by simpa [heq] using hshutDown
      rw [hafter]
      exact ⟨e.name, not_nodup_names_call hflight hk (h.named_register hs' _ _ hk) hunmarked hworks⟩
  | dropSlot agent =>
      simp only [Permits, not_forall, not_not] at hmove
      obtain ⟨hmem, e, he, rfl⟩ := hmove
      obtain ⟨k, hk⟩ := Option.isSome_iff_exists.1 (Std.ExtTreeMap.mem_iff_isSome_getElem?.1 hmem)
      exact ⟨e.name, not_nodup_names_call (s := s.after (.dropSlot e.name)) he hk
        (h.named _ _ hk) Schedule.Slots.isRunning_erase_self hshutDown⟩
  | _ => exact absurd trivial hmove

/-- As long as every move is permitted, the executions in flight are of different agents. The first
move that is not, unless the scheduler is shut down, leaves an agent of which the next call begins a
second execution while the first is in flight. -/
theorem one_execution_each (options : Schedule.Options) (engine : Engine) (cache : B.State)
    {moves : List (Move B)}
    (hmoves : ({ options, engine, cache } : Scheduler B).Careful moves) :
    let s := moves.foldl Scheduler.after { options, engine, cache }
    (s.executions.map Execution.name).Nodup ∧
      ∀ move, ¬s.Permits move → s.isShutDown = false → ∃ agent, ∀ now,
        ¬(((s.after move).after (.call now agent)).executions.map Execution.name).Nodup := by
  have h := (Exclusive.fresh options engine cache).foldl hmoves
  constructor
  · rw [names_eq_tags]
    exact h.alone
  · intro move hmove hshutDown
    exact h.exists_of_not_permits hmove hshutDown

/-! ## An example of an agent that is registered again -/

/-- An agent that takes a second to load nothing. -/
def slowAgent : CachingAgent :=
  { name := "agent", provider := "cloud", account := "prod", delay := some ⟨1000000000⟩
    conduct := .scripted {} }

/-- A scheduler over an empty cache in memory. -/
def idle : Scheduler (.memory "mem") := { cache := {} }

/-- An agent is called, and deregistered while it loads. -/
def leftAtWork : List (Move (.memory "mem")) :=
  [.register slowAgent, .call 0 "agent", .grant 0 0, .deregister "agent"]

/-- The agent is registered again before it has loaded, and called. -/
def calledAgain : List (Move (.memory "mem")) :=
  leftAtWork ++ [.register slowAgent, .call 0 "agent"]

theorem two_executions_in_flight :
    (calledAgain.foldl Scheduler.after idle).executions.map Execution.name = ["agent", "agent"] := by
  decide +kernel

theorem careful_leftAtWork : idle.Careful leftAtWork :=
  ⟨fun _ _ _ he => (nomatch he), trivial, trivial, trivial, trivial⟩

/-- While the agent is at work it is not marked, since its slot was dropped. -/
theorem not_permits_leftAtWork :
    ¬(leftAtWork.foldl Scheduler.after idle).Permits (.register slowAgent) := by
  have hregisters : ((leftAtWork.foldl Scheduler.after idle).register slowAgent).isOk = true := by
    decide +kernel
  have hunmarked : (leftAtWork.foldl Scheduler.after idle).slots.isRunning "agent" = false := by
    decide +kernel
  have hflight : (0, "agent") ∈ (leftAtWork.foldl Scheduler.after idle).tags := by decide +kernel
  intro hpermits
  obtain ⟨s', hs'⟩ := Plan.exists_of_isOk hregisters
  obtain ⟨e, he, htag⟩ := List.mem_map.1 hflight
  have hmarked := hpermits s' hs' e he (congrArg Prod.snd htag)
  exact Bool.false_ne_true (hunmarked.symm.trans hmarked)

/-- To deregister the agent at work is permitted, but not to register it again. -/
theorem one_execution_until_registered :
    idle.Careful leftAtWork ∧
    ((leftAtWork.foldl Scheduler.after idle).executions.map Execution.name).Nodup ∧
    ∃ agent, ∀ now, ¬((((leftAtWork.foldl Scheduler.after idle).after
      (.register slowAgent)).after (.call now agent)).executions.map Execution.name).Nodup := by
  have h := one_execution_each {} {} (B := .memory "mem") {} careful_leftAtWork
  exact ⟨careful_leftAtWork, h.1, h.2 _ not_permits_leftAtWork rfl⟩

end Scheduler

end Inventory
