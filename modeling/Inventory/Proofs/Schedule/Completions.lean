import Inventory.Proofs.Schedule.History

/-!
# Inventory.Proofs.Schedule.Completions

What agents have last reported, and what else moves do to them.

A step completes an execution if the execution is in flight before it and among the outcomes after it,
without an error. The keys of its agent as they are then are what the agent has last reported, until an
execution of it completes again (`lastKeys`).
-/

namespace Inventory

namespace Scheduler

variable {B : Backend} {s s₁ s' : Scheduler B} {last : Nat → StringSet}

/-! ## Steps that complete -/

/-- The agents of which a step has completed an execution. -/
def completed (s s' : Scheduler B) : List Nat :=
  (s'.outcomes.take (s'.outcomes.length - s.outcomes.length)).filterMap fun (id, result) =>
    if result.isOk then (s.executions.find? (·.id == id)).map Execution.agent else none

/-- What each agent has last reported after a step. -/
def lastAfter (last : Nat → StringSet) (s s' : Scheduler B) (k : Nat) : StringSet :=
  if k ∈ completed s s' then (s.agentOf k).keys else last k

/-- The keys that each agent has reported when it last completed in the course of some moves. -/
def lastKeys (last : Nat → StringSet) (s : Scheduler B) : List (Move B) → Nat → StringSet
  | [] => last
  | move :: moves => lastKeys (lastAfter last s (s.after move)) (s.after move) moves

theorem completed_of_eq (h : s'.outcomes = s.outcomes) : completed s s' = [] := by
  simp [completed, h]

theorem completed_of_error {id : Nat} {e : Error} (h : s'.outcomes = (id, .error e) :: s.outcomes) :
    completed s s' = [] := by
  simp [completed, h, Except.isOk, Except.toBool]

theorem completed_of_ok {id : Nat} {stats : MergeStats} {e : Execution B}
    (h : s'.outcomes = (id, .ok stats) :: s.outcomes)
    (he : (s.executions.find? (·.id == id)).map Execution.agent = some e.agent) :
    completed s s' = [e.agent] := by
  simp [completed, h, Except.isOk, Except.toBool, he]

theorem completed_congr (houtcomes : s₁.outcomes = s.outcomes)
    (hagents : ∀ id, (s₁.executions.find? (·.id == id)).map Execution.agent =
      (s.executions.find? (·.id == id)).map Execution.agent) : completed s₁ s' = completed s s' := by
  simp only [completed, houtcomes, hagents]

theorem lastAfter_of_eq_nil (h : completed s s' = []) : lastAfter last s s' = last := by
  funext k
  simp [lastAfter, h]

theorem find?_setPhase (s : Scheduler B) (i : Nat) (phase : Phase B) (id : Nat) :
    ((s.setPhase i phase).executions.find? (·.id == id)).map Execution.agent =
      (s.executions.find? (·.id == id)).map Execution.agent := by
  have hid : (fun e : Execution B => e.id == id) ∘
      (fun e => if e.id = i then { e with phase } else e) = fun e => e.id == id := by
    funext e
    by_cases he : e.id = i <;> simp [he]
  have hagent : Execution.agent ∘ (fun e : Execution B => if e.id = i then { e with phase } else e) =
      Execution.agent := by
    funext e
    by_cases he : e.id = i <;> simp [he]
  rw [setPhase, List.find?_map, hid, Option.map_map, hagent]

/-! ## Agents that are registered -/

/-- A registration is one with the registry, which knows the new agent by the next number. -/
theorem register_registry {a : CachingAgent} (h : s.register a = .ok s') :
    s.registry.register s'.profileOf s.agents.length = (.ok (), s'.registry) := by
  unfold register at h
  dsimp only at h
  rcases hregistry : s.registry.register (profileOf { s with agents := s.agents ++ [a] })
      s.agents.length with ⟨result, registry⟩
  rw [hregistry] at h
  cases result with
  | error e => contradiction
  | ok _ =>
      obtain rfl := Except.ok.inj h
      exact hregistry

theorem profileOf_register {a : CachingAgent} (h : s.register a = .ok s') (k : Nat) :
    s'.profileOf k = if k = s.agents.length then a.profile else s.profileOf k := by
  obtain rfl := register_eq_ok h
  rw [profileOf, agentOf, List.getD_eq_getElem?_getD, List.getElem?_append, profileOf, agentOf,
    List.getD_eq_getElem?_getD]
  by_cases hlt : k < s.agents.length
  · rw [if_pos hlt, if_neg (Nat.ne_of_lt hlt)]
  · rw [if_neg hlt]
    by_cases hk : k = s.agents.length
    · simp [hk]
    · have hgt : s.agents.length < k := by omega
      rw [if_neg hk, List.getElem?_eq_none (by simp; omega), List.getElem?_eq_none (by omega)]

/-- Whether an agent is registered under some name. -/
def IsRegistered (s : Scheduler B) (k : Nat) : Prop := ∃ name : String, s.registry.caching[name]? = some k

/-- A registration takes no name that another agent has. -/
theorem isRegistered_register {a : CachingAgent} (h : s.register a = .ok s') (k : Nat) :
    s'.IsRegistered k ↔ s.IsRegistered k ∨ k = s.agents.length := by
  obtain ⟨⟨hnew, -⟩, -⟩ := Registry.register_eq_ok_iff.1 (register_registry h)
  rw [profileOf_register h, if_pos rfl] at hnew
  obtain rfl := register_eq_ok h
  simp only [IsRegistered, Std.ExtTreeMap.getElem?_insert]
  constructor
  · rintro ⟨name, hk⟩
    split at hk
    · exact .inr (Option.some.inj hk).symm
    · exact .inl ⟨name, hk⟩
  · rintro (⟨name, hk⟩ | rfl)
    · have hne : compare a.name name ≠ .eq := by
        rw [Std.LawfulEqCmp.compare_eq_iff_eq.ne]
        rintro rfl
        exact hnew (Std.ExtTreeMap.mem_iff_isSome_getElem?.2 (Option.isSome_of_eq_some hk))
      exact ⟨name, by rw [if_neg hne, hk]⟩
    · exact ⟨a.name, by simp⟩

/-! ## Agents that change -/

/-- What a change to an agent keeps of all agents it keeps of those of a scheduler. -/
theorem agentOf_modifyAgent {β : Type} (f : CachingAgent → β) {change : CachingAgent → CachingAgent}
    (hf : ∀ a, f (change a) = f a) (s : Scheduler B) (number k : Nat) :
    f ((s.modifyAgent number change).agentOf k) = f (s.agentOf k) := by
  rw [agentOf, Scheduler.modifyAgent, List.getD_eq_getElem?_getD, List.getElem?_modify, agentOf,
    List.getD_eq_getElem?_getD]
  cases s.agents[k]? with
  | none => by_cases hk : number = k <;> simp [hk]
  | some a => by_cases hk : number = k <;> simp [hk, hf]

/-- When an agent that is asked now will have its data. -/
def readyAt (s : Scheduler B) (now : Nat) (e : Execution B) : Nat :=
  now + ((s.agentOf e.agent).delay.getD ⟨0⟩).nanoseconds

/-- When an agent that is asked now will have taken too long. -/
def deadlineAt (s : Scheduler B) (now : Nat) : Nat :=
  now + s.options.agentTimeout.nanoseconds

/-- The scheduler after an execution has taken its permit and its agent has been asked. -/
def asked (s : Scheduler B) (now : Nat) (e : Execution B) : Scheduler B :=
  (({ s with permits := s.permits - 1 }.setPhase e.id
    (.loading (s.readyAt now e) (s.deadlineAt now))).observe now e.name .started).modifyAgent e.agent
      fun a => { a with calls := a.calls + 1 }

end Scheduler

end Inventory
