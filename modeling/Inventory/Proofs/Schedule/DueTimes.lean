import Inventory.Proofs.Schedule.Standing

/-!
# Inventory.Proofs.Schedule.DueTimes

When the dispatcher starts an agent.

The dispatcher looks at the slots only. Since these tell of the past, it starts an agent exactly when nothing
of it is in flight and its interval is over, or the backoff if it has failed, and one look starts exactly
those that are due (`dispatched_when_due`).
-/

namespace Inventory

namespace Scheduler

open Schedule

variable {B : Backend} {s : Scheduler B} {name : String} {now : Nat}

/-! ## One look of the dispatcher -/

/-- The dispatcher looks at some agents, one after the other. -/
abbrev dispatchAll (s : Scheduler B) (now : Nat) (agents : List (String × Nat)) : Scheduler B :=
  agents.foldl (fun s (name, agent) => s.dispatch now name agent) s

/-- Whether agents are given by their own names and numbers. -/
def Knows (s : Scheduler B) (agents : List (String × Nat)) : Prop :=
  ∀ p ∈ agents, (s.profileOf p.2).agent = p.1

theorem Knows.dispatch {p : String × Nat} {agents : List (String × Nat)} (h : s.Knows (p :: agents))
    (now : Nat) : (s.dispatch now p.1 p.2).Knows agents := by
  rw [Knows, (keepsAgents_dispatch s now p.1 p.2).profiles]
  exact fun q hq => h q (List.mem_cons_of_mem _ hq)

theorem slots_begin (s : Scheduler B) (now k : Nat) (isDispatched : Bool)
    (hname : (s.profileOf k).agent ≠ name) :
    (s.begin now k isDispatched).slots[name]? = s.slots[name]? := by
  rw [begin_eq]
  dsimp only
  split
  · exact Slots.getElem?_release hname
  · rfl

/-- A look at an agent leaves the slots of others alone. -/
theorem slots_dispatch (s : Scheduler B) (now : Nat) {agent : String} {k : Nat}
    (hagent : (s.profileOf k).agent = agent) (hname : agent ≠ name) :
    (s.dispatch now agent k).slots[name]? = s.slots[name]? := by
  cases hdue : s.slots.isDue now agent with
  | true =>
      have hclaim : (s.slots.claim agent now)[name]? = s.slots[name]? := by
        rw [Slots.getElem?_claim, if_neg hname]
      rw [dispatch_of_due hdue]
      exact (slots_begin (s.claimed now agent) now k true (hagent ▸ hname)).trans hclaim
  | false =>
      rw [dispatch_of_not_due hdue]
      exact Slots.getElem?_claimIfDue_of_not_due hdue

theorem slots_dispatchAll (s : Scheduler B) (now : Nat) {agents : List (String × Nat)}
    (hagents : s.Knows agents) (hname : name ∉ agents.map Prod.fst) :
    (s.dispatchAll now agents).slots[name]? = s.slots[name]? := by
  induction agents generalizing s with
  | nil => rfl
  | cons p agents ih =>
      rw [List.map_cons, List.mem_cons, not_or] at hname
      have hp := hagents p List.mem_cons_self
      exact (ih _ (hagents.dispatch now) hname.2).trans (slots_dispatch s now hp (Ne.symm hname.1))

theorem dispatch_of_works (hworks : s.isShutDown = false) (hdue : s.slots.isDue now name = true) (k : Nat) :
    s.dispatch now name k = (s.claimed now name).adding (s.nextExecution now k true) := by
  have hclaimed : (s.claimed now name).isShutDown = false := hworks
  rw [dispatch_of_due hdue, begin_eq, hclaimed]
  rfl

/-- Of some agents, those begin that are due, in the same order. -/
theorem dispatchAll_begins (s : Scheduler B) (now : Nat) (hworks : s.isShutDown = false)
    {agents : List (String × Nat)} (hagents : s.Knows agents)
    (hnodup : (agents.map Prod.fst).Nodup) :
    ∃ new : List (Execution B), (s.dispatchAll now agents).executions = s.executions ++ new ∧
      new.map (fun e => (e.name, e.agent)) = agents.filter (fun p => s.slots.isDue now p.1) ∧
      ∀ e ∈ new, e.began = now ∧ e.isDispatched = true ∧
        (s.dispatchAll now agents).slots.isRunning e.name = true := by
  induction agents generalizing s with
  | nil => exact ⟨[], (List.append_nil _).symm, rfl, by simp⟩
  | cons p agents ih =>
      rw [List.map_cons, List.nodup_cons] at hnodup
      have hp := hagents p List.mem_cons_self
      have hrest := hagents.dispatch now
      -- The names differ, so what is begun for the first agent makes no other one due.
      have hsame : agents.filter (fun q => (s.dispatch now p.1 p.2).slots.isDue now q.1) =
          agents.filter (fun q => s.slots.isDue now q.1) := by
        refine List.filter_congr fun q hq => Slots.isDue_congr (slots_dispatch s now hp ?_)
        intro hpq
        exact hnodup.1 (hpq ▸ List.mem_map_of_mem hq)
      have hkept := slots_dispatchAll (s.dispatch now p.1 p.2) now hrest hnodup.1
      cases hdue : s.slots.isDue now p.1 with
      | false =>
          have hlook : (s.dispatch now p.1 p.2).executions = s.executions ∧
              (s.dispatch now p.1 p.2).isShutDown = s.isShutDown := by
            rw [dispatch_of_not_due hdue]
            exact ⟨rfl, rfl⟩
          obtain ⟨new, hexecutions, hnew, hall⟩ := ih _ (hlook.2.trans hworks) hrest hnodup.2
          rw [hlook.1] at hexecutions
          rw [hsame] at hnew
          exact ⟨new, hexecutions, by rw [List.filter_cons, hdue]; exact hnew, hall⟩
      | true =>
          have hbegins := dispatch_of_works hworks hdue p.2
          have hname : (s.nextExecution now p.2 true).name = p.1 := hp
          obtain ⟨new, hexecutions, hnew, hall⟩ := ih (s.dispatch now p.1 p.2)
            (by rw [hbegins]; exact hworks) hrest hnodup.2
          have hadded : (s.dispatch now p.1 p.2).executions =
              s.executions ++ [s.nextExecution now p.2 true] := by
            rw [hbegins]
            rfl
          refine ⟨s.nextExecution now p.2 true :: new, ?_, ?_, ?_⟩
          · rw [hadded, List.append_assoc] at hexecutions
            exact hexecutions
          · rw [List.filter_cons, hdue, List.map_cons, hname, hnew, hsame]
            rfl
          · intro e he
            rcases List.mem_cons.1 he with rfl | he
            · refine ⟨rfl, rfl, ?_⟩
              have hmarked : (s.dispatch now p.1 p.2).slots.isRunning p.1 = true := by
                rw [hbegins]
                change (s.slots.claim p.1 now).isRunning p.1 = true
                simp [Slots.isRunning_claim]
              rw [hname]
              exact (Slots.isRunning_congr hkept).trans hmarked
            · exact hall e he

/-- One look of the dispatcher begins an execution of every agent that is due and of no other, and leaves
their agents marked as running. -/
theorem tick_begins (s : Scheduler B) (now : Nat) (hnamed : Named s) (hworks : s.isShutDown = false) :
    ∃ new : List (Execution B), (s.tick now).executions = s.executions ++ new ∧
      new.map (fun e => (e.name, e.agent)) =
        s.registry.caching.toList.filter (fun p => s.slots.isDue now p.1) ∧
      ∀ e ∈ new, e.began = now ∧ e.isDispatched = true ∧ (s.tick now).slots.isRunning e.name = true := by
  let agents := s.registry.caching.toList
  let retained : Scheduler B := { s with
    slots := s.slots.retain (agents.map Prod.fst)
    nextTick := some (now + s.options.tick.nanoseconds) }
  have hagents : retained.Knows agents := fun p hp =>
    (hnamed p.1 p.2 (Std.ExtTreeMap.mem_toList_iff_getElem?_eq_some.1 hp)).2
  have hdue : agents.filter (fun p => retained.slots.isDue now p.1) =
      agents.filter (fun p => s.slots.isDue now p.1) :=
    List.filter_congr fun p hp => Slots.isDue_congr (Slots.getElem?_retain (List.mem_map_of_mem hp))
  have hbegins := dispatchAll_begins retained now hworks hagents (StringMap.nodup_map_fst_toList _)
  rw [hdue] at hbegins
  exact hbegins

/-! ## Due times -/

/-- A look at an agent begins an execution if the agent is registered and its slot says that it is due. -/
theorem begun_dispatch_ne_iff : (s.after (.dispatch now name)).begun ≠ s.begun ↔
    name ∈ s.registry.caching ∧ s.slots.isDue now name = true := by
  rw [Std.ExtTreeMap.mem_iff_isSome_getElem?]
  cases hk : s.registry.caching[name]? with
  | none => simp [Scheduler.after, hk]
  | some k =>
      have hafter : s.after (.dispatch now name) = s.dispatch now name k := by simp [Scheduler.after, hk]
      cases hdue : s.slots.isDue now name with
      | true =>
          rw [dispatch_of_due hdue] at hafter
          simpa using begun_ne_of_begin hafter
      | false =>
          rw [hafter, dispatch_of_not_due hdue]
          simp

/-- The dispatcher begins an execution of an agent exactly when the agent is registered, nothing of it is
in flight, and its latest execution, whoever started it, has ended as long ago as the interval of the agent,
or as the backoff if the execution failed. One look of the dispatcher begins executions of exactly the
agents that are due. So it is after every history in which the agent, once registered, stays so. -/
theorem dispatched_when_due (options : Options) (engine : Engine) (cache : B.State)
    {moves : List (Move B)} (hstays : ({ options, engine, cache } : Scheduler B).Stays name moves) :
    let s := moves.foldl Scheduler.after { options, engine, cache }
    let past := ({ options, engine, cache } : Scheduler B).latest name none moves
    (∀ now, (s.after (.dispatch now name)).begun ≠ s.begun ↔
      name ∈ s.registry.caching ∧ s.MayStart name past now) ∧
    ∀ now, s.isShutDown = false → ∃ new : List (Execution B),
      (s.tick now).executions = s.executions ++ new ∧
      new.map (fun e => (e.name, e.agent)) =
        s.registry.caching.toList.filter (fun p => s.slots.isDue now p.1) ∧
      (∀ e ∈ new, e.began = now ∧ e.isDispatched = true ∧
        (s.tick now).slots.isRunning e.name = true) ∧
      (name ∈ new.map Execution.name ↔ name ∈ s.registry.caching ∧ s.MayStart name past now) := by
  intro s past
  have htracked : Tracked name s past := (Tracked.fresh name options engine cache).foldl hstays
  have hdue := htracked.standing.isDue_iff
  refine ⟨fun now => ?_, fun now hworks => ?_⟩
  · rw [begun_dispatch_ne_iff, hdue]
  · obtain ⟨new, hexecutions, hnew, hall⟩ := tick_begins s now htracked.named hworks
    refine ⟨new, hexecutions, hnew, hall, ?_⟩
    have hnames : new.map Execution.name = (new.map fun e => (e.name, e.agent)).map Prod.fst := by
      rw [List.map_map]
      rfl
    rw [hnames, hnew, ← hdue, ← Std.ExtTreeMap.mem_keys, ← Std.ExtTreeMap.map_fst_toList_eq_keys,
      List.mem_map, List.mem_map]
    constructor
    · rintro ⟨p, hp, rfl⟩
      obtain ⟨hmem, hdue⟩ := List.mem_filter.1 hp
      exact ⟨⟨p, hmem, rfl⟩, hdue⟩
    · rintro ⟨⟨p, hmem, rfl⟩, hdue⟩
      exact ⟨p, List.mem_filter.2 ⟨hmem, hdue⟩, rfl⟩

/-- An agent is dispatched, and called before it is due again. -/
def calledBetween : List (Move (.memory "mem")) :=
  [.register slowAgent, .dispatch 0 "agent", .grant 0 0, .wake 1000000000 0, .call 5000000000 "agent",
    .grant 5000000000 1, .wake 6000000000 1]

/-- The call puts off the next execution by the dispatcher: it begins a minute after the call is over. -/
theorem dispatched_after_call :
    idle.Stays "agent" calledBetween ∧
    ∀ now, ((calledBetween.foldl Scheduler.after idle).after (.dispatch now "agent")).begun ≠
      (calledBetween.foldl Scheduler.after idle).begun ↔ 66000000000 ≤ now := by
  have hstays : idle.Stays "agent" calledBetween :=
    ⟨fun hmem => absurd hmem (by decide +kernel), stays_of_isInner (by decide) _ _⟩
  have hregistered : "agent" ∈ (calledBetween.foldl Scheduler.after idle).registry.caching := by
    decide +kernel
  have hidle : "agent" ∉ (calledBetween.foldl Scheduler.after idle).executions.map Execution.name := by
    decide +kernel
  have hdue : (idle.latest "agent" none calledBetween).map (·.due? {}) = some (some 66000000000) := by
    decide +kernel
  refine ⟨hstays, fun now => ((dispatched_when_due {} {} (B := .memory "mem") {} hstays).1 now).trans ?_⟩
  obtain ⟨r, hr, hrdue⟩ := Option.map_eq_some_iff.1 hdue
  constructor
  · rintro ⟨-, -, hall⟩
    obtain ⟨due, hdue', hle⟩ := hall r hr
    have hsame : some due = some 66000000000 := hdue'.symm.trans hrdue
    rwa [Option.some.inj hsame] at hle
  · intro hle
    refine ⟨hregistered, hidle, fun r' hr' => ⟨_, ?_, hle⟩⟩
    obtain rfl := Option.some.inj (hr.symm.trans hr')
    exact hrdue

end Scheduler

end Inventory
