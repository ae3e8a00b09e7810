import Inventory.Proofs.Schedule.Operations
import Inventory.Proofs.Schedule.Registered

/-!
# Inventory.Proofs.Schedule.Standing

What the slot of an agent tells of its past.

A slot says no more than that its agent runs or when it is due. Why it is due then is told by the past: how
the latest execution of the agent began, and when and how it has ended (`latest`). For an agent that stays
registered, slot and past go together (`Standing`), whoever starts the executions and whatever happens to
other agents (`Tracked.foldl`).
-/

namespace Inventory

namespace Scheduler

open Schedule

variable {B : Backend} {s s' : Scheduler B} {e : Execution B} {name : String} {now : Nat} {move : Move B}

/-! ## The latest execution of an agent -/

/-- An execution as it began, with the time of its end and its outcome once it has ended. -/
structure Record (B : Backend) where
  execution : Execution B
  ended : Option (Nat × Except Error MergeStats) := none

namespace Record

/-- When the agent may be dispatched again after an execution that has ended: its interval later, or the
backoff later if the execution has failed. -/
def due? (r : Record B) (o : Options) : Option Nat :=
  r.ended.map fun (time, result) =>
    time + (if result.isOk then r.execution.interval else o.failureBackoff).nanoseconds

/-- The record of an execution that is looked up among the outcomes, unless it had ended before. -/
def noted (r : Record B) (time : Nat) (outcomes : List (Nat × Except Error MergeStats)) : Record B :=
  { r with ended := r.ended.or ((outcomes.lookup r.execution.id).map (time, ·)) }

/-- What has a due time has ended already. -/
theorem noted_of_due {r : Record B} {o : Options} {due : Nat} (h : r.due? o = some due) (time : Nat)
    (outcomes : List (Nat × Except Error MergeStats)) : r.noted time outcomes = r := by
  obtain ⟨execution, ended⟩ := r
  obtain ⟨ended, rfl, -⟩ := Option.map_eq_some_iff.1 h
  rfl

end Record

/-- When a move is made, if it is one that may begin or end an execution. -/
def Move.time : Move B → Nat
  | .call now _ | .dispatch now _ | .grant now _ | .wake now _ | .cancel now _ => now
  | _ => 0

/-- The execution that a move begins. Its interval is the one that its agent declares then, or the default. -/
def begunBy (s : Scheduler B) (move : Move B) : Option (Execution B) :=
  if (s.after move).begun = s.begun then none
  else
    match move with
    | .call now agent => (s.registry.caching[agent]?).map fun k => s.nextExecution now k false
    | .dispatch now agent => (s.registry.caching[agent]?).map fun k => s.nextExecution now k true
    | _ => none

/-- What is known of the latest execution of an agent after a move. -/
def latestAfter (name : String) (latest : Option (Record B)) (s : Scheduler B) (move : Move B) :
    Option (Record B) :=
  let begun := ((s.begunBy move).filter (·.name == name)).map fun e => { execution := e }
  (begun.or latest).map (·.noted move.time (s.after move).outcomes)

/-- What is known of the latest execution of an agent after some moves. -/
def latest (name : String) (past : Option (Record B)) (s : Scheduler B) :
    List (Move B) → Option (Record B)
  | [] => past
  | move :: moves => latest name (latestAfter name past s move) (s.after move) moves

/-- Whether nothing of an agent is in flight, and its latest execution, if there was one, has ended long
enough ago. -/
def MayStart (s : Scheduler B) (name : String) (latest : Option (Record B)) (now : Nat) : Prop :=
  name ∉ s.executions.map Execution.name ∧
    ∀ r ∈ latest, ∃ due, r.due? s.options = some due ∧ due ≤ now

/-! ## Agents that stay registered -/

/-- The agent whose slot a move drops without a look at the registry. -/
def Move.dropped? : Move B → Option String
  | .dropSlot agent => some agent
  | _ => none

/-- Whether an agent that is registered is so after a move, and keeps its slot. -/
def Keeps (s : Scheduler B) (name : String) (move : Move B) : Prop :=
  name ∈ s.registry.caching → name ∈ (s.after move).registry.caching ∧ move.dropped? ≠ some name

/-- Whether an agent is never deregistered in the course of some moves once it is registered. -/
def Stays (s : Scheduler B) (name : String) : List (Move B) → Prop
  | [] => True
  | move :: moves => s.Keeps name move ∧ (s.after move).Stays name moves

/-- Calls, looks of the dispatcher and executions that go on do not deregister anybody. -/
theorem stays_of_isInner {moves : List (Move B)} (h : ∀ move ∈ moves, move.isInner = true)
    (s : Scheduler B) (name : String) : s.Stays name moves := by
  induction moves generalizing s with
  | nil => trivial
  | cons move moves ih =>
      have hinner := h move List.mem_cons_self
      refine ⟨fun hname => ⟨?_, ?_⟩, ih (fun m hm => h m (List.mem_cons_of_mem _ hm)) _⟩
      · rwa [registry_after hinner]
      · cases move with
        | dropSlot => contradiction
        | _ => nofun

/-! ## The executions of an agent -/

/-- The executions of an agent in flight, as they were when they began. -/
def runsOf (s : Scheduler B) (name : String) : List (Execution B) := s.runs.filter (·.name == name)

theorem runsOf_eq_nil_iff : s.runsOf name = [] ↔ name ∉ s.executions.map Execution.name := by
  simp [runsOf, runs, List.filter_eq_nil_iff, Execution.asBegun]

theorem runs_finish (s : Scheduler B) (now : Nat) (e : Execution B) (result : Except Error MergeStats) :
    (s.finish now e result).runs = s.runs.filter (·.id != e.id) := by
  simp only [runs, finish, observe, List.filter_map]
  rfl

theorem runsOf_finish (s : Scheduler B) (now : Nat) (e : Execution B)
    (result : Except Error MergeStats) (name : String) :
    (s.finish now e result).runsOf name = (s.runsOf name).filter (·.id != e.id) := by
  rw [runsOf, runs_finish, List.filter_filter, runsOf, List.filter_filter]
  simp only [Bool.and_comm]

theorem runsOf_adding (s : Scheduler B) (e : Execution B) (name : String) :
    (s.adding e).runsOf name = s.runsOf name ++ if e.name = name then [e.asBegun] else [] := by
  simp only [runsOf, runs, adding, List.map_append, List.map_cons, List.map_nil, List.filter_append]
  by_cases hname : e.name = name <;> simp [hname, Execution.asBegun]

/-- Executions of one id are of one agent. -/
theorem Numbered.name_eq (h : Numbered s) {r : Execution B} (he : e.tag ∈ s.tags) (hr : r ∈ s.runs)
    (hid : r.id = e.id) : r.name = e.name := by
  have hmem : r.tag ∈ s.tags := by
    rw [tags_eq_runs]
    exact List.mem_map_of_mem hr
  have hsame : r.tag = e.tag := List.inj_on_of_nodup_map h.numbered hmem he hid
  exact congrArg Prod.snd hsame

/-! ## Slots and the past -/

/-- How an agent stands: how its slot, its executions in flight and the latest one go together. -/
inductive Standing (name : String) (s : Scheduler B) : Option (Record B) → Prop
  /-- The agent was never started. -/
  | unknown (hslot : s.slots[name]? = none) (hruns : s.runsOf name = []) : Standing name s none
  /-- The latest execution is in flight, and no other. -/
  | running {e : Execution B} (hslot : s.slots.isRunning name = true) (hruns : s.runsOf name = [e])
      (hopen : s.outcomes.lookup e.id = none) : Standing name s (some { execution := e })
  /-- The latest execution has ended, and the slot says when the next may begin. -/
  | waits {r : Record B} {slot : Slot} (hslot : s.slots[name]? = some slot)
      (hstate : slot.state ≠ .running) (hruns : s.runsOf name = [])
      (hdue : r.due? s.options = some slot.nextRun) : Standing name s (some r)

namespace Standing

variable {past : Option (Record B)}

/-- The dispatcher finds an agent due exactly when it may start. -/
theorem isDue_iff (h : Standing name s past) (now : Nat) :
    s.slots.isDue now name = true ↔ s.MayStart name past now := by
  rw [MayStart, ← runsOf_eq_nil_iff]
  cases h with
  | unknown hslot hruns => simp [Slots.isDue, Slots.slotOf, hslot, hruns]
  | running hslot hruns hopen =>
      have hnot : s.slots.isDue now name ≠ true := fun hdue => by
        rw [Slots.not_running_of_isDue hdue] at hslot
        contradiction
      simp [hnot, hruns]
  | waits hslot hstate hruns hdue => simp [Slots.isDue, Slots.slotOf, hslot, hstate, hruns, hdue]

/-- Only what is marked as running is in flight. -/
theorem runsOf_eq_nil (h : Standing name s past) (hrunning : s.slots.isRunning name = false) :
    s.runsOf name = [] := by
  cases h with
  | unknown hslot hruns => exact hruns
  | running hslot hruns hopen =>
      rw [hslot] at hrunning
      contradiction
  | waits hslot hstate hruns hdue => exact hruns

theorem slot_eq_none (h : Standing name s none) : s.slots[name]? = none := by
  cases h with
  | unknown hslot hruns => exact hslot

/-- To look among outcomes that do not tell of it changes nothing for an agent. -/
theorem map_noted (h : Standing name s past) {outcomes : List (Nat × Except Error MergeStats)}
    (hopen : ∀ e ∈ s.runsOf name, outcomes.lookup e.id = none) (time : Nat) :
    past.map (·.noted time outcomes) = past := by
  cases h with
  | unknown hslot hruns => rfl
  | running hslot hruns _ =>
      have hnone := hopen _ (hruns ▸ List.mem_singleton.2 rfl)
      simp [Record.noted, hnone]
  | waits hslot hstate hruns hdue => rw [Option.map_some, Record.noted_of_due hdue]

theorem lookup_eq_none (h : Standing name s past) : ∀ e ∈ s.runsOf name, s.outcomes.lookup e.id = none := by
  intro e he
  cases h with
  | unknown hslot hruns => simp [hruns] at he
  | running hslot hruns hopen =>
      rw [hruns, List.mem_singleton] at he
      rwa [he]
  | waits hslot hstate hruns hdue => simp [hruns] at he

/-- What others do is nothing to an agent. -/
theorem congr (h : Standing name s past) (hslot' : s'.slots[name]? = s.slots[name]?)
    (hruns' : s'.runsOf name = s.runsOf name) (hoptions : s'.options = s.options)
    (hopen' : ∀ e ∈ s.runsOf name, s'.outcomes.lookup e.id = none) : Standing name s' past := by
  cases h with
  | unknown hslot hruns => exact .unknown (hslot'.trans hslot) (hruns'.trans hruns)
  | running hslot hruns hopen =>
      have hmem := hruns ▸ List.mem_singleton.2 rfl
      exact .running ((Slots.isRunning_congr hslot').trans hslot) (hruns'.trans hruns) (hopen' _ hmem)
  | waits hslot hstate hruns hdue =>
      exact .waits (hslot'.trans hslot) hstate (hruns'.trans hruns) (hoptions ▸ hdue)

/-! ## What begins and what ends -/

/-- What is claimed and begins is the latest execution of its agent. -/
theorem adding (h : Standing name s past) (hs : Numbered s) (hid : e.id = s.begun)
    (hbegun : e.asBegun = e) (hrunning : s.slots.isRunning e.name = false) (now : Nat) :
    Standing name ((s.claimed now e.name).adding e)
      (if e.name = name then some { execution := e } else past) := by
  have hruns := runsOf_adding (s.claimed now e.name) e name
  have hopen : s.outcomes.lookup e.id = none := by
    rw [List.lookup_eq_none_iff]
    intro outcome houtcome
    have hlt := hs.ended outcome houtcome
    rw [bne_iff_ne, hid]
    omega
  by_cases hname : e.name = name
  · subst hname
    -- Nothing is marked, so nothing of the agent is in flight yet.
    have hfree : (s.claimed now e.name).runsOf e.name = [] := h.runsOf_eq_nil hrunning
    rw [if_pos rfl, hfree, hbegun, List.nil_append] at hruns
    rw [if_pos rfl]
    refine .running ?_ hruns hopen
    change (s.slots.claim e.name now).isRunning e.name = true
    simp [Slots.isRunning_claim]
  · rw [if_neg hname, List.append_nil] at hruns
    rw [if_neg hname]
    refine h.congr ?_ hruns rfl h.lookup_eq_none
    change (s.slots.claim e.name now)[name]? = s.slots[name]?
    rw [Slots.getElem?_claim, if_neg hname]

/-- The end of an execution says when its agent is due. -/
theorem finish (h : Standing name s past) (hs : Numbered s) (he : e.asBegun ∈ s.runs) (now : Nat)
    (result : Except Error MergeStats) : Standing name (s.finish now e result)
      (past.map (·.noted now (s.finish now e result).outcomes)) := by
  have hruns := runsOf_finish s now e result name
  have htag : e.asBegun.tag ∈ s.tags := by
    rw [tags_eq_runs]
    exact List.mem_map_of_mem he
  -- If the execution is of the agent, it is the latest one; if it is not, the ids tell the two apart.
  by_cases hname : e.name = name
  · subst hname
    have hmem : e.asBegun ∈ s.runsOf e.name := List.mem_filter.2 ⟨he, beq_iff_eq.2 rfl⟩
    cases h with
    | unknown hslot hfree => simp [hfree] at hmem
    | waits hslot hstate hfree hdue => simp [hfree] at hmem
    | running hslot hflight hopen =>
        rw [hflight, List.mem_singleton] at hmem
        subst hmem
        have hgone : (s.finish now e result).runsOf e.name = [] := by
          rw [hruns, hflight]
          simp [Execution.asBegun]
        obtain ⟨slot, hslot', hstate, hnext⟩ :=
          Slots.exists_release hslot result.isOk now e.interval s.options.failureBackoff
        refine .waits hslot' hstate hgone ?_
        simp only [Record.due?, Record.noted, finish, observe, Execution.asBegun, List.lookup_cons_self]
        exact congrArg some hnext.symm
  · have hother : ∀ r ∈ s.runsOf name, r.id ≠ e.id := by
      intro r hr hid
      obtain ⟨hr, hrname⟩ := List.mem_filter.1 hr
      exact hname ((hs.name_eq htag hr hid).symm.trans (beq_iff_eq.1 hrname))
    have hsame : (s.finish now e result).runsOf name = s.runsOf name := by
      rw [hruns, List.filter_eq_self]
      exact fun r hr => bne_iff_ne.2 (hother r hr)
    have hopen : ∀ r ∈ s.runsOf name, (s.finish now e result).outcomes.lookup r.id = none := by
      intro r hr
      change ((e.id, result) :: s.outcomes).lookup r.id = none
      rw [List.lookup_cons, beq_false_of_ne (hother r hr)]
      exact h.lookup_eq_none r hr
    rw [h.map_noted hopen]
    exact h.congr (Slots.getElem?_release hname) hsame rfl hopen

theorem begin (h : Standing name s past) (hs : Numbered s) {k : Nat} {agent : String}
    (hagent : (s.profileOf k).agent = agent) (hrunning : s.slots.isRunning agent = false) (now : Nat)
    (isDispatched : Bool) :
    Standing name ((s.claimed now agent).begin now k isDispatched)
      ((if agent = name then some { execution := s.nextExecution now k isDispatched } else past).map
        (·.noted now ((s.claimed now agent).begin now k isDispatched).outcomes)) := by
  subst hagent
  have hadding := h.adding (e := s.nextExecution now k isDispatched) hs rfl rfl hrunning now
  have hnumbered : Numbered ((s.claimed now (s.profileOf k).agent).adding
      (s.nextExecution now k isDispatched)) := Numbered.adding { hs with } rfl
  rw [begin_eq]
  dsimp only
  split
  · refine hadding.finish hnumbered ?_ now _
    exact List.mem_map_of_mem (List.mem_append_right _ (List.mem_singleton.2 rfl))
  · have hnoted := hadding.map_noted hadding.lookup_eq_none now
    exact hnoted.symm ▸ hadding

/-- Whatever an execution does by itself, the slot of its agent tells of it. -/
theorem advance (h : Standing name s past) (hs : Numbered s) (he : e ∈ s.executions)
    (hs' : Advance now e s s') : Standing name s' (past.map (·.noted now s'.outcomes)) := by
  have hgoes : ∀ {s₁ : Scheduler B}, GoesOn e.id s s₁ → Standing name s₁ past := fun hgoes =>
    h.congr (by rw [hgoes.slots]) (by rw [runsOf, hgoes.runs, runsOf]) hgoes.options
      (hgoes.outcomes ▸ h.lookup_eq_none)
  cases hs' with
  | inl hs' =>
      have hstands := hgoes hs'
      rwa [hstands.map_noted hstands.lookup_eq_none]
  | inr hs' =>
      obtain ⟨s₁, e', result, hs₁, he', rfl⟩ := hs'
      have hmem : e'.asBegun ∈ s₁.runs := by
        rw [he', hs₁.runs]
        exact List.mem_map_of_mem he
      exact (hgoes hs₁).finish (hs₁.numbered hs) hmem now result

end Standing

/-! ## What a move does to an agent -/

theorem begunBy_eq_none (h : (s.after move).begun = s.begun) : s.begunBy move = none := if_pos h

theorem latestAfter_of_begunBy {past : Option (Record B)} (h : s.begunBy move = some e) :
    latestAfter name past s move = (if e.name = name then some { execution := e } else past).map
      (·.noted move.time (s.after move).outcomes) := by
  by_cases hname : e.name = name <;> simp [latestAfter, h, hname, Option.filter_some]

theorem latestAfter_of_begun_eq {past : Option (Record B)} (h : (s.after move).begun = s.begun) :
    latestAfter name past s move = past.map (·.noted move.time (s.after move).outcomes) := by
  simp [latestAfter, begunBy_eq_none h]

theorem begun_begin (s : Scheduler B) (now k : Nat) (isDispatched : Bool) :
    (s.begin now k isDispatched).begun = s.begun + 1 := by
  rw [begin_eq]
  dsimp only
  split <;> rfl

theorem begun_ne_of_begin {k : Nat} {agent : String} {isDispatched : Bool}
    (h : s.after move = (s.claimed now agent).begin now k isDispatched) : (s.after move).begun ≠ s.begun := by
  rw [h, begun_begin]
  exact Nat.succ_ne_self _

/-- A step in which nothing begins or ends, and which leaves the slot of an agent alone. -/
structure Spares (name : String) (s s' : Scheduler B) : Prop where
  begun : s'.begun = s.begun
  options : s'.options = s.options
  slot : s'.slots[name]? = s.slots[name]?
  outcomes : s'.outcomes = s.outcomes
  runs : s'.runs = s.runs

theorem Spares.refl (name : String) (s : Scheduler B) : Spares name s s := ⟨rfl, rfl, rfl, rfl, rfl⟩

namespace Standing

variable {past : Option (Record B)}

theorem spares (h : Standing name s past) (hspares : Spares name s (s.after move)) :
    Standing name (s.after move) (latestAfter name past s move) := by
  have hopen := hspares.outcomes ▸ h.lookup_eq_none
  rw [latestAfter_of_begun_eq hspares.begun, h.map_noted hopen]
  exact h.congr hspares.slot (by rw [runsOf, hspares.runs, runsOf]) hspares.options hopen

theorem onExecution (h : Standing name s past) (hs : Numbered s) {id : Nat}
    {step : Execution B → Scheduler B} (hafter : s.after move = s.onExecution id step)
    (hstep : ∀ e ∈ s.executions, Advance move.time e s (step e)) :
    Standing name (s.after move) (latestAfter name past s move) := by
  have hgoes := onExecution_induction
    (P := fun s' => s'.begun = s.begun ∧ Standing name s' (past.map (·.noted move.time s'.outcomes))) id
    ⟨rfl, (h.map_noted h.lookup_eq_none move.time).symm ▸ h⟩
    fun e he => ⟨(hstep e he).begun, h.advance hs he (hstep e he)⟩
  rw [← hafter] at hgoes
  rw [latestAfter_of_begun_eq hgoes.1]
  exact hgoes.2

/-- What is called or dispatched is from then on the latest execution of its agent. -/
theorem begins (h : Standing name s past) (hs : Numbered s) {k : Nat} {agent : String}
    (hagent : (s.profileOf k).agent = agent) (hrunning : s.slots.isRunning agent = false)
    {isDispatched : Bool}
    (hafter : s.after move = (s.claimed move.time agent).begin move.time k isDispatched)
    (hbegun : s.begunBy move = some (s.nextExecution move.time k isDispatched)) :
    Standing name (s.after move) (latestAfter name past s move) := by
  have hbegin := h.begin hs hagent hrunning move.time isDispatched
  have hname : (s.nextExecution move.time k isDispatched).name = agent := hagent
  rwa [← hafter, ← hname, ← latestAfter_of_begunBy hbegun] at hbegin

/-- After every move the slot of an agent that stays registered tells of its latest execution. -/
theorem after (h : Standing name s past) (hs : Numbered s) (hnamed : Named s)
    (habsent : name ∉ s.registry.caching → s.slots[name]? = none) (hkeeps : s.Keeps name move) :
    Standing name (s.after move) (latestAfter name past s move) := by
  -- Only calls and looks of the dispatcher begin executions, only the moves of an execution end it, and all
  -- others spare the agent: its slot is dropped only while it is not registered, and then it has none.
  cases move with
  | register a =>
      refine h.spares ?_
      cases hs' : s.register a with
      | error e =>
          simp only [Scheduler.after, hs']
          exact .refl name s
      | ok s' =>
          obtain rfl := register_eq_ok hs'
          simp only [Scheduler.after, hs']
          exact ⟨rfl, rfl, rfl, rfl, rfl⟩
  | modifyAgent number change keeps => exact h.spares ⟨rfl, rfl, rfl, rfl, rfl⟩
  | deregister agent =>
      refine h.spares ?_
      simp only [Scheduler.after]
      split
      · rename_i hmem
        have hne : agent ≠ name := by
          rintro rfl
          have hkept := (hkeeps hmem).1
          simp [Scheduler.after, hmem, Registry.deregister] at hkept
        exact ⟨rfl, rfl, by simp [Std.ExtTreeMap.getElem?_erase, hne], rfl, rfl⟩
      · exact .refl name s
  | deregisterAccount provider account => exact h.spares ⟨rfl, rfl, rfl, rfl, rfl⟩
  | dropSlot agent =>
      refine h.spares ⟨rfl, rfl, ?_, rfl, rfl⟩
      simp only [Scheduler.after, Std.ExtTreeMap.getElem?_erase]
      split
      · rename_i hsame
        obtain rfl := Std.LawfulEqCmp.eq_of_compare hsame
        by_cases hmem : agent ∈ s.registry.caching
        · exact absurd rfl (hkeeps hmem).2
        · exact (habsent hmem).symm
      · rfl
  | call now agent =>
      cases hk : s.registry.caching[agent]? with
      | none =>
          refine h.spares ?_
          simp only [Scheduler.after, hk]
          exact .refl name s
      | some k =>
          cases hrunning : s.slots.isRunning agent with
          | true =>
              refine h.spares ?_
              simp only [Scheduler.after, hk, hrunning, if_true]
              exact ⟨rfl, rfl, rfl, rfl, rfl⟩
          | false =>
              have hafter : s.after (.call now agent) = (s.claimed now agent).begin now k false := by
                simp [Scheduler.after, hk, hrunning]
              refine h.begins hs (hnamed agent k hk).2 hrunning hafter ?_
              rw [begunBy, if_neg (begun_ne_of_begin hafter), hk]
              rfl
  | dispatch now agent =>
      cases hk : s.registry.caching[agent]? with
      | none =>
          refine h.spares ?_
          simp only [Scheduler.after, hk]
          exact .refl name s
      | some k =>
          have hafter : s.after (.dispatch now agent) = s.dispatch now agent k := by
            simp [Scheduler.after, hk]
          cases hdue : s.slots.isDue now agent with
          | true =>
              rw [dispatch_of_due hdue] at hafter
              refine h.begins hs (hnamed agent k hk).2 (Slots.not_running_of_isDue hdue) hafter ?_
              rw [begunBy, if_neg (begun_ne_of_begin hafter), hk]
              rfl
          | false =>
              rw [dispatch_of_not_due hdue] at hafter
              refine h.spares ?_
              rw [hafter]
              exact ⟨rfl, rfl, Slots.getElem?_claimIfDue_of_not_due hdue, rfl, rfl⟩
  | retain nextTick =>
      refine h.spares ⟨rfl, rfl, ?_, rfl, rfl⟩
      by_cases hmem : name ∈ s.registry.caching
      · exact Slots.getElem?_retain (Std.ExtTreeMap.mem_keys.2 hmem)
      · simp [Scheduler.after, Slots.retain, Std.ExtTreeMap.getElem?_filter, habsent hmem]
  | grant now id =>
      refine h.onExecution hs rfl fun e he => ?_
      split
      · exact advance_grant s now e
      · exact .inl (.refl _ _)
  | wake now id => exact h.onExecution hs rfl fun e he => advance_wake s now e
  | cancel now id => exact h.onExecution hs rfl fun e he => advance_finish s now e _
  | stop => exact h.spares ⟨rfl, rfl, rfl, rfl, rfl⟩
  | work cache activity => exact h.spares ⟨rfl, rfl, rfl, rfl, rfl⟩

end Standing

/-! ## Histories in which an agent stays registered -/

/-- Only of agents that are registered something begins. -/
theorem registered_of_begunBy (hnamed : Named s) (h : s.begunBy move = some e) :
    e.name ∈ s.registry.caching := by
  unfold begunBy at h
  have hmem : ∀ {agent : String} {now : Nat} {isDispatched : Bool},
      (s.registry.caching[agent]?).map (fun k => s.nextExecution now k isDispatched) = some e →
        e.name ∈ s.registry.caching := by
    intro agent now isDispatched h
    obtain ⟨k, hk, rfl⟩ := Option.map_eq_some_iff.1 h
    have hagent : (s.nextExecution now k isDispatched).name = agent := (hnamed agent k hk).2
    rw [hagent, Std.ExtTreeMap.mem_iff_isSome_getElem?, hk, Option.isSome_some]
  split at h
  · contradiction
  · split at h
    · exact hmem h
    · exact hmem h
    · contradiction

/-- What holds of an agent that was never deregistered. -/
structure Tracked (name : String) (s : Scheduler B) (past : Option (Record B)) : Prop where
  numbered : Numbered s
  named : Named s
  standing : Standing name s past
  absent : name ∉ s.registry.caching → past = none

namespace Tracked

variable {past : Option (Record B)}

theorem fresh (name : String) (options : Options) (engine : Engine) (cache : B.State) :
    Tracked name ({ options, engine, cache } : Scheduler B) none where
  numbered := .fresh options engine cache
  named := named_fresh options engine cache
  standing := .unknown (by simp) rfl
  absent _ := rfl

theorem after (h : Tracked name s past) (hkeeps : s.Keeps name move) :
    Tracked name (s.after move) (latestAfter name past s move) where
  numbered := h.numbered.after move
  named := (enrols_after s move).named h.named
  standing := h.standing.after h.numbered h.named
    (fun habsent => (h.absent habsent ▸ h.standing).slot_eq_none) hkeeps
  absent habsent := by
    have hold : name ∉ s.registry.caching := fun hmem => habsent (hkeeps hmem).1
    have hother : (s.begunBy move).filter (·.name == name) = none := by
      rw [Option.filter_eq_none_iff]
      intro e he hname
      exact hold (beq_iff_eq.1 hname ▸ registered_of_begunBy h.named he)
    rw [latestAfter, hother, h.absent hold]
    rfl

theorem foldl {moves : List (Move B)} (h : Tracked name s past) (hstays : s.Stays name moves) :
    Tracked name (moves.foldl Scheduler.after s) (s.latest name past moves) := by
  induction moves generalizing s past with
  | nil => exact h
  | cons move moves ih => exact ih (h.after hstays.1) hstays.2

end Tracked

end Scheduler

end Inventory
