import Inventory.Proofs.Collections
import Inventory.Schedule.Scheduler
import Mathlib.Data.List.Nodup

/-!
# Inventory.Proofs.Schedule.Executions

An agent that runs is marked as running.

A slot is marked by the claim that begins an execution and unmarked by the release that ends it, so the
marks and the executions in flight go together as long as nobody drops the slot of a registered agent
in between. `Scheduler.Exclusive` says how they go together; from it follows that no two executions in
flight are of the same agent. All that an execution can do by itself is described once (`Advance`).
-/

namespace Inventory

/-! ## Slots -/

namespace Schedule.Slots

variable {slots : Slots} {agent other : String} {now : Nat}

theorem getElem?_claim : (slots.claim agent now)[other]? =
    if agent = other then some { slots.slotOf agent now with state := .running } else slots[other]? := by
  simp [claim, Std.ExtTreeMap.getElem?_insert]

theorem getElem?_release {succeeded : Bool} {interval backoff : Duration} (h : agent ≠ other) :
    (slots.release agent succeeded now interval backoff)[other]? = slots[other]? := by
  unfold release
  split
  · simp [Std.ExtTreeMap.getElem?_insert, h]
  · rfl

theorem getElem?_retain {agents : List String} (h : other ∈ agents) :
    (slots.retain agents)[other]? = slots[other]? := by
  cases hslot : slots[other]? <;> simp [retain, Std.ExtTreeMap.getElem?_filter, hslot, h]

/-- A new slot is due at once, so to look at an agent that is not due changes nothing. -/
theorem getElem?_claimIfDue_of_not_due (h : slots.isDue now agent = false) :
    (slots.claimIfDue now agent)[other]? = slots[other]? := by
  rw [claimIfDue, h, if_neg Bool.false_ne_true, Std.ExtTreeMap.getElem?_insert]
  split
  · rename_i hsame
    obtain rfl := Std.LawfulEqCmp.eq_of_compare hsame
    cases hslot : slots[agent]? <;> simp_all [isDue, slotOf]
  · rfl

theorem isRunning_congr {slots' : Slots} (h : slots'[agent]? = slots[agent]?) :
    slots'.isRunning agent = slots.isRunning agent := by
  rw [isRunning, h, isRunning]

theorem isDue_congr {slots' : Slots} (h : slots'[agent]? = slots[agent]?) :
    slots'.isDue now agent = slots.isDue now agent := by
  have hslot : slots'.slotOf agent now = slots.slotOf agent now := by rw [slotOf, h, slotOf]
  rw [isDue, hslot, isDue]

theorem isRunning_claim :
    (slots.claim agent now).isRunning other = (agent == other || slots.isRunning other) := by
  by_cases h : agent = other <;> simp [isRunning, getElem?_claim, h]

theorem isRunning_erase (h : agent ≠ other) :
    isRunning (slots.erase agent) other = slots.isRunning other := by
  simp [isRunning, Std.ExtTreeMap.getElem?_erase, h]

theorem isRunning_erase_self : isRunning (slots.erase agent) agent = false := by
  simp [isRunning]

theorem not_running_of_isDue (h : slots.isDue now agent = true) :
    slots.isRunning agent = false := by
  cases hslot : slots[agent]? <;> simp_all [isDue, isRunning, slotOf]

/-- The end of a run says when the agent is due. -/
theorem exists_release (h : slots.isRunning agent = true) (succeeded : Bool) (now : Nat)
    (interval backoff : Duration) :
    ∃ slot : Slot, (slots.release agent succeeded now interval backoff)[agent]? = some slot ∧
      slot.state ≠ .running ∧ slot.nextRun = now + (if succeeded then interval else backoff).nanoseconds := by
  have hmem : agent ∈ slots := by
    rw [Std.ExtTreeMap.mem_iff_isSome_getElem?]
    cases hslot : slots[agent]? with
    | none => simp [isRunning, hslot] at h
    | some slot => rfl
  rw [release, if_pos hmem, Std.ExtTreeMap.getElem?_insert_self]
  cases succeeded with
  | true => exact ⟨_, rfl, nofun, rfl⟩
  | false => exact ⟨_, rfl, nofun, rfl⟩

end Schedule.Slots

/-! ## What an execution does by itself -/

/-- What identifies an execution: its id and the name of its agent. -/
def Execution.tag {B : Backend} (e : Execution B) : Nat × String := (e.id, e.name)

/-- An execution as it was when it began. -/
def Execution.asBegun {B : Backend} (e : Execution B) : Execution B := { e with phase := .waiting }

namespace Scheduler

variable {B : Backend} {s s₁ s' : Scheduler B} {e e' : Execution B} {now : Nat}

/-- The executions in flight. -/
def tags (s : Scheduler B) : List (Nat × String) := s.executions.map Execution.tag

/-- The executions in flight as they were when they began. -/
def runs (s : Scheduler B) : List (Execution B) := s.executions.map Execution.asBegun

theorem tags_eq_runs (s : Scheduler B) : s.tags = s.runs.map Execution.tag := by
  simp only [tags, runs, List.map_map]
  rfl

/-- A step that begins and ends no execution and leaves the agents, their slots and the dispatcher alone;
of the executions it changes only the one of an id. -/
structure GoesOn (id : Nat) (s s' : Scheduler B) : Prop where
  registry : s'.registry = s.registry
  names : s'.agents.map CachingAgent.name = s.agents.map CachingAgent.name
  begun : s'.begun = s.begun
  options : s'.options = s.options
  slots : s'.slots = s.slots
  outcomes : s'.outcomes = s.outcomes
  isShutDown : s'.isShutDown = s.isShutDown
  nextTick : s'.nextTick = s.nextTick
  runs : s'.runs = s.runs
  others : ∀ e : Execution B, e.id ≠ id → (e ∈ s'.executions ↔ e ∈ s.executions)

/-- What an execution may do by itself: it goes on, or it goes on and ends now. -/
def Advance (now : Nat) (e : Execution B) (s s' : Scheduler B) : Prop :=
  GoesOn e.id s s' ∨ ∃ (s₁ : Scheduler B) (e' : Execution B) (result : Except Error MergeStats),
    GoesOn e.id s s₁ ∧ e'.asBegun = e.asBegun ∧ s' = s₁.finish now e' result

theorem Execution.tag_congr (h : e'.asBegun = e.asBegun) : e'.tag = e.tag := by
  have htag : e'.asBegun.tag = e.asBegun.tag := congrArg Execution.tag h
  exact htag

theorem GoesOn.refl (id : Nat) (s : Scheduler B) : GoesOn id s s :=
  ⟨rfl, rfl, rfl, rfl, rfl, rfl, rfl, rfl, rfl, fun _ _ => .rfl⟩

theorem GoesOn.trans {id : Nat} (h₁ : GoesOn id s s₁) (h : GoesOn id s₁ s') : GoesOn id s s' where
  registry := h.registry.trans h₁.registry
  names := h.names.trans h₁.names
  begun := h.begun.trans h₁.begun
  options := h.options.trans h₁.options
  slots := h.slots.trans h₁.slots
  outcomes := h.outcomes.trans h₁.outcomes
  isShutDown := h.isShutDown.trans h₁.isShutDown
  nextTick := h.nextTick.trans h₁.nextTick
  runs := h.runs.trans h₁.runs
  others e he := (h.others e he).trans (h₁.others e he)

theorem GoesOn.tags {id : Nat} (h : GoesOn id s s') : s'.tags = s.tags := by
  rw [tags_eq_runs, h.runs, tags_eq_runs]

theorem GoesOn.advance (h₁ : GoesOn e.id s s₁) (h : Advance now e s₁ s') : Advance now e s s' := by
  cases h with
  | inl h => exact .inl (h₁.trans h)
  | inr h =>
      obtain ⟨s₂, e', result, h₂, he', rfl⟩ := h
      exact .inr ⟨s₂, e', result, h₁.trans h₂, he', rfl⟩

theorem advance_finish (s : Scheduler B) (now : Nat) (e : Execution B)
    (result : Except Error MergeStats) : Advance now e s (s.finish now e result) :=
  .inr ⟨s, e, result, .refl _ _, rfl, rfl⟩

section Keeps

variable (h : Advance now e s s')

include h

/-- What an execution changes neither when it goes on nor when it ends it does not change. -/
theorem Advance.keeps {α : Type} (field : Scheduler B → α)
    (hgoes : ∀ {s₁ : Scheduler B}, GoesOn e.id s s₁ → field s₁ = field s)
    (hfinish : ∀ (s₁ : Scheduler B) e' result, field (s₁.finish now e' result) = field s₁) :
    field s' = field s := by
  cases h with
  | inl h => exact hgoes h
  | inr h =>
      obtain ⟨s₁, e', result, h, -, rfl⟩ := h
      exact (hfinish s₁ e' result).trans (hgoes h)

theorem Advance.registry : s'.registry = s.registry :=
  h.keeps Scheduler.registry (·.registry) fun _ _ _ => rfl

theorem Advance.begun : s'.begun = s.begun :=
  h.keeps Scheduler.begun (·.begun) fun _ _ _ => rfl

theorem Advance.options : s'.options = s.options :=
  h.keeps Scheduler.options (·.options) fun _ _ _ => rfl

theorem Advance.isShutDown : s'.isShutDown = s.isShutDown :=
  h.keeps Scheduler.isShutDown (·.isShutDown) fun _ _ _ => rfl

theorem Advance.nextTick : s'.nextTick = s.nextTick :=
  h.keeps Scheduler.nextTick (·.nextTick) fun _ _ _ => rfl

end Keeps

theorem goesOn_setPhase (s : Scheduler B) (id : Nat) (phase : Phase B) :
    GoesOn id s (s.setPhase id phase) where
  registry := rfl
  names := rfl
  begun := rfl
  options := rfl
  slots := rfl
  outcomes := rfl
  isShutDown := rfl
  nextTick := rfl
  runs := by
    simp only [runs, setPhase, List.map_map]
    congr 1
    funext e
    by_cases he : e.id = id <;> simp [he, Execution.asBegun]
  others e he := by
    simp only [setPhase, List.mem_map]
    constructor
    · rintro ⟨e', he', rfl⟩
      by_cases hid : e'.id = id
      · simp [hid] at he
      · simpa [hid] using he'
    · intro hmem
      exact ⟨e, hmem, if_neg he⟩

theorem goesOn_follow {α : Type} (id : Nat) (s : Scheduler B) (work : B.Work α) :
    GoesOn id s (s.follow work).1 := ⟨rfl, rfl, rfl, rfl, rfl, rfl, rfl, rfl, rfl, fun _ _ => .rfl⟩

theorem advance_proceed (s : Scheduler B) (now : Nat) (e : Execution B) (source : Source)
    (deadline : Nat) (work : B.Work MergeStats) :
    Advance now e s (s.proceed now e source deadline work) := by
  have hfollow := goesOn_follow e.id s work
  unfold proceed
  split
  · rename_i s₁ result h
    rw [h] at hfollow
    exact hfollow.advance (advance_finish _ _ _ _)
  · rename_i s₁ rest h
    rw [h] at hfollow
    split
    · exact hfollow.advance (advance_finish _ _ _ _)
    · exact hfollow.advance (.inl (goesOn_setPhase _ _ _))

theorem advance_loaded (s : Scheduler B) (now : Nat) (e : Execution B)
    (report : Except Error Report) : Advance now e s (s.loaded now e report) := by
  cases report with
  | error err => exact advance_finish _ _ _ _
  | ok r =>
      dsimp only [loaded]
      split
      · exact advance_finish _ _ _ _
      · exact advance_proceed _ _ _ _ _ _

theorem advance_load (s : Scheduler B) (now : Nat) (e : Execution B) (ready deadline : Nat) :
    Advance now e s (s.load now e ready deadline) := by
  unfold load
  split
  · exact advance_loaded _ _ _ _
  · split
    · exact advance_finish _ _ _ _
    · exact .inl (.refl _ _)

theorem names_modifyAgent (s : Scheduler B) (number : Nat) {change : CachingAgent → CachingAgent}
    (keeps : ∀ a, (change a).name = a.name) :
    (s.modifyAgent number change).agents.map CachingAgent.name =
      s.agents.map CachingAgent.name := by
  simp only [modifyAgent]
  induction s.agents generalizing number with
  | nil => simp
  | cons a agents ih =>
      cases number with
      | zero => simp [keeps]
      | succ number => simpa using ih number

/-- To wait for the data, an execution takes a permit, and its agent is asked. -/
theorem goesOn_asked (s : Scheduler B) (now : Nat) (e : Execution B) (phase : Phase B) :
    GoesOn e.id s ((({ s with permits := s.permits - 1 }.setPhase e.id phase).observe now e.name
      .started).modifyAgent e.agent fun a => { a with calls := a.calls + 1 }) := by
  have hpermit : GoesOn e.id s { s with permits := s.permits - 1 } :=
    ⟨rfl, rfl, rfl, rfl, rfl, rfl, rfl, rfl, rfl, fun _ _ => .rfl⟩
  have hobserved : ∀ s : Scheduler B, GoesOn e.id s (s.observe now e.name .started) :=
    fun _ => ⟨rfl, rfl, rfl, rfl, rfl, rfl, rfl, rfl, rfl, fun _ _ => .rfl⟩
  have hphase := hpermit.trans ((goesOn_setPhase _ e.id phase).trans (hobserved _))
  have hasked : ∀ s : Scheduler B, GoesOn e.id s
      (s.modifyAgent e.agent fun a => { a with calls := a.calls + 1 }) :=
    fun s => ⟨rfl, s.names_modifyAgent e.agent fun _ => rfl, rfl, rfl, rfl, rfl, rfl, rfl, rfl, fun _ _ => .rfl⟩
  exact hphase.trans (hasked _)

theorem advance_grant (s : Scheduler B) (now : Nat) (e : Execution B) :
    Advance now e s (s.grant now e) := by
  have hload := fun (s : Scheduler B) ready deadline => advance_load s now
    { e with phase := .loading ready deadline } ready deadline
  exact (goesOn_asked s now e _).advance (hload _ _ _)

theorem advance_wake (s : Scheduler B) (now : Nat) (e : Execution B) :
    Advance now e s (s.wake now e) := by
  unfold wake
  cases e.phase with
  | waiting => exact .inl (.refl _ _)
  | loading ready deadline => exact advance_load _ _ _ _ _
  | merging source since deadline rest =>
      dsimp only
      split
      · exact advance_proceed _ _ _ _ _ _
      · split
        · exact advance_finish _ _ _ _
        · exact .inl (.refl _ _)

/-! ## Agents that run are marked -/

/-- Executions are told apart by their ids, and those to come have other ids. -/
structure Numbered (s : Scheduler B) : Prop where
  numbered : (s.tags.map Prod.fst).Nodup
  begun : ∀ tag ∈ s.tags, tag.1 < s.begun
  ended : ∀ outcome ∈ s.outcomes, outcome.1 < s.begun

/-- Executions are told apart, agents are registered under their names, and the executions in flight are
of different agents, of which those that are registered are marked as running. -/
structure Exclusive (s : Scheduler B) : Prop extends Numbered s where
  named : ∀ (name : String) (k : Nat), s.registry.caching[name]? = some k →
    (s.agents.map CachingAgent.name)[k]? = some name
  running : ∀ tag ∈ s.tags, tag.2 ∈ s.registry.caching → s.slots.isRunning tag.2 = true
  alone : (s.tags.map Prod.snd).Nodup

theorem agent_profileOf {name : String} {k : Nat}
    (hname : (s.agents.map CachingAgent.name)[k]? = some name) : (s.profileOf k).agent = name := by
  rw [List.getElem?_map, Option.map_eq_some_iff] at hname
  obtain ⟨a, ha, rfl⟩ := hname
  simp [profileOf, agentOf, ha, CachingAgent.profile]

theorem GoesOn.numbered {id : Nat} (h : GoesOn id s s') (hs : Numbered s) : Numbered s' where
  numbered := h.tags ▸ hs.numbered
  begun := by rw [h.tags, h.begun]; exact hs.begun
  ended := by rw [h.outcomes, h.begun]; exact hs.ended

theorem GoesOn.exclusive {id : Nat} (h : GoesOn id s s') (hs : Exclusive s) : Exclusive s' where
  toNumbered := h.numbered hs.toNumbered
  named := by rw [h.registry, h.names]; exact hs.named
  running := by rw [h.tags, h.registry, h.slots]; exact hs.running
  alone := h.tags ▸ hs.alone

theorem tags_finish (s : Scheduler B) (now : Nat) (e : Execution B)
    (result : Except Error MergeStats) :
    (s.finish now e result).tags = s.tags.filter fun tag => tag.1 != e.id := by
  simp only [tags, finish, observe, List.filter_map]
  rfl

theorem Numbered.finish (h : Numbered s) (he : e.tag ∈ s.tags) (now : Nat)
    (result : Except Error MergeStats) : Numbered (s.finish now e result) where
  numbered := by
    rw [tags_finish]
    exact h.numbered.sublist (List.filter_sublist.map _)
  begun tag htag := by
    rw [tags_finish] at htag
    exact h.begun tag (List.mem_filter.1 htag).1
  ended outcome houtcome := by
    rcases List.mem_cons.1 houtcome with rfl | hold
    · exact h.begun e.tag he
    · exact h.ended outcome hold

/-- The end of an execution unmarks its agent, of which nothing else is in flight. -/
theorem Exclusive.finish (h : Exclusive s) (he : e.tag ∈ s.tags) (now : Nat)
    (result : Except Error MergeStats) : Exclusive (s.finish now e result) where
  toNumbered := h.toNumbered.finish he now result
  named := h.named
  running tag htag hregistered := by
    rw [tags_finish, List.mem_filter] at htag
    have hne : e.name ≠ tag.2 := by
      intro hname
      have hsame := List.inj_on_of_nodup_map h.alone he htag.1 hname
      simp [← hsame, Execution.tag] at htag
    exact (Schedule.Slots.isRunning_congr (Schedule.Slots.getElem?_release hne)).trans
      (h.running tag htag.1 hregistered)
  alone := by
    rw [tags_finish]
    exact h.alone.sublist (List.filter_sublist.map _)

theorem Numbered.advance (h : Numbered s) (he : e.tag ∈ s.tags) (hs' : Advance now e s s') :
    Numbered s' := by
  cases hs' with
  | inl hgoes => exact hgoes.numbered h
  | inr hends =>
      obtain ⟨s₁, e', result, hgoes, he', rfl⟩ := hends
      rw [← Execution.tag_congr he', ← hgoes.tags] at he
      exact (hgoes.numbered h).finish he now result

/-- Whatever an execution in flight does by itself, the agents that run remain marked. -/
theorem Exclusive.advance (h : Exclusive s) (he : e.tag ∈ s.tags) (hs' : Advance now e s s') :
    Exclusive s' := by
  cases hs' with
  | inl hgoes => exact hgoes.exclusive h
  | inr hends =>
      obtain ⟨s₁, e', result, hgoes, he', rfl⟩ := hends
      rw [← Execution.tag_congr he', ← hgoes.tags] at he
      exact (hgoes.exclusive h).finish he now result

/-- Of an agent that is registered and not marked nothing is in flight. -/
theorem Exclusive.not_mem_names (h : Exclusive s) {name : String} (hname : name ∈ s.registry.caching)
    (hrunning : s.slots.isRunning name = false) : name ∉ s.tags.map Prod.snd := by
  intro hmem
  obtain ⟨tag, htag, rfl⟩ := List.mem_map.1 hmem
  simp [h.running tag htag hname] at hrunning

/-- The execution of an agent that begins next. -/
def nextExecution (s : Scheduler B) (now k : Nat) (isDispatched : Bool) : Execution B where
  id := s.begun
  agent := k
  name := (s.profileOf k).agent
  interval := (s.profileOf k).interval.getD s.options.defaultInterval
  began := now
  isDispatched := isDispatched

/-- The scheduler with one more execution. -/
def adding (s : Scheduler B) (e : Execution B) : Scheduler B :=
  { s with executions := s.executions ++ [e], begun := s.begun + 1 }

theorem begin_eq (s : Scheduler B) (now k : Nat) (isDispatched : Bool) :
    s.begin now k isDispatched =
      let e := s.nextExecution now k isDispatched
      if s.isShutDown then (s.adding e).cancel now e else s.adding e := rfl

theorem tags_adding (s : Scheduler B) (e : Execution B) : (s.adding e).tags = s.tags ++ [e.tag] := by
  simp [tags, adding]

/-- The scheduler with an agent marked as running. -/
def claimed (s : Scheduler B) (now : Nat) (name : String) : Scheduler B :=
  { s with slots := s.slots.claim name now }

@[simp] theorem tags_claimed (s : Scheduler B) (now : Nat) (name : String) :
    (s.claimed now name).tags = s.tags := rfl

theorem Numbered.adding (h : Numbered s) (hid : e.id = s.begun) : Numbered (s.adding e) where
  numbered := by
    have hfresh : s.begun ∉ s.tags.map Prod.fst := by
      intro hmem
      obtain ⟨tag, htag, heq⟩ := List.mem_map.1 hmem
      have hlt := h.begun tag htag
      omega
    rw [tags_adding, List.map_append]
    exact h.numbered.append (by simp) (by simpa [Execution.tag, hid] using hfresh)
  begun tag htag := by
    rw [tags_adding, List.mem_append, List.mem_singleton] at htag
    change tag.1 < s.begun + 1
    cases htag with
    | inl hold =>
        have hlt := h.begun tag hold
        omega
    | inr hself => simp [hself, Execution.tag, hid]
  ended outcome houtcome := Nat.lt_succ_of_lt (h.ended outcome houtcome)

/-- An agent that is not marked is marked and begins. -/
theorem Exclusive.claimed_adding (h : Exclusive s) (hid : e.id = s.begun)
    (hname : e.name ∈ s.registry.caching) (hrunning : s.slots.isRunning e.name = false) (now : Nat) :
    Exclusive ((s.claimed now e.name).adding e) where
  toNumbered := Numbered.adding (s := s.claimed now e.name) ⟨h.numbered, h.begun, h.ended⟩ hid
  named := h.named
  running tag htag hregistered := by
    rw [tags_adding, List.mem_append, List.mem_singleton] at htag
    change (s.slots.claim e.name now).isRunning tag.2 = true
    rw [Schedule.Slots.isRunning_claim]
    cases htag with
    | inl hold => simp [h.running tag hold hregistered]
    | inr hself => simp [hself, Execution.tag]
  alone := by
    have hnew := h.not_mem_names hname hrunning
    rw [tags_adding, tags_claimed, List.map_append]
    exact h.alone.append (by simp) (by simpa [Execution.tag] using hnew)

theorem Numbered.begin (h : Numbered s) (now k : Nat) (isDispatched : Bool) :
    Numbered (s.begin now k isDispatched) := by
  have hadding := h.adding (e := s.nextExecution now k isDispatched) rfl
  rw [begin_eq]
  dsimp only
  split
  · refine hadding.finish ?_ now _
    rw [tags_adding]
    exact List.mem_append_right _ (List.mem_singleton.2 rfl)
  · exact hadding

theorem Exclusive.begin (h : Exclusive s) {name : String} {k : Nat}
    (hk : s.registry.caching[name]? = some k) (hrunning : s.slots.isRunning name = false)
    (now : Nat) (isDispatched : Bool) : Exclusive ((s.claimed now name).begin now k isDispatched) := by
  have hname := agent_profileOf (h.named name k hk)
  subst hname
  have hregistered : (s.profileOf k).agent ∈ s.registry.caching := by
    rw [Std.ExtTreeMap.mem_iff_isSome_getElem?, hk, Option.isSome_some]
  have hadding := h.claimed_adding (e := s.nextExecution now k isDispatched) rfl hregistered
    hrunning now
  rw [begin_eq]
  dsimp only
  split
  · refine hadding.finish ?_ now _
    rw [tags_adding]
    exact List.mem_append_right _ (List.mem_singleton.2 rfl)
  · exact hadding

theorem dispatch_of_due {name : String} (hdue : s.slots.isDue now name = true) (k : Nat) :
    s.dispatch now name k = (s.claimed now name).begin now k true := by
  simp [Scheduler.dispatch, hdue, Schedule.Slots.claimIfDue, claimed]

theorem dispatch_of_not_due {name : String} (hdue : s.slots.isDue now name = false) (k : Nat) :
    s.dispatch now name k = { s with slots := s.slots.claimIfDue now name } := by
  simp [Scheduler.dispatch, hdue]

/-- A look at a registered agent begins an execution only if none is in flight. -/
theorem Exclusive.dispatch (h : Exclusive s) {name : String} {k : Nat}
    (hk : s.registry.caching[name]? = some k) (now : Nat) : Exclusive (s.dispatch now name k) := by
  cases hdue : s.slots.isDue now name with
  | true =>
      rw [dispatch_of_due hdue]
      exact h.begin hk (Schedule.Slots.not_running_of_isDue hdue) now true
  | false =>
      have hsame : ∀ other, (s.slots.claimIfDue now name).isRunning other = s.slots.isRunning other :=
        fun _ => Schedule.Slots.isRunning_congr (Schedule.Slots.getElem?_claimIfDue_of_not_due hdue)
      rw [dispatch_of_not_due hdue]
      exact { h with
        running := fun tag htag hregistered => (hsame tag.2).trans (h.running tag htag hregistered) }

end Scheduler

end Inventory
