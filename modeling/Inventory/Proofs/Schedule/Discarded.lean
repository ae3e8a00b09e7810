import Inventory.Proofs.Schedule.Chronicle
import Inventory.Proofs.Schedule.Punctual

/-!
# Inventory.Proofs.Schedule.Discarded

Runs that are discarded have asked the backend nothing.

Everything that a scheduler does on a timeline is made of turns between which time goes on, up to the next
time that an execution waits for and never past one (`Timeline.Unfolds`). So whoever loads is looked at when
its time is up (`Timeline.Prompt`), and whoever merges is never cancelled. What the past tells of an
execution that has ended by its load is therefore told without exception: it has asked nothing.
-/

namespace Inventory

open Error (IsOfCache)

namespace Timeline

open Scheduler

variable {B : Backend} {start t t' : Timeline B} {past turns : List (Turn B)}

/-! ## Turns as time goes on -/

/-- The turns by which one timeline has become another. What a scheduler makes by itself it makes at the time
it is; the rest, which is all that happens from outside, may come at any time. -/
inductive Unfolds (start : Timeline B) : List (Turn B) → Timeline B → Prop
  | start : Unfolds start [] start
  | turn {past : List (Turn B)} {t : Timeline B} {move : Move B} {s' : Scheduler B}
      (h : Unfolds start past t) (hown : move.isOwn = true → OwnAt t.now t.scheduler move)
      (hmakes : t.scheduler.Makes move s') :
      Unfolds start (past ++ [⟨t.scheduler, move, s'⟩]) { t with scheduler := s' }
  /-- Time goes on, but not past a time that an execution waits for. -/
  | later {past : List (Turn B)} {t : Timeline B} {now : Nat} (h : Unfolds start past t) (hle : t.now ≤ now)
      (hwakes : ∀ e ∈ t.scheduler.executions, ∀ time, e.wakeTime? = some time → now ≤ time) :
      Unfolds start past { t with now }

namespace Unfolds

theorem trans (h₁ : start.Unfolds past t) (h : t.Unfolds turns t') : start.Unfolds (past ++ turns) t' := by
  induction h with
  | start => rwa [List.append_nil]
  | turn _ hown hmakes ih =>
      rw [← List.append_assoc]
      exact ih.turn hown hmakes
  | later _ hle hwakes ih => exact ih.later hle hwakes

theorem passes (h : start.Unfolds turns t) : Passes start.scheduler turns t.scheduler := by
  induction h with
  | start => exact .start
  | turn _ _ hmakes ih => exact ih.turn hmakes
  | later _ _ _ ih => exact ih

/-- Every turn comes after turns of its own, at a time. -/
theorem split {earlier later : List (Turn B)} {b : Turn B} (h : start.Unfolds turns t)
    (hturns : turns = earlier ++ b :: later) :
    ∃ now, start.Unfolds earlier ⟨now, b.before⟩ ∧ (b.move.isOwn = true → OwnAt now b.before b.move) ∧
      b.before.Makes b.move b.after := by
  induction h generalizing later with
  | start => simp at hturns
  | later _ _ _ ih => exact ih hturns
  | turn hpast hown hmakes ih =>
      rcases List.eq_nil_or_concat later with rfl | ⟨later, last, rfl⟩
      · obtain ⟨rfl, hlast⟩ := List.append_inj' hturns rfl
        obtain rfl := (List.cons.inj hlast).1
        exact ⟨_, hpast, hown, hmakes⟩
      · rw [List.concat_eq_append, ← List.cons_append, ← List.append_assoc] at hturns
        exact ih (List.append_inj' hturns rfl).1

/-- Nothing that merges is cancelled. -/
theorem not_cuts (h : start.Unfolds turns t) {b : Turn B} (hb : b ∈ turns) (id : Nat) : ¬b.Cuts id := by
  obtain ⟨earlier, later, hturns⟩ := List.append_of_mem hb
  obtain ⟨now, -, hown, -⟩ := h.split hturns
  rintro ⟨e, he, -, hmerges, time, hmove⟩
  have hcancel := hown (by rw [hmove, Move.isOwn])
  rw [hmove] at hcancel
  cases hcancel with
  | cancel _ hspares =>
      rw [hspares e he rfl] at hmerges
      contradiction

end Unfolds

/-! ## What an operation does -/

/-- Whether turns that a scheduler makes by itself lead from one timeline to another. -/
def Proceeds (t t' : Timeline B) : Prop := ∃ turns, t.Unfolds turns t' ∧ ∀ b ∈ turns, b.move.isOwn = true

theorem Proceeds.refl (t : Timeline B) : t.Proceeds t := ⟨[], .start, List.forall_mem_nil _⟩

theorem Proceeds.trans {t₁ : Timeline B} (h₁ : t.Proceeds t₁) (h : t₁.Proceeds t') : t.Proceeds t' := by
  obtain ⟨turns₁, hturns₁, hown₁⟩ := h₁
  obtain ⟨turns, hturns, hown⟩ := h
  exact ⟨turns₁ ++ turns, hturns₁.trans hturns, List.forall_mem_append.2 ⟨hown₁, hown⟩⟩

theorem proceeds_runs {s' : Scheduler B} (h : Runs (OwnAt t.now) t.scheduler s') :
    t.Proceeds { t with scheduler := s' } := by
  induction h with
  | refl => exact .refl t
  | @after s₁ _ move hown ih =>
      have hturn := Unfolds.start.turn (t := { t with scheduler := s₁ }) (fun _ => hown) (.after move)
      exact ih.trans ⟨_, hturn, List.forall_mem_singleton.2 hown.isOwn⟩

theorem proceeds_later {now : Nat} (hle : t.now ≤ now)
    (hwakes : ∀ e ∈ t.scheduler.executions, ∀ time, e.wakeTime? = some time → now ≤ time) :
    t.Proceeds { t with now } :=
  ⟨[], Unfolds.start.later hle hwakes, List.forall_mem_nil _⟩

/-- However long one waits, time stops at everything that an execution waits for. -/
theorem proceeds_pass (stop : Scheduler B → Bool) (target : Nat) (h : Punctual t.now t.scheduler) :
    t.Proceeds (t.pass stop target) := by
  fun_induction pass stop target t with
  | case1 t hstop => exact .refl t
  | case2 t hstop next hnext hlt ih =>
      have hpunctual : Punctual next (t.scheduler.wakeAll next) := by
        refine .wakeAll h.toNumbered h.ticks fun e he => ?_
        exact (h.onTime e he).merges.mono (Nat.add_le_add_right (Nat.le_of_lt hlt.1) _)
      have hlater : t.Proceeds ⟨next, t.scheduler⟩ :=
        proceeds_later (Nat.le_of_lt hlt.1) (nextWake?_eq_some hnext).2.2
      have hwake : Proceeds ⟨next, t.scheduler⟩ ⟨next, t.scheduler.wakeAll next⟩ :=
        proceeds_runs (runs_wakeAll h.toNumbered next)
      exact (hlater.trans hwake).trans (ih hpunctual)
  | case3 t hstop next hnext hnot =>
      have hlt := h.lt_nextWake hnext
      refine proceeds_later (Nat.le_max_left _ _) fun e he time htime => ?_
      have hle := (nextWake?_eq_some hnext).2.2 e he time htime
      omega
  | case4 t hstop hnone =>
      refine proceeds_later (Nat.le_max_left _ _) fun e he time htime => ?_
      rw [(nextWake?_eq_none hnone).2 e he] at htime
      contradiction

theorem Operates.proceeds (h : t.Operates t') (ht : Punctual t.now t.scheduler) : t.Proceeds t' := by
  cases h with
  | call hcall => exact proceeds_runs (runs_call ht.toNumbered hcall)
  | begin => exact proceeds_runs (runs_start ht.toNumbered t.now)
  | stop => exact proceeds_runs (Scheduler.runs_shutDown ht.toNumbered t.now)
  | pass stop target => exact proceeds_pass stop target ht

/-! ## Loads that are over in time -/

/-- Whether no execution loads for longer than it may. -/
def Prompt (t : Timeline B) : Prop :=
  ∀ e ∈ t.scheduler.executions, ∀ ready deadline, e.phase = .loading ready deadline → t.now ≤ deadline

theorem Prompt.turn {move : Move B} {s' : Scheduler B} (h : t.Prompt) (hpast : Chronicle past t.scheduler)
    (hown : move.isOwn = true → OwnAt t.now t.scheduler move) (hcourse : Course t.scheduler move s') :
    Prompt ⟨t.now, s'⟩ := by
  have hold : (∀ e ∈ s'.executions, e ∈ t.scheduler.executions) → Prompt ⟨t.now, s'⟩ :=
    fun hsub e he => h e (hsub e he)
  cases hcourse with
  | rests hleaves _ => exact hold fun e he => hleaves.executions ▸ he
  | refuses _ _ _ hleaves _ => exact hold fun e he => hleaves.executions ▸ he
  | begins e₀ hid hagent hphase hmove hleaves hcache =>
      intro e he ready deadline hloading
      rw [hleaves.executions] at he
      rcases List.mem_append.1 he with hmem | hnew
      · exact h e hmem ready deadline hloading
      · obtain rfl := List.mem_singleton.1 hnew
        rw [hphase] at hloading
        contradiction
  | goes e₀ he₀ hmove hfares =>
      cases hfares with
      | rests hleaves _ => exact hold fun e he => hleaves.executions ▸ he
      | fails _ _ _ hleaves _ =>
          exact hold fun e he => (List.mem_filter.1 (hleaves.executions ▸ he)).1
      | ends _ _ _ hleaves => exact hold fun e he => (List.mem_filter.1 (hleaves.executions ▸ he)).1
      | loads now hgrant hphase hleaves hcache =>
          intro e he ready deadline hloading
          rw [hleaves.executions] at he
          rcases hpast.mem_setPhase he₀ he with ⟨hmem, -⟩ | rfl
          · exact h e hmem ready deadline hloading
          · cases hloading
            have hnow := hown (by rw [hgrant, Move.isOwn])
            rw [hgrant] at hnow
            cases hnow with
            | grant => exact Nat.le_add_right _ _
      | merges source since deadline₀ rest hmay hrest hleaves =>
          intro e he ready deadline hloading
          rw [hleaves.executions] at he
          rcases hpast.mem_setPhase he₀ he with ⟨hmem, -⟩ | rfl
          · exact h e hmem ready deadline hloading
          · contradiction

theorem Unfolds.prompt (hB : B.Blameless) (hpast : Chronicle past start.scheduler) (hstart : start.Prompt)
    (h : start.Unfolds turns t) : t.Prompt := by
  induction h with
  | start => exact hstart
  | turn hturns hown hmakes ih =>
      have hchronicle := hturns.passes.chronicle hB hpast
      exact ih.turn hchronicle hown (hchronicle.course hB hmakes)
  | later hturns hle hwakes ih =>
      intro e he ready deadline hloading
      exact Nat.le_trans (hwakes e he _ (by rw [Execution.wakeTime?, hloading])) (Nat.min_le_right _ _)

/-! ## Requests of executions -/

/-- Whatever is asked of a scheduler, and however time passes, all that it does are turns of its own. And in
every history of such turns, whatever else comes in between, a request to the backend is one of a merge that
has begun, or of other work on the cache; what an agent asks for itself while it loads is such work. A merge
begins only if nothing was shut down before and the agent has reported in time, and nobody loads for longer
than that. An execution that ends because its agent failed, or took too long, or because it was cancelled has
asked nothing. -/
theorem requests_only_of_merges (medium : Medium) (options : Schedule.Options) (engine : Engine)
    (cache : medium.backend.recorded.State) :
    let start : Timeline medium.backend.recorded := { scheduler := { options, engine, cache } }
    (0 < options.tick.nanoseconds → ∀ t, start.Reaches t → ∀ t', t.Operates t' → t.Proceeds t') ∧
    ∀ turns t, start.Unfolds turns t →
      (∀ earlier b later, turns = earlier ++ b :: later →
        (b.Asks → b.move.IsWork ∨ ∃ id, b.move.execution? = some id ∧ ∃ b' ∈ earlier ++ [b], b'.Begins id) ∧
        ∀ id, b.Begins id → (b.before.isShutDown = false ∧ ∀ b' ∈ earlier, ¬b'.move.IsStop) ∧
          ∃ e ∈ b.before.executions, e.id = id ∧ b.LoadsInTime earlier e) ∧
      (∀ id err, (id, .error err) ∈ t.scheduler.outcomes → err.endsLoad = true →
        ∀ b ∈ turns, b.move.execution? = some id → ¬b.Asks) ∧
      ∀ e ∈ t.scheduler.executions, ∀ ready deadline, e.phase = .loading ready deadline →
        t.now ≤ deadline := by
  intro start
  have hB := medium.blameless.recorded
  have hfresh := Chronicle.fresh options engine cache
  have hprompt : start.Prompt := List.forall_mem_nil _
  constructor
  · intro hticks t ht t' hop
    exact hop.proceeds (ht.punctual (.fresh hticks engine cache))
  intro turns t hturns
  refine ⟨fun earlier b later hsplit => ?_, fun id err hmem herr b hb hid hasks => ?_,
    hturns.prompt hB hfresh hprompt⟩
  · obtain ⟨now, hpast, hown, hmakes⟩ := hturns.split hsplit
    have h := hpast.passes.chronicle hB hfresh
    have hcourse := h.course hB hmakes
    constructor
    · intro hasks
      exact h.touches hcourse fun hsame => hasks (congrArg Prod.snd hsame)
    · intro id hbegins
      obtain ⟨e, he, hid, hphase, hmay⟩ := h.mayMerge_of_begins hcourse hbegins
      obtain ⟨hworks, hloads⟩ : b.before.isShutDown = false ∧ b.LoadsInTime earlier e := by
        refine h.loadsInTime he hphase (fun time ready deadline hwake hloading => ?_) hmay
        have hnow := hown (by rw [hwake, Move.isOwn])
        rw [hwake] at hnow
        cases hnow with
        | wake => exact hpast.prompt hB hfresh hprompt e he ready deadline hloading
      exact ⟨⟨hworks, h.works hworks⟩, e, he, hid, hloads⟩
  · rcases (hturns.passes.chronicle hB hfresh).discarded id err hmem herr with hquiet | ⟨cut, hcut, hcuts⟩
    · exact hasks (congrArg Prod.snd (hquiet b hb hid))
    · exact hturns.not_cuts hcut id hcuts

/-! ## An example of an agent that is cancelled while another one has merged -/

/-- Moves that are made one after the other at the same time, and that a scheduler may make whatever its
state. -/
theorem Unfolds.turnsOf {moves : List (Move B)} (h : start.Unfolds past t)
    (hown : ∀ move ∈ moves, move.isOwn = true → ∀ s, OwnAt t.now s move) :
    start.Unfolds (past ++ turnsOf t.scheduler moves)
      { t with scheduler := moves.foldl Scheduler.after t.scheduler } := by
  induction moves generalizing past t with
  | nil => simpa [Scheduler.turnsOf] using h
  | cons move moves ih =>
      obtain ⟨hfirst, hrest⟩ := List.forall_mem_cons.1 hown
      have hturns := ih (h.turn (fun hmove => hfirst hmove _) (.after move)) hrest
      rwa [List.append_assoc] at hturns

/-- A timeline over an empty cache in memory, of which all requests are on record. -/
def watched : Timeline (Medium.memory "mem").backend.recorded :=
  { scheduler := { cache := (({} : Memory), []) } }

/-- An agent that reports an image at once. -/
def quickAgent : CachingAgent :=
  { slowAgent with name := "quick", delay := none, conduct := .snapshot { type := "images", names := ["a"] } }

/-- Two agents are called, of which one merges at once and the other one loads. -/
def callBoth : List (Move (Medium.memory "mem").backend.recorded) :=
  [.register slowAgent, .register quickAgent, .call 0 "agent", .call 0 "quick", .grant 0 0, .grant 0 1]

/-- The two agents at work, when all is shut down a little later. -/
def stopped : Timeline (Medium.memory "mem").backend.recorded :=
  ⟨5, (callBoth.foldl Scheduler.after watched.scheduler).after .stop⟩

/-- The timeline after the agent that loads was cancelled. -/
def discarded : Timeline (Medium.memory "mem").backend.recorded :=
  { stopped with scheduler := stopped.scheduler.after (.cancel 5 0) }

/-- The turns of all this. -/
def watchedTurns : List (Turn (Medium.memory "mem").backend.recorded) :=
  turnsOf watched.scheduler (callBoth ++ [.stop, .cancel 5 0])

theorem unfolds_watchedTurns : watched.Unfolds watchedTurns discarded := by
  have hown : ∀ move ∈ callBoth, move.isOwn = true → ∀ s, OwnAt 0 s move := by
    simp only [callBoth, List.forall_mem_cons]
    exact ⟨nofun, nofun, fun _ _ => .call _, fun _ _ => .call _, fun _ _ => .grant _, fun _ _ => .grant _,
      nofun⟩
  have hcalled := Unfolds.turnsOf (t := watched) .start hown
  have hlater : watched.Unfolds (Scheduler.turnsOf watched.scheduler callBoth)
      ⟨5, callBoth.foldl Scheduler.after watched.scheduler⟩ :=
    hcalled.later (Nat.zero_le _) (by decide +kernel)
  have hstopped := hlater.turn (fun _ => .stop) (.after .stop)
  exact hstopped.turn (fun _ => .cancel 0 (by decide +kernel)) (.after (.cancel 5 0))

/-- The agent that reports late, when the dispatcher has begun to run it. -/
def dispatching : Timeline (Medium.memory "mem").backend.recorded :=
  (watched.modify fun _ s => s.after (.register slowAgent)).modify fun now s => s.start now

theorem reaches_dispatching : watched.Reaches dispatching :=
  (Reaches.start.move (.register slowAgent) rfl).operate .begin

/-- The agent that was cancelled has asked nothing, the other one has. And however long one waits for an
agent that reports late, time stops at all that it waits for. -/
theorem only_merged_agent_asks : watched.Unfolds watchedTurns discarded ∧
    (∃ b ∈ watchedTurns, b.move.execution? = some 1 ∧ b.Asks) ∧
    (0, .error (.cancelled "agent")) ∈ discarded.scheduler.outcomes ∧
    (∀ b ∈ watchedTurns, b.move.execution? = some 0 → ¬b.Asks) ∧
    watched.Reaches dispatching ∧ ∀ target, dispatching.Proceeds (dispatching.passUntil target) := by
  have hasks : (watchedTurns.map fun b =>
      (b.move.execution? == some 1 && b.after.cache.2.length != b.before.cache.2.length)).any id = true := by
    decide +kernel
  have houtcomes : (discarded.scheduler.outcomes.map fun o =>
      (o.1, (.ended o.2 : Plan.Progress CacheRequest CacheRequest.Reply MergeStats).error?)) =
        [(0, some (.cancelled "agent")), (1, none)] := by
    decide +kernel
  have hcancelled : (0, .error (.cancelled "agent")) ∈ discarded.scheduler.outcomes := by
    obtain ⟨⟨id, result⟩, hmem, heq⟩ := List.mem_map.1 (houtcomes ▸ List.mem_cons_self)
    cases result with
    | ok stats => simp [Plan.Progress.error?] at heq
    | error err =>
        simp only [Plan.Progress.error?, Prod.mk.injEq, Option.some.injEq] at heq
        obtain ⟨rfl, rfl⟩ := heq
        exact hmem
  obtain ⟨hoperates, hunfolds⟩ := requests_only_of_merges (.memory "mem") {} {} (({} : Memory), [])
  refine ⟨unfolds_watchedTurns, ?_, hcancelled, ?_, reaches_dispatching, fun target => ?_⟩
  · simp only [List.any_map, List.any_eq_true, Function.comp_apply, id_eq, Bool.and_eq_true, beq_iff_eq,
      bne_iff_ne] at hasks
    obtain ⟨b, hb, hid, hlength⟩ := hasks
    exact ⟨b, hb, hid, fun hsame => hlength (congrArg List.length hsame)⟩
  · exact (hunfolds _ _ unfolds_watchedTurns).2.1 0 _ hcancelled rfl
  · exact hoperates (by decide) _ reaches_dispatching _ (.pass _ target)

end Timeline

end Inventory
