import Inventory.Proofs.Cache.Causes
import Inventory.Proofs.Schedule.Completions

/-!
# Inventory.Proofs.Schedule.Turns

What one turn in the life of a scheduler can do.

A turn is a move with the schedulers before and after it. Where a shutdown comes at the same time as
something else, either of the two may be taken first, so an execution may begin although the scheduler is
shut down (`Makes`). Of each turn there are few things to be known (`Course`): of an execution that does
not merge yet, that it leaves the cache alone, and of one that merges, that it was free to.
-/

namespace Inventory

open Error (IsOfCache)

/-- An agent that fails ends its load. -/
theorem CachingAgent.endsLoad_of_report {a : CachingAgent} {err : Error}
    (h : a.report = .error err) : err.endsLoad = true := by
  unfold CachingAgent.report at h
  split at h
  · split at h
    · cases h
      rfl
    · contradiction
  · split at h
    · cases h
      rfl
    · contradiction

namespace Scheduler

variable {B : Backend} {s s' : Scheduler B} {e : Execution B} {now : Nat}

/-! ## Turns -/

/-- A move with the schedulers before and after it. -/
structure Turn (B : Backend) where
  before : Scheduler B
  move : Move B
  after : Scheduler B

/-- The scheduler after a claimed agent has begun an execution, whether it is shut down or not. -/
def entered (s : Scheduler B) (now : Nat) (agent : String) (k : Nat) (isDispatched : Bool) :
    Scheduler B :=
  (s.claimed now agent).adding ((s.claimed now agent).nextExecution now k isDispatched)

/-- What may come of a move. -/
inductive Makes (s : Scheduler B) : Move B → Scheduler B → Prop
  | after (move : Move B) : Makes s move (s.after move)
  /-- A shutdown is not noticed when a called agent begins. -/
  | called {now : Nat} {agent : String} {k : Nat} (hk : s.registry.caching[agent]? = some k)
      (hrunning : s.slots.isRunning agent = false) :
      Makes s (.call now agent) (s.entered now agent k false)
  /-- A shutdown is not noticed when a dispatched agent begins. -/
  | dispatched {now : Nat} {agent : String} {k : Nat} (hk : s.registry.caching[agent]? = some k)
      (hdue : s.slots.isDue now agent = true) :
      Makes s (.dispatch now agent) (s.entered now agent k true)

/-- The turns by which one scheduler has become another: any moves, in any order and at any times. -/
inductive Passes (start : Scheduler B) : List (Turn B) → Scheduler B → Prop
  | start : Passes start [] start
  | turn {past : List (Turn B)} {s s' : Scheduler B} {move : Move B} (hpast : Passes start past s)
      (hmakes : s.Makes move s') : Passes start (past ++ [⟨s, move, s'⟩]) s'

/-- The turns of moves that are made one after the other. -/
def turnsOf (s : Scheduler B) : List (Move B) → List (Turn B)
  | [] => []
  | move :: moves => ⟨s, move, s.after move⟩ :: turnsOf (s.after move) moves

theorem passes_turnsOf {start : Scheduler B} {past : List (Turn B)} (hpast : Passes start past s)
    (moves : List (Move B)) :
    Passes start (past ++ turnsOf s moves) (moves.foldl Scheduler.after s) := by
  induction moves generalizing past s with
  | nil => simpa [turnsOf] using hpast
  | cons move moves ih =>
      have hturn := ih (hpast.turn (.after move))
      rwa [List.append_assoc] at hturn

/-- Every turn of a history comes after a history of its own. -/
theorem Passes.split {start : Scheduler B} {turns earlier later : List (Turn B)} {t : Turn B}
    (h : Passes start turns s) (hturns : turns = earlier ++ t :: later) :
    Passes start earlier t.before ∧ t.before.Makes t.move t.after := by
  induction h generalizing later with
  | start => simp at hturns
  | turn hpast hmakes ih =>
      rcases List.eq_nil_or_concat later with rfl | ⟨later, last, rfl⟩
      · obtain ⟨rfl, hlast⟩ := List.append_inj' hturns rfl
        obtain rfl := (List.cons.inj hlast).1
        exact ⟨hpast, hmakes⟩
      · rw [List.concat_eq_append, ← List.cons_append, ← List.append_assoc] at hturns
        exact ih (List.append_inj' hturns rfl).1

/-! ## What is left after a turn -/

/-- Which executions are in flight, and which have ended and how, after a move. -/
structure Leaves (s : Scheduler B) (move : Move B) (s' : Scheduler B) (executions : List (Execution B))
    (outcomes : List (Nat × Except Error MergeStats)) (begun : Nat) : Prop where
  executions : s'.executions = executions
  outcomes : s'.outcomes = outcomes
  begun : s'.begun = begun
  works : s'.isShutDown = false → s.isShutDown = false ∧ ¬move.IsStop

/-- What an execution leaves that is in another phase now. -/
abbrev Enters (s : Scheduler B) (move : Move B) (s' : Scheduler B) (id : Nat) (phase : Phase B) : Prop :=
  Leaves s move s' (s.setPhase id phase).executions s.outcomes s.begun

/-- What an execution leaves that has ended. -/
abbrev Ends (s : Scheduler B) (move : Move B) (s' : Scheduler B) (id : Nat)
    (result : Except Error MergeStats) : Prop :=
  Leaves s move s' (s.executions.filter (·.id != id)) ((id, result) :: s.outcomes) s.begun

/-- Whether an execution is free to merge in a move: it merges, or nothing was shut down and its data is
there. -/
def MayMerge (s : Scheduler B) (move : Move B) (e : Execution B) : Prop :=
  e.isMerging = true ∨ s.isShutDown = false ∧ (∃ r, (s.agentOf e.agent).report = .ok r) ∧
    ∃ now ready deadline, ready ≤ now ∧
      (move = .wake now e.id ∧ e.phase = .loading ready deadline ∨
        move = .grant now e.id ∧ ready = s.readyAt now e ∧ deadline = s.deadlineAt now)

/-- Whether a move cancels an execution that merges. -/
def Cuts (move : Move B) (e : Execution B) : Prop :=
  e.isMerging = true ∧ ∃ now, move = .cancel now e.id

/-- What a turn of an execution can be. -/
inductive Fares (s : Scheduler B) (move : Move B) (s' : Scheduler B) (e : Execution B) : Prop
  | rests (h : Leaves s move s' s.executions s.outcomes s.begun) (hcache : s'.cache = s.cache)
  /-- The agent is asked for its data. -/
  | loads (now : Nat) (hmove : move = .grant now e.id) (hphase : e.isMerging = false)
      (h : Enters s move s' e.id (.loading (s.readyAt now e) (s.deadlineAt now))) (hcache : s'.cache = s.cache)
  /-- The execution is cancelled, or its load failed or took too long, or a parser refused what it brought for
  a reason of its own. -/
  | fails (err : Error) (herr : err.endsLoad = true) (hphase : e.isMerging = false ∨ Cuts move e)
      (h : Ends s move s' e.id (.error err)) (hcache : s'.cache = s.cache)
  /-- The merge waits for an answer. -/
  | merges (source : Source) (since deadline : Nat) (rest : Error → B.Work MergeStats)
      (hmay : s.MayMerge move e) (hrest : ∀ err, IsOfCache err → (rest err).FailsFor IsOfCache)
      (h : Enters s move s' e.id (.merging source since deadline rest))
  /-- The merge has ended. -/
  | ends (result : Except Error MergeStats) (hmay : s.MayMerge move e)
      (hblames : Blames IsOfCache result) (h : Ends s move s' e.id result)

/-! ## What an execution does -/

/-- The work of a merge fails only as work on a cache does. -/
theorem failsFor_follow (hB : B.Blameless) (s : Scheduler B) {work : B.Work MergeStats}
    (hwork : work.FailsFor IsOfCache) : (s.follow work).2.FailsFor IsOfCache := by
  refine hwork.follow (fun r state reply hreply => ?_) s.cache
  unfold answer at hreply
  dsimp only at hreply
  split at hreply
  · obtain rfl := Option.some.inj hreply
    cases hanswer : (B.answer r state).2 with
    | none => exact blames_error.2 (hB.silence _)
    | some reply => exact hB.answer r state reply hanswer
  · exact hB.answer r state reply hreply

/-- It does, or the report is refused at once. -/
theorem mergeWork_cases (hB : B.Blameless) (s : Scheduler B) (k : Nat) (r : Report) :
    (s.mergeWork k r).FailsFor IsOfCache ∨ ∃ a e, s.mergeWork k r = .note a (.fail e) := by
  rcases s.engine.mergeSnapshot_cases (s.profileOf k).source (.ofList (s.profileOf k).authoritativeTypes) r
    with hfails | ⟨a, e, hrefused⟩
  · exact .inl (Plan.failsFor_expand hB.plan hfails)
  · refine .inr ⟨a, e, ?_⟩
    rw [mergeWork, hrefused]
    rfl

/-- A scheduler that differs from another one in the phase of an execution, and in what no execution looks
at. -/
structure Resembles (s₁ s : Scheduler B) (id : Nat) : Prop where
  others : s₁.executions.filter (·.id != id) = s.executions.filter (·.id != id)
  phases : ∀ phase, (s₁.setPhase id phase).executions = (s.setPhase id phase).executions
  outcomes : s₁.outcomes = s.outcomes
  begun : s₁.begun = s.begun
  isShutDown : s₁.isShutDown = s.isShutDown
  cache : s₁.cache = s.cache
  report : ∀ k, (s₁.agentOf k).report = (s.agentOf k).report

theorem Resembles.refl (s : Scheduler B) (id : Nat) : Resembles s s id :=
  ⟨rfl, fun _ => rfl, rfl, rfl, rfl, rfl, fun _ => rfl⟩

theorem filter_setPhase (s : Scheduler B) (id : Nat) (phase : Phase B) :
    (s.setPhase id phase).executions.filter (·.id != id) = s.executions.filter (·.id != id) := by
  simp only [setPhase]
  induction s.executions with
  | nil => rfl
  | cons e l ih => by_cases he : e.id = id <;> simp [he, ih]

theorem resembles_asked (s : Scheduler B) (now : Nat) (e : Execution B) : Resembles (s.asked now e) s e.id where
  others := filter_setPhase s e.id _
  phases phase := by
    simp only [asked, modifyAgent, observe, setPhase, List.map_map]
    congr 1
    funext e'
    by_cases he : e'.id = e.id <;> simp [he]
  outcomes := rfl
  begun := rfl
  isShutDown := rfl
  cache := rfl
  report := @agentOf_modifyAgent _ _ CachingAgent.report (fun a => { a with calls := a.calls + 1 })
    (fun _ => rfl) _ e.agent

section Execution

variable {move : Move B} {s₁ : Scheduler B} {e' : Execution B} (hs₁ : Resembles s₁ s e.id)
  (hid : e'.id = e.id) (hstop : ¬move.IsStop)

include hs₁ hid hstop

theorem ends_finish (now : Nat) (cache : B.State) (activity : List Activity)
    (result : Except Error MergeStats) :
    Ends s move ({ s₁ with cache, activity }.finish now e' result) e.id result where
  executions := by
    rw [← hs₁.others, ← hid]
    rfl
  outcomes := by
    rw [← hs₁.outcomes, ← hid]
    rfl
  begun := hs₁.begun
  works h := ⟨hs₁.isShutDown.symm.trans h, hstop⟩

/-- An execution that is free to merge goes on as its work does. -/
theorem fares_proceed (hB : B.Blameless) (hmay : s.MayMerge move e) (now : Nat) (source : Source)
    (deadline : Nat) {work : B.Work MergeStats} (hwork : work.FailsFor IsOfCache) :
    Fares s move (s₁.proceed now e' source deadline work) e := by
  have hprogress := failsFor_follow hB s₁ hwork
  have hlate : Blames IsOfCache (.error (s₁.lateMerge source) : Except Error MergeStats) :=
    blames_error.2 rfl
  have hends := ends_finish hs₁ hid hstop now (work.follow (answer B) s₁.cache).state
    ((work.follow (answer B) s₁.cache).log.reverse ++ s₁.activity)
  unfold proceed
  rcases hfollow : s₁.follow work with ⟨s₂, result | rest⟩
  · rw [hfollow] at hprogress
    obtain rfl := congrArg Prod.fst hfollow
    exact .ends result hmay hprogress (hends result)
  · rw [hfollow] at hprogress
    obtain rfl := congrArg Prod.fst hfollow
    dsimp only
    split
    · exact .ends _ hmay hlate (hends _)
    · refine .merges source now deadline rest hmay hprogress ⟨?_, hs₁.outcomes, hs₁.begun, ?_⟩
      · rw [← hs₁.phases, ← hid]
        rfl
      · exact fun h => ⟨hs₁.isShutDown.symm.trans h, hstop⟩

/-- An execution whose report is refused ends at once, and the cache is as it was. -/
theorem fares_refused (hmay : s.MayMerge move e) (hphase : e.isMerging = false) (now : Nat)
    (source : Source) (deadline : Nat) (a : Activity) (err : Error) :
    Fares s move (s₁.proceed now e' source deadline (.note a (.fail err))) e := by
  have hends := ends_finish hs₁ hid hstop now s₁.cache (a :: s₁.activity) (.error err)
  cases herr : err.endsLoad with
  | true => exact .fails err herr (.inl hphase) hends hs₁.cache
  | false => exact .ends _ hmay (blames_error.2 herr) hends

/-- An execution that loads waits on, or ends, or merges. -/
theorem fares_load (hB : B.Blameless) (hagent : e'.agent = e.agent) (hphase : e.isMerging = false)
    (now ready deadline : Nat) (hmay : ready ≤ now → s.isShutDown = false →
      (∃ r, (s.agentOf e.agent).report = .ok r) → s.MayMerge move e) :
    s₁.load now e' ready deadline = s₁ ∨ Fares s move (s₁.load now e' ready deadline) e := by
  have hfails : ∀ err : Error, err.endsLoad = true →
      Fares s move (s₁.finish now e' (.error err)) e := fun err herr =>
    .fails err herr (.inl hphase) (ends_finish hs₁ hid hstop now s₁.cache s₁.activity _) hs₁.cache
  unfold load
  split
  · rename_i hready
    refine .inr ?_
    rw [hs₁.report, hagent]
    cases hreport : (s.agentOf e.agent).report with
    | error err => exact hfails err (CachingAgent.endsLoad_of_report hreport)
    | ok r =>
        dsimp only [loaded]
        split
        · exact hfails _ rfl
        · rename_i hworks
          rw [hs₁.isShutDown, Bool.not_eq_true] at hworks
          have hmerge := hmay hready hworks ⟨r, hreport⟩
          rcases mergeWork_cases hB s₁ e'.agent r with hfailsFor | ⟨a, err, hrefused⟩
          · exact fares_proceed hs₁ hid hstop hB hmerge now _ _ hfailsFor
          · rw [hrefused]
            exact fares_refused hs₁ hid hstop hmerge hphase now _ _ a err
  · split
    · exact .inr (hfails _ rfl)
    · exact .inl rfl

end Execution

theorem fares_grant (hB : B.Blameless) (s : Scheduler B) (now : Nat) (hwaits : e.isWaiting = true) :
    Fares s (.grant now e.id) (s.grant now e) e := by
  have hphase : e.isMerging = false := by
    unfold Execution.isWaiting at hwaits
    unfold Execution.isMerging
    split at hwaits <;> simp_all
  have hasked := resembles_asked s now e
  have hmay : s.readyAt now e ≤ now → s.isShutDown = false →
      (∃ r, (s.agentOf e.agent).report = .ok r) → s.MayMerge (.grant now e.id) e := fun hready hworks hreport =>
    .inr ⟨hworks, hreport, now, _, _, hready, .inr ⟨rfl, rfl, rfl⟩⟩
  have hstop : ¬(Move.grant now e.id : Move B).IsStop := id
  let loading : Execution B := { e with phase := .loading (s.readyAt now e) (s.deadlineAt now) }
  have hgrant : s.grant now e = (s.asked now e).load now loading (s.readyAt now e) (s.deadlineAt now) := rfl
  have hid : loading.id = e.id := rfl
  have hload := fares_load hasked hid hstop hB rfl hphase now _ (s.deadlineAt now) hmay
  rw [← hgrant] at hload
  rcases hload with hwaits | hfares
  · rw [hwaits]
    exact .loads now rfl hphase ⟨rfl, rfl, rfl, fun h => ⟨h, hstop⟩⟩ rfl
  · exact hfares

theorem fares_wake (hB : B.Blameless) (s : Scheduler B) (now : Nat)
    (hrest : ∀ source since deadline rest, e.phase = .merging source since deadline rest →
      ∀ err, IsOfCache err → (rest err).FailsFor IsOfCache) :
    Fares s (.wake now e.id) (s.wake now e) e := by
  have hself := Resembles.refl s e.id
  have hstop : ¬(Move.wake now e.id : Move B).IsStop := id
  have hrests : Fares s (.wake now e.id) s e := .rests ⟨rfl, rfl, rfl, fun h => ⟨h, hstop⟩⟩ rfl
  have hlate : ∀ source, Blames IsOfCache (.error (s.lateMerge source) : Except Error MergeStats) :=
    fun _ => blames_error.2 rfl
  unfold wake
  cases hphase : e.phase with
  | waiting => exact hrests
  | loading ready deadline =>
      have hloads : e.isMerging = false := by simp [Execution.isMerging, hphase]
      have hmay : ready ≤ now → s.isShutDown = false →
          (∃ r, (s.agentOf e.agent).report = .ok r) → s.MayMerge (.wake now e.id) e :=
        fun hready hworks hreport => .inr ⟨hworks, hreport, now, ready, deadline, hready,
          .inl ⟨rfl, hphase⟩⟩
      rcases fares_load hself rfl hstop hB rfl hloads now ready deadline hmay with hwaits | hfares
      · dsimp only
        rw [hwaits]
        exact hrests
      · exact hfares
  | merging source since deadline rest =>
      have hmay : s.MayMerge (.wake now e.id) e := .inl (by simp [Execution.isMerging, hphase])
      dsimp only
      split
      · exact fares_proceed hself rfl hstop hB hmay now source deadline
          (hrest _ _ _ _ hphase _ (hB.silence _))
      · split
        · exact .ends _ hmay (hlate source) (ends_finish hself rfl hstop now s.cache s.activity _)
        · exact hrests

theorem fares_cancel (s : Scheduler B) (now : Nat) (e : Execution B) :
    Fares s (.cancel now e.id) (s.cancel now e) e := by
  refine .fails _ rfl ?_ (ends_finish (.refl s e.id) rfl id now s.cache s.activity _) rfl
  cases hphase : e.isMerging with
  | true => exact .inr ⟨hphase, now, rfl⟩
  | false => exact .inl rfl

/-! ## What a turn does -/

/-- What a turn can be. -/
inductive Course (s : Scheduler B) (move : Move B) (s' : Scheduler B) : Prop
  | rests (h : Leaves s move s' s.executions s.outcomes s.begun) (hcache : s'.cache = s.cache ∨ move.IsWork)
  /-- An execution begins. -/
  | begins (e : Execution B) (hid : e.id = s.begun) (hagent : s.IsRegistered e.agent)
      (hphase : e.phase = .waiting) (hmove : move.execution? = none)
      (h : Leaves s move s' (s.executions ++ [e]) s.outcomes (s.begun + 1)) (hcache : s'.cache = s.cache)
  /-- An execution begins, and ends at once. -/
  | refuses (err : Error) (herr : err.endsLoad = true) (hmove : move.execution? = none)
      (h : Leaves s move s' s.executions ((s.begun, .error err) :: s.outcomes) (s.begun + 1))
      (hcache : s'.cache = s.cache)
  | goes (e : Execution B) (he : e ∈ s.executions) (hmove : move.execution? = some e.id)
      (h : Fares s move s' e)

/-- What begins waits for a permit, unless it is cancelled at once. -/
theorem course_begin (hbegun : ∀ e ∈ s.executions, e.id < s.begun) {move : Move B}
    (hmove : move.execution? = none) (hstop : ¬move.IsStop) {k : Nat} (hk : s.IsRegistered k)
    (slots : Schedule.Slots) (now : Nat) (isDispatched : Bool) :
    Course s move ({ s with slots }.begin now k isDispatched) := by
  rw [begin_eq]
  dsimp only
  split
  · refine .refuses _ rfl hmove ⟨?_, rfl, rfl, fun h => ⟨h, hstop⟩⟩ rfl
    simp only [cancel, finish, observe, adding, nextExecution, List.filter_append]
    rw [List.filter_eq_self.2]
    · simp
    · intro e he
      have hlt := hbegun e he
      simp only [bne_iff_ne]
      omega
  · exact .begins _ rfl hk rfl hmove ⟨rfl, rfl, rfl, fun h => ⟨h, hstop⟩⟩ rfl

/-- Every turn is one of these. -/
theorem Makes.course (hB : B.Blameless) (hbegun : ∀ e ∈ s.executions, e.id < s.begun)
    (hrest : ∀ e ∈ s.executions, ∀ source since deadline rest, e.phase = .merging source since deadline rest →
      ∀ err, IsOfCache err → (rest err).FailsFor IsOfCache)
    {move : Move B} (hmakes : Makes s move s') : Course s move s' := by
  cases hmakes with
  | called hk hrunning => exact .begins _ rfl ⟨_, hk⟩ rfl rfl ⟨rfl, rfl, rfl, fun h => ⟨h, id⟩⟩ rfl
  | dispatched hk hdue => exact .begins _ rfl ⟨_, hk⟩ rfl rfl ⟨rfl, rfl, rfl, fun h => ⟨h, id⟩⟩ rfl
  | after move =>
      cases amounts_after s move with
      | aside h hstop hcache =>
          refine .rests ⟨h.executions, h.outcomes, h.begun, fun hworks => ?_⟩ hcache
          rcases hstop with ⟨hstop, hsame⟩ | ⟨-, hshut⟩
          · exact ⟨hsame.symm.trans hworks, hstop⟩
          · rw [hshut] at hworks
            contradiction
      | begins slots now k isDispatched hmove hstop hk h =>
          rw [h]
          exact course_begin hbegun hmove hstop hk slots now isDispatched
      | grants he now hmove hwaits hfree h =>
          obtain rfl := hmove
          rw [h]
          exact .goes _ he rfl (fares_grant hB s now hwaits)
      | wakes he now hmove h =>
          obtain rfl := hmove
          rw [h]
          exact .goes _ he rfl (fares_wake hB s now (hrest _ he))
      | cancels he now hmove h =>
          obtain rfl := hmove
          rw [h]
          exact .goes _ he rfl (fares_cancel s now _)

end Scheduler

end Inventory
