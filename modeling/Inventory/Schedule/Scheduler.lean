import Inventory.Agent.Caching
import Inventory.Agent.Registry
import Inventory.Cache.Backend
import Inventory.Merge.Engine
import Inventory.Schedule.Slots

/-!
# Inventory.Schedule.Scheduler

The scheduler and the steps it can take.

An execution waits for a permit, loads the data of its agent, and merges the report. It keeps the
permit until the merge is over. Work takes no time, so an execution that merges is one whose last
request to the backend has not been answered.

Every step is told what time it is. Which step is taken when is not decided here.
-/

namespace Inventory

/-! ## Executions -/

/-- Where an execution stands. -/
inductive Phase (B : Backend) where
  /-- It has no permit yet. -/
  | waiting
  /-- The data is there at `ready`, unless `deadline` comes first. -/
  | loading (ready deadline : Nat)
  /-- A request of the merge has been without an answer since `since`. -/
  | merging (source : Source) (since deadline : Nat) (rest : Error → B.Work MergeStats)

/-- An execution of a caching agent. -/
structure Execution (B : Backend) where
  id : Nat
  /-- The number of the agent. -/
  agent : Nat
  /-- The name of the agent. -/
  name : String
  /-- The time to the next run, if this one succeeds. -/
  interval : Duration
  began : Nat
  /-- Whether the execution was started because it was due, and not by a call. -/
  isDispatched : Bool
  phase : Phase B := .waiting

namespace Execution

variable {B : Backend}

/-- Whether an execution has no permit yet. -/
def isWaiting (e : Execution B) : Bool :=
  match e.phase with
  | .waiting => true
  | _ => false

/-- Whether an execution merges. -/
def isMerging (e : Execution B) : Bool :=
  match e.phase with
  | .merging .. => true
  | _ => false

/-- When an execution goes on by itself. -/
def wakeTime? (e : Execution B) : Option Nat :=
  match e.phase with
  | .waiting => none
  | .loading ready deadline => some (min ready deadline)
  | .merging _ since deadline _ => some (min (since + B.patience.nanoseconds) deadline)

end Execution

/-- What an observer is told about the executions of an agent. -/
inductive Event where
  | started
  | succeeded (stats : MergeStats) (elapsed : Duration)
  | failed (e : Error)
  /-- A call found the agent running. -/
  | skipped

/-- An event with its time and the name of the agent. -/
structure Observation where
  time : Nat
  agent : String
  event : Event

/-! ## The scheduler -/

/-- The scheduler with all that it works on. -/
structure Scheduler (B : Backend) where
  options : Schedule.Options := {}
  engine : Engine := {}
  cache : B.State
  /-- What the backend and the merge engine told, the latest first. -/
  activity : List Activity := []
  /-- All caching agents that ever were, by number. -/
  agents : List CachingAgent := []
  registry : Registry := {}
  slots : Schedule.Slots := ∅
  /-- The executions that have not ended, in the order in which they began. -/
  executions : List (Execution B) := []
  /-- The number of executions that have begun. -/
  begun : Nat := 0
  /-- The permits that nobody holds. -/
  permits : Nat := max 1 options.workers
  /-- How the other executions ended. -/
  outcomes : List (Nat × Except Error MergeStats) := []
  isShutDown : Bool := false
  /-- When the dispatcher looks for due agents again, while it is at work. -/
  nextTick : Option Nat := none
  /-- What observers were told, the latest first. -/
  observed : List Observation := []

namespace Scheduler

variable {B : Backend}

/-! ## Agents -/

/-- The caching agent of a number. -/
def agentOf (s : Scheduler B) (number : Nat) : CachingAgent := s.agents.getD number default

/-- What the caching agent of a number declares. -/
def profileOf (s : Scheduler B) (number : Nat) : Profile := (s.agentOf number).profile

/-- Changes the caching agent of a number. -/
def modifyAgent (s : Scheduler B) (number : Nat) (change : CachingAgent → CachingAgent) :
    Scheduler B :=
  { s with agents := s.agents.modify number change }

/-- Registers a caching agent, under the next number. -/
def register (s : Scheduler B) (a : CachingAgent) : Except Error (Scheduler B) :=
  let extended := { s with agents := s.agents ++ [a] }
  let (result, registry) := s.registry.register extended.profileOf s.agents.length
  result.map fun _ => { extended with registry }

/-! ## The backend -/

/-- Answers a request. If no time at all is given to the backend, silence is an error at once. -/
def answer (B : Backend) (r : B.Request) (state : B.State) :
    B.State × Option (Except Error (B.Reply r)) :=
  let (state, reply) := B.answer r state
  (state,
    if B.patience.nanoseconds = 0 then some (reply.getD (.error (B.silence state))) else reply)

/-- Works on the cache until the end or until a request is not answered. -/
def follow {α : Type} (s : Scheduler B) (work : B.Work α) :
    Scheduler B × Plan.Progress B.Request B.Reply α :=
  let outcome := work.follow (answer B) s.cache
  ({ s with cache := outcome.state, activity := outcome.log.reverse ++ s.activity },
    outcome.progress)

/-- The error of a merge that took too long. -/
def lateMerge (s : Scheduler B) (source : Source) : Error :=
  .unavailable "cache" (.slowMerge source.text s.options.mergeTimeout)

/-! ## The end of an execution -/

/-- Tells observers of an event. -/
def observe (s : Scheduler B) (now : Nat) (agent : String) (event : Event) : Scheduler B :=
  { s with observed := ⟨now, agent, event⟩ :: s.observed }

/-- What observers are told about the end of an execution. -/
def endEvent (now : Nat) (e : Execution B) : Except Error MergeStats → Event
  | .ok stats => .succeeded stats ⟨now - e.began⟩
  | .error err => .failed err

/-- Ends an execution: its permit is free again, and its agent is released. -/
def finish (s : Scheduler B) (now : Nat) (e : Execution B) (result : Except Error MergeStats) :
    Scheduler B :=
  { s with
    executions := s.executions.filter (·.id != e.id)
    permits := if e.isWaiting then s.permits else s.permits + 1
    slots := s.slots.release e.name result.isOk now e.interval s.options.failureBackoff
    outcomes := (e.id, result) :: s.outcomes
  }.observe now e.name (endEvent now e result)

/-- Ends an execution that must not go on. -/
def cancel (s : Scheduler B) (now : Nat) (e : Execution B) : Scheduler B :=
  s.finish now e (.error (.cancelled e.name))

/-- Changes the phase of an execution. -/
def setPhase (s : Scheduler B) (id : Nat) (phase : Phase B) : Scheduler B :=
  { s with executions := s.executions.map fun e => if e.id = id then { e with phase } else e }

/-! ## Merging -/

/-- Goes on with the merge of an execution. -/
def proceed (s : Scheduler B) (now : Nat) (e : Execution B) (source : Source)
    (deadline : Nat) (work : B.Work MergeStats) : Scheduler B :=
  match s.follow work with
  | (s, .ended result) => s.finish now e result
  | (s, .stuck rest) =>
    if deadline ≤ now then s.finish now e (.error (s.lateMerge source))
    else s.setPhase e.id (.merging source now deadline rest)

/-- The merge of a report of an agent. -/
def mergeWork (s : Scheduler B) (agent : Nat) (r : Report) : B.Work MergeStats :=
  let p := s.profileOf agent
  B.work (s.engine.mergeSnapshot p.source (.ofList p.authoritativeTypes) r)

/-- Goes on with an execution whose agent has loaded its data, or failed to. -/
def loaded (s : Scheduler B) (now : Nat) (e : Execution B) : Except Error Report → Scheduler B
  | .error err => s.finish now e (.error err)
  | .ok r =>
    if s.isShutDown then s.cancel now e
    else
      s.proceed now e (s.profileOf e.agent).source (now + s.options.mergeTimeout.nanoseconds)
        (s.mergeWork e.agent r)

/-! ## Loading -/

/-- Goes on with an execution whose agent loads its data: the data may be there, and if it is not,
the agent may have taken too long. -/
def load (s : Scheduler B) (now : Nat) (e : Execution B) (ready deadline : Nat) : Scheduler B :=
  if ready ≤ now then s.loaded now e (s.agentOf e.agent).report
  else if deadline ≤ now then s.finish now e (.error (.timedOut e.name s.options.agentTimeout))
  else s

/-- Takes a permit for an execution and has its agent load the data. -/
def grant (s : Scheduler B) (now : Nat) (e : Execution B) : Scheduler B :=
  let ready := now + ((s.agentOf e.agent).delay.getD ⟨0⟩).nanoseconds
  let deadline := now + s.options.agentTimeout.nanoseconds
  let phase := Phase.loading ready deadline
  let s := ({ s with permits := s.permits - 1 }.setPhase e.id phase).observe now e.name .started
  let s := s.modifyAgent e.agent fun a => { a with calls := a.calls + 1 }
  s.load now { e with phase } ready deadline

/-- Gives permits to waiting executions, in order, as long as there are any; `limit` is the number
of executions. -/
def grantAll (now : Nat) : Nat → Scheduler B → Scheduler B
  | 0, s => s
  | limit + 1, s =>
    if s.permits = 0 then s
    else
      match s.executions.find? Execution.isWaiting with
      | some e => grantAll now limit (s.grant now e)
      | none => s

/-- Gives permits to all waiting executions that can have one. -/
def settle (s : Scheduler B) (now : Nat) : Scheduler B := grantAll now s.executions.length s

/-! ## The beginning of an execution -/

/-- Adds an execution of a claimed agent. After a shutdown it ends at once. -/
def begin (s : Scheduler B) (now : Nat) (agent : Nat) (isDispatched : Bool) : Scheduler B :=
  let p := s.profileOf agent
  let e : Execution B :=
    { id := s.begun, agent, name := p.agent, began := now, isDispatched,
      interval := p.interval.getD s.options.defaultInterval }
  let s := { s with executions := s.executions ++ [e], begun := s.begun + 1 }
  if s.isShutDown then s.cancel now e else s

/-- What came of calling an agent. -/
inductive Called where
  /-- The agent was running. -/
  | skipped
  /-- An execution with this id has begun. -/
  | began (id : Nat)

/-- Calls an agent to run now, unless it is running. -/
def call (s : Scheduler B) (now : Nat) (name : String) : Except Error (Called × Scheduler B) :=
  match s.registry.caching[name]? with
  | none => .error (.unknownAgent name)
  | some agent =>
    if s.slots.isRunning name then .ok (.skipped, s.observe now name .skipped)
    else
      let claimed := { s with slots := s.slots.claim name now }
      .ok (.began s.begun, (claimed.begin now agent false).settle now)

/-- Looks at a registered agent and begins an execution if it is due. -/
def dispatch (s : Scheduler B) (now : Nat) (name : String) (agent : Nat) : Scheduler B :=
  let slots := s.slots.claimIfDue now name
  if s.slots.isDue now name then { s with slots }.begin now agent true else { s with slots }

/-- One look of the dispatcher at all registered agents. -/
def tick (s : Scheduler B) (now : Nat) : Scheduler B :=
  let agents := s.registry.caching.toList
  let s := { s with
    slots := s.slots.retain (agents.map Prod.fst)
    nextTick := some (now + s.options.tick.nanoseconds) }
  agents.foldl (fun s (name, agent) => s.dispatch now name agent) s

/-- Sets the dispatcher to work. -/
def start (s : Scheduler B) (now : Nat) : Scheduler B :=
  if s.nextTick.isSome || s.isShutDown then s else (s.tick now).settle now

/-! ## What happens by itself -/

/-- Goes on with an execution whose time has come. -/
def wake (s : Scheduler B) (now : Nat) (e : Execution B) : Scheduler B :=
  match e.phase with
  | .waiting => s
  | .loading ready deadline => s.load now e ready deadline
  | .merging source since deadline rest =>
    if since + B.patience.nanoseconds ≤ now then
      s.proceed now e source deadline (rest (B.silence s.cache))
    else if deadline ≤ now then s.finish now e (.error (s.lateMerge source))
    else s

/-- Takes all steps whose time has come. -/
def wakeAll (s : Scheduler B) (now : Nat) : Scheduler B :=
  let s := s.executions.foldl (fun s e => s.wake now e) s
  let s := match s.nextTick with
    | some t => if t ≤ now then s.tick now else s
    | none => s
  s.settle now

/-- When something happens next by itself. -/
def nextWake? (s : Scheduler B) : Option Nat :=
  (s.nextTick.toList ++ s.executions.filterMap Execution.wakeTime?).min?

/-! ## Shutdown -/

/-- Stops the dispatcher and cancels all executions that do not merge yet. -/
def shutDown (s : Scheduler B) (now : Nat) : Scheduler B :=
  let s := { s with isShutDown := true, nextTick := none }
  (s.executions.filter fun e => !e.isMerging).foldl (fun s e => s.cancel now e) s

end Scheduler

end Inventory
