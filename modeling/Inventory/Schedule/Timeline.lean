import Inventory.Schedule.Scheduler

/-!
# Inventory.Schedule.Timeline

The passing of time.

Time stands still while there is work to do, and then goes on to the next point at which something
happens by itself. Whoever asks for something waits in the same way: while a request to the backend
is not answered, while an on-demand agent takes its time, or until an execution has ended.
-/

namespace Inventory

/-- A scheduler at a point in time. -/
structure Timeline (B : Backend) where
  now : Nat := 0
  scheduler : Scheduler B

namespace Timeline

variable {B : Backend}

/-- Lets time pass up to `target`, or until `stop` holds. -/
def pass (stop : Scheduler B → Bool) (target : Nat) (t : Timeline B) : Timeline B :=
  if stop t.scheduler then t
  else
    match t.scheduler.nextWake? with
    | some next =>
      if _h : t.now < next ∧ next ≤ target then
        pass stop target ⟨next, t.scheduler.wakeAll next⟩
      else ⟨max t.now target, t.scheduler⟩
    | none => ⟨max t.now target, t.scheduler⟩
termination_by target - t.now
decreasing_by exact Nat.sub_lt_sub_left (Nat.lt_of_lt_of_le _h.1 _h.2) _h.1

/-- Lets time pass up to a point. -/
def passUntil (t : Timeline B) (target : Nat) : Timeline B := t.pass (fun _ => false) target

/-- Lets some time pass. -/
def sleep (t : Timeline B) (d : Duration) : Timeline B := t.passUntil (t.now + d.nanoseconds)

/-- Changes the scheduler. -/
def modify (t : Timeline B) (change : Nat → Scheduler B → Scheduler B) : Timeline B :=
  { t with scheduler := change t.now t.scheduler }

/-! ## Waiting for executions -/

/-- A point in time at which all executions there are now will have ended: none of them takes
longer than its two timeouts, once those before it have ended. -/
def horizon (t : Timeline B) : Nat :=
  let o := t.scheduler.options
  t.now + (t.scheduler.executions.length + 1) *
    (o.agentTimeout.nanoseconds + o.mergeTimeout.nanoseconds)

/-- Waits until an execution has ended. -/
def await (t : Timeline B) (id : Nat) : Timeline B :=
  t.pass (fun s => s.executions.all (·.id != id)) t.horizon

/-- Shuts the scheduler down and waits for the executions that it started by itself. -/
def shutDown (t : Timeline B) : Timeline B :=
  let t := t.modify fun now s => s.shutDown now
  t.pass (fun s => s.executions.all fun e => !e.isDispatched) t.horizon

/-! ## Work on the cache -/

/-- When a piece of work must be over, and what it comes to if it is not. -/
structure Limit where
  deadline : Nat
  late : Error

/-- Works on the cache; the last answer may be waited for no longer than the limit says. -/
def work {α : Type} (limit : Option Limit) (t : Timeline B) :
    B.Work α → Except Error α × Timeline B
  | .done result => (result, t)
  | .note a next =>
    work limit
      { t with scheduler := { t.scheduler with activity := a :: t.scheduler.activity } } next
  | .ask r next =>
    let (cache, reply) := B.answer r t.scheduler.cache
    let t := { t with scheduler := { t.scheduler with cache } }
    match reply with
    | some reply => work limit t (next reply)
    | none =>
      let due := t.now + B.patience.nanoseconds
      match limit.filter fun l => l.deadline < due with
      | some l => (.error l.late, t.passUntil l.deadline)
      | none => work limit (t.passUntil due) (next (.error (B.silence cache)))

/-- Does something on the cache, however long it takes. -/
def perform {α : Type} (t : Timeline B) (p : CachePlan α) : Except Error α × Timeline B :=
  t.work none (B.work p)

/-- Merges a report within the time for merges. -/
def merge (t : Timeline B) (source : Source) (authoritative : StringSet) (r : Report) :
    Except Error MergeStats × Timeline B :=
  let s := t.scheduler
  let limit : Limit := ⟨t.now + s.options.mergeTimeout.nanoseconds, s.lateMerge source⟩
  t.work (some limit) (B.work (s.engine.mergeSnapshot source authoritative r))

/-! ## On-demand agents -/

/-- Asks an on-demand agent within the time that agents may take. -/
def ask (t : Timeline B) (a : OnDemandAgent) (request : Attributes) :
    Except Error (Option Refresh) × Timeline B :=
  let timeout := t.scheduler.options.agentTimeout
  let delay := a.delay.getD ⟨0⟩
  if delay.nanoseconds ≤ timeout.nanoseconds then (a.handle request, t.sleep delay)
  else (.error (.timedOut a.name timeout), t.sleep timeout)

/-- Asks on-demand agents, one after the other, and merges what they find. The scope of each merge
is what it names, so nothing else is evicted. -/
def refreshAll (request : Attributes) (stats : MergeStats) (t : Timeline B) :
    List OnDemandAgent → Except Error MergeStats × Timeline B
  | [] => (.ok stats, t)
  | a :: rest =>
    match t.ask a request with
    | (.error e, t) => (.error e, t)
    | (.ok none, t) => refreshAll request stats t rest
    | (.ok (some found), t) =>
      match t.merge found.source found.authoritative found.report with
      | (.error e, t) => (.error e, t)
      | (.ok more, t) => refreshAll request (stats.combine more) t rest

/-- Refreshes one entity through all on-demand agents that can. -/
def onDemand (t : Timeline B) (type provider : String) (request : Attributes) :
    Except Error MergeStats × Timeline B :=
  refreshAll request {} t (t.scheduler.registry.onDemandFor type provider)

/-! ## Deregistration -/

/-- Drops the slot of an agent. -/
def dropSlot (t : Timeline B) (agent : String) : Timeline B :=
  t.modify fun _ s => { s with slots := s.slots.erase agent }

/-- Evicts all for which an agent has authority, as if it had reported nothing. -/
def evictScope (t : Timeline B) (agent : Nat) : Except Error MergeStats × Timeline B :=
  let p := t.scheduler.profileOf agent
  t.merge p.source (.ofList p.authoritativeTypes) .empty

/-- Deregisters an agent and, if asked to, evicts what it has authority for. -/
def deregister (t : Timeline B) (agent : String) (evict : Bool) :
    Except Error (Option MergeStats) × Timeline B :=
  match t.scheduler.registry.caching[agent]? with
  | none => (.error (.unknownAgent agent), t)
  | some number =>
    let t := (t.modify fun _ s => { s with registry := s.registry.deregister agent }).dropSlot agent
    if evict then
      let (result, t) := t.evictScope number
      (result.map some, t)
    else (.ok none, t)

/-- Evicts what each of some agents has authority for, up to the first failure. -/
def evictScopes (stats : MergeStats) (t : Timeline B) :
    List (String × Nat) → Except Error MergeStats × Timeline B
  | [] => (.ok stats, t)
  | (agent, number) :: rest =>
    match (t.dropSlot agent).evictScope number with
    | (.error e, t) => (.error e, t)
    | (.ok more, t) => evictScopes (stats.combine more) t rest

/-- Deregisters all agents of an account and evicts what they have authority for. -/
def deregisterAccount (t : Timeline B) (provider account : String) :
    Except Error MergeStats × Timeline B :=
  let s := t.scheduler
  let agents := s.registry.ofAccount s.profileOf provider account
  let t := t.modify fun _ s =>
    { s with registry := s.registry.deregisterAccount s.profileOf provider account }
  evictScopes {} t agents

end Timeline

end Inventory
