import Inventory.Collections
import Inventory.Duration

/-!
# Inventory.Schedule.Slots

When each agent runs next, and whether it runs now.

A slot is made when an agent is first claimed or looked at. A claim succeeds unless the agent is
running, and the release that ends the run says when the agent is due again.

Points in time are in nanoseconds since the beginning, and there is no last one. That a clock may have no
point so late as the next run, and what becomes of a slot then, is left out.
-/

namespace Inventory

namespace Schedule

/-- How agents are scheduled. -/
structure Options where
  /-- The number of permits, of which every run needs one; none counts as one. -/
  workers : Nat := 4
  /-- The time between two runs of an agent without an interval of its own. -/
  defaultInterval : Duration := .ofMilliseconds 60000
  /-- How long an agent may take to load its data. -/
  agentTimeout : Duration := .ofMilliseconds 300000
  /-- The time from a failure to the next run. -/
  failureBackoff : Duration := .ofMilliseconds 30000
  /-- How long a merge may take. -/
  mergeTimeout : Duration := .ofMilliseconds 120000
  /-- The time between two looks at what is due, which is not zero while the dispatcher is at work. -/
  tick : Duration := .ofMilliseconds 250

/-- Whether an agent is at work, and how its last run ended. -/
inductive AgentState where
  | idle
  | running
  | failed (retryAt : Nat)
deriving DecidableEq, Repr

/-- What is known of the runs of an agent. -/
structure Slot where
  state : AgentState := .idle
  nextRun : Nat
deriving DecidableEq, Repr

/-- The slots by the names of the agents. -/
abbrev Slots := StringMap Slot

namespace Slots

/-- The slot of an agent, which is due at once if it is new. -/
def slotOf (slots : Slots) (agent : String) (now : Nat) : Slot :=
  (slots[agent]?).getD { nextRun := now }

/-- Whether an agent is running. -/
def isRunning (slots : Slots) (agent : String) : Bool :=
  (slots[agent]?).any fun slot => slot.state == .running

/-- Whether an agent is not running and its next run is due. -/
def isDue (slots : Slots) (now : Nat) (agent : String) : Bool :=
  let slot := slots.slotOf agent now
  slot.state != .running && slot.nextRun ≤ now

/-- Marks an agent as running. -/
def claim (slots : Slots) (agent : String) (now : Nat) : Slots :=
  slots.insert agent { slots.slotOf agent now with state := .running }

/-- Drops the slots of agents that take no longer part. -/
def retain (slots : Slots) (agents : List String) : Slots :=
  slots.filter fun agent _ => agents.contains agent

/-- Looks at an agent: claims it if it is due. -/
def claimIfDue (slots : Slots) (now : Nat) (agent : String) : Slots :=
  if slots.isDue now agent then slots.claim agent now
  else slots.insert agent (slots.slotOf agent now)

/-- Ends the run of an agent, unless its slot is gone. The next run is at a point in time, however long the
interval. -/
def release (slots : Slots) (agent : String) (succeeded : Bool) (now : Nat)
    (interval backoff : Duration) : Slots :=
  if agent ∈ slots then
    let slot : Slot :=
      if succeeded then { state := .idle, nextRun := now + interval.nanoseconds }
      else { state := .failed (now + backoff.nanoseconds), nextRun := now + backoff.nanoseconds }
    slots.insert agent slot
  else slots

end Slots

end Schedule

end Inventory
