import Inventory.Duration
import Inventory.Glob.Pattern

/-!
# Inventory.Error

What can go wrong, by cause, and the wording of every error.

An error is *retryable* when a later attempt may succeed without anything being changed: the cycle
of the agent is abandoned and taken up again.
-/

namespace Inventory

/-- Why a text is not accepted as a key, an id or a glob. -/
inductive KeyFault where
  /-- An entity of the given type has no id. -/
  | emptyId (type : String)
  /-- The key starts with an empty segment. -/
  | missingProvider
  /-- The key has fewer segments than every key needs. -/
  | tooFewSegments (needed found : Nat)
  | emptySegment
  | invalidEscape
  /-- The key belongs to another provider. -/
  | wrongProvider (found expected : String)
  /-- The text is no glob. -/
  | glob (fault : Glob.Fault)
  /-- A reason given from outside. -/
  | reported (reason : String)
deriving DecidableEq, Repr

/-- The wording of a fault of the text `key`. -/
def KeyFault.text (key : String) : KeyFault → String
  | emptyId type => s!"empty id in type '{type}'"
  | missingProvider => "missing provider"
  | tooFewSegments needed found => s!"expected at least {needed} segments, found {found}"
  | emptySegment => "empty segment"
  | invalidEscape => "invalid escape sequence"
  | wrongProvider found expected => s!"provider '{found}' is not '{expected}'"
  | glob fault => s!"error parsing glob '{key}': {fault.text}"
  | reported reason => reason

/-- Why a backend did not do what it was asked. -/
inductive Outage where
  /-- The store refuses reads. -/
  | readsFail
  /-- The store refuses writes. -/
  | writesFail
  /-- The store did not answer in time. -/
  | silent (timeout : Duration)
  /-- A merge did not end in time. -/
  | slowMerge (source : String) (timeout : Duration)
  /-- A reason given from outside. -/
  | reported (reason : String)
deriving DecidableEq, Repr

/-- The wording of an outage. -/
def Outage.text : Outage → String
  | readsFail => "injected read failure"
  | writesFail => "injected write failure"
  | silent timeout => s!"no response within {timeout.text}"
  | slowMerge source timeout => s!"merge of {source} took longer than {timeout.text}"
  | reported reason => reason

/-- Why a configuration or a registration is refused. -/
inductive ConfigFault where
  /-- A caching agent of this type is registered already. -/
  | duplicateAgent (agent : String)
  /-- An on-demand agent of this type is registered already. -/
  | duplicateOnDemandAgent (agent : String)
  /-- A cluster without shards. -/
  | noShards
  /-- A reason given from outside. -/
  | reported (reason : String)
deriving DecidableEq, Repr

/-- The wording of a refused configuration. -/
def ConfigFault.text : ConfigFault → String
  | duplicateAgent agent => s!"caching agent '{agent}' is already registered"
  | duplicateOnDemandAgent agent => s!"on-demand agent '{agent}' is already registered"
  | noShards => "sharded store needs at least one shard"
  | reported reason => reason

/-- What can go wrong. -/
inductive Error where
  /-- A text is not accepted as a key, an id or a glob. -/
  | malformedKey (key : String) (fault : KeyFault)
  /-- The backend of the given name could not be used. -/
  | unavailable (backend : String) (outage : Outage)
  /-- An agent could not load its data. -/
  | agentFailed (agent : String) (reason : String)
  /-- Two agents claim authority over a type in overlapping scopes. -/
  | authorityConflict (type first second : String)
  /-- An agent took too long to load its data. -/
  | timedOut (agent : String) (timeout : Duration)
  /-- The execution of an agent was cancelled. -/
  | cancelled (agent : String)
  /-- A stored or received text could not be read. -/
  | unreadable (reason : String)
  /-- A configuration or a registration is refused. -/
  | misconfigured (fault : ConfigFault)
  /-- No agent of this type is registered. -/
  | unknownAgent (agent : String)
deriving DecidableEq, Repr

namespace Error

/-- The wording of an error. -/
def message : Error → String
  | malformedKey key fault => s!"malformed cache key '{key}': {fault.text key}"
  | unavailable backend outage => s!"cache backend '{backend}' unavailable: {outage.text}"
  | agentFailed agent reason => s!"agent '{agent}' failed to load data: {reason}"
  | authorityConflict type first second =>
    s!"type '{type}' has conflicting authoritative sources: '{first}' and '{second}'"
  | timedOut agent timeout => s!"agent '{agent}' timed out after {timeout.text}"
  | cancelled agent => s!"agent '{agent}' execution was cancelled"
  | unreadable reason => s!"serialization failed: {reason}"
  | misconfigured fault => s!"invalid configuration: {fault.text}"
  | unknownAgent agent => s!"no agent registered as '{agent}'"

/-- Whether a later attempt may succeed as things stand. -/
def isRetryable : Error → Bool
  | unavailable .. | agentFailed .. | timedOut .. | cancelled .. => true
  | _ => false

end Error

/-- The pattern that a glob denotes. -/
def Glob.compile (glob : String) : Except Error (List Glob.Part) :=
  match Glob.parse glob with
  | .ok pattern => .ok pattern
  | .error fault => .error (.malformedKey glob (.glob fault))

end Inventory
