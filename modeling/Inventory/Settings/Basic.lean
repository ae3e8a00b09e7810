import Inventory.Cache.KeyValue.Layout
import Inventory.Schedule.Slots
import Inventory.Settings.CommandLine

/-!
# Inventory.Settings.Basic

The settings of the program, from its command line and its environment.

A setting that the command line does not give is taken from the variable of the same name, in upper
case and after `CATS_`, and else has its default. What is read is refused if a size or a limit is
zero, or a name is empty.
-/

namespace Inventory

/-- The settings of the program. Times are in seconds, but for that of the store. -/
structure Settings where
  /-- The addresses of the stores; with none, everything is kept in memory. -/
  endpoints : List String := []
  keyspace : String := "cats"
  mergeBatch : Nat := 100
  getBatch : Nat := 500
  evictBatch : Nat := 500
  scanSize : Nat := 1000
  compression : Bool := false
  hashing : Bool := true
  /-- Whether a batch is carried out as a whole or not at all. -/
  atomicBatches : Bool := true
  maxConcurrentAgents : Nat := 4
  defaultInterval : Nat := 60
  agentTimeout : Nat := 300
  /-- In milliseconds. -/
  storeTimeout : Nat := 30000
  mergeTimeout : Nat := 120
  failureBackoff : Nat := 30

namespace Settings

/-! ## Reading -/

/-- The options of the command line. -/
def grammar : CommandLine.Grammar where
  names := ["redis-url", "prefix", "max-merge-batch-size", "max-get-batch-size",
    "max-evict-batch-size", "scan-size", "compression", "hashing", "atomic-batches",
    "max-concurrent-agents", "default-interval", "agent-timeout", "store-timeout", "merge-timeout",
    "failure-backoff"]
  repeatable := ["redis-url"]

/-- The environment variable of an option. -/
def variableOf (option : String) : String :=
  "CATS_" ++ option.map fun c => if c = '-' then '_' else c.toUpper

/-- What the command line and, failing that, the environment give for an option. -/
def valuesOf (given : CommandLine.Given) (environment : StringMap String) (option : String) :
    List String :=
  match given[option]? with
  | some values => values
  | none => (environment[variableOf option]?).toList

/-- Reads a natural number below `2 ^ 64`, which may have a plus sign. -/
def nat? (s : String) : Option Nat :=
  let digits := match s.toList with
    | '+' :: digits => digits
    | digits => digits
  if digits ≠ [] ∧ digits.all Char.isDigit then
    let n := digits.foldl (fun n c => 10 * n + (c.toNat - '0'.toNat)) 0
    if n < UInt64.size then some n else none
  else none

/-- Reads a truth value. -/
def bool? (s : String) : Option Bool :=
  if s = "true" then some true else if s = "false" then some false else none

/-- Reads an option that has at most one value. -/
def single? {α : Type} (read? : String → Option α) (default : α) (values : List String) :
    Option α :=
  match values.getLast? with
  | none => some default
  | some value => read? value

/-- Whether no size, limit or name is empty. -/
def isValid (s : Settings) : Bool :=
  s.endpoints.all (! ·.isEmpty) && !s.keyspace.isEmpty &&
    [s.mergeBatch, s.getBatch, s.evictBatch, s.scanSize, s.maxConcurrentAgents, s.defaultInterval,
      s.agentTimeout, s.storeTimeout, s.mergeTimeout].all (0 < ·)

/-- Reads the settings from the words of the command line, of which the first is the name of the
program, and the environment. -/
def read? (words : List String) (environment : StringMap String) : Option Settings := do
  let given ← grammar.read? ∅ (words.drop 1)
  let values := valuesOf given environment
  let defaults : Settings := {}
  let settings : Settings :=
    { endpoints := (values "redis-url").flatMap (·.splitOn ",")
      keyspace := ← single? some defaults.keyspace (values "prefix")
      mergeBatch := ← single? nat? defaults.mergeBatch (values "max-merge-batch-size")
      getBatch := ← single? nat? defaults.getBatch (values "max-get-batch-size")
      evictBatch := ← single? nat? defaults.evictBatch (values "max-evict-batch-size")
      scanSize := ← single? nat? defaults.scanSize (values "scan-size")
      compression := ← single? bool? defaults.compression (values "compression")
      hashing := ← single? bool? defaults.hashing (values "hashing")
      atomicBatches := ← single? bool? defaults.atomicBatches (values "atomic-batches")
      maxConcurrentAgents :=
        ← single? nat? defaults.maxConcurrentAgents (values "max-concurrent-agents")
      defaultInterval := ← single? nat? defaults.defaultInterval (values "default-interval")
      agentTimeout := ← single? nat? defaults.agentTimeout (values "agent-timeout")
      storeTimeout := ← single? nat? defaults.storeTimeout (values "store-timeout")
      mergeTimeout := ← single? nat? defaults.mergeTimeout (values "merge-timeout")
      failureBackoff := ← single? nat? defaults.failureBackoff (values "failure-backoff") }
  if settings.isValid then some settings else none

/-! ## Using -/

/-- The name of the backend, unless it is a store whose address gives the name. -/
def backendName? (s : Settings) : Option String :=
  if s.endpoints.isEmpty then some s.keyspace else none

/-- The settings of the cache over a key-value store. -/
def keyValueOptions (s : Settings) : KeyValue.Options :=
  { keyspace := s.keyspace, mergeBatch := s.mergeBatch, getBatch := s.getBatch,
    evictBatch := s.evictBatch, scanSize := s.scanSize, compression := s.compression,
    hashing := s.hashing, storeTimeout := .ofMilliseconds s.storeTimeout }

/-- The settings of the scheduler. -/
def schedulerOptions (s : Settings) : Schedule.Options :=
  { workers := s.maxConcurrentAgents
    defaultInterval := .ofMilliseconds (1000 * s.defaultInterval)
    agentTimeout := .ofMilliseconds (1000 * s.agentTimeout)
    failureBackoff := .ofMilliseconds (1000 * s.failureBackoff)
    mergeTimeout := .ofMilliseconds (1000 * s.mergeTimeout) }

end Settings

end Inventory
