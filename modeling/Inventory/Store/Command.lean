import Inventory.Bytes
import Inventory.Collections

/-!
# Inventory.Store.Command

What is asked of a key-value store: questions, and batches of commands that change one key each.
-/

namespace Inventory

/-- A change of one key. -/
inductive Command where
  | set (key : String) (value : Bytes)
  | delete (key : String)
  | addMembers (key : String) (members : List String)
  | removeMembers (key : String) (members : List String)
  | setField (key field : String) (value : Bytes)
  | removeFields (key : String) (fields : List String)
  | expire (key : String) (seconds : UInt64)
deriving DecidableEq, Repr

namespace Command

/-- The key that a command changes. -/
def key : Command → String
  | set key _ | delete key | addMembers key _ | removeMembers key _ | setField key _ _
  | removeFields key _ | expire key _ => key

/-- Whether a command has nothing to do. -/
def isNoop : Command → Bool
  | addMembers _ members | removeMembers _ members => members.isEmpty
  | removeFields _ fields => fields.isEmpty
  | _ => false

/-- Whether a command only sets a time to live. -/
def isExpire : Command → Bool
  | expire .. => true
  | _ => false

/-- The batch of a list of commands: those that have something to do. -/
def batch (commands : List Command) : List Command := commands.filter (! ·.isNoop)

end Command

/-- A question to a store. -/
inductive Query where
  /-- The blobs under the given keys. -/
  | blobs (keys : List String)
  /-- The fields of the hash under a key. -/
  | hashFields (key : String) (fields : List String)
  /-- The sets under the given keys. -/
  | sets (keys : List String)
  /-- The set under a key; a store may use the glob to return less of it. -/
  | scan (key : String) (glob : Option String)
  /-- For each text, whether it is in the set under a key. -/
  | contains (key : String) (texts : List String)

/-- The answer to a question. Lists are aligned with what was asked for. -/
abbrev Query.Reply : Query → Type
  | blobs _ | hashFields .. => List (Option Bytes)
  | sets _ => List StringSet
  | scan .. => StringSet
  | contains .. => List Bool

/-- What a store is asked to do. -/
inductive StoreRequest where
  | read (query : Query)
  /-- Carries out commands in order. -/
  | write (batch : List Command)

/-- What a store answers to a request. -/
abbrev StoreRequest.Reply : StoreRequest → Type
  | read query => query.Reply
  | write _ => Unit

end Inventory
