import Inventory.Error
import Inventory.Glob.Match
import Inventory.Store.Command

/-!
# Inventory.Store.Node

A key-value store held in memory.

Values and times to live are kept apart, as every command treats them on its own: a key may be left
with a time to live and no value. A node can be told to refuse reads, to refuse writes, or not to
answer writes at all.
-/

namespace Inventory

/-- What stands under a key. -/
inductive Value where
  | blob (content : Bytes)
  | set (members : StringSet)
  | hash (fields : StringMap Bytes)

/-- The ways in which a node misbehaves. -/
structure Faults where
  failReads : Bool := false
  failWrites : Bool := false
  /-- Writes are not answered. -/
  stallWrites : Bool := false
deriving DecidableEq, Repr

/-- A store in memory. -/
structure Node where
  name : String
  values : StringMap Value := ∅
  /-- The seconds after which a key expires. -/
  ttls : StringMap UInt64 := ∅
  /-- The number of batches carried out. -/
  batches : Nat := 0
  faults : Faults := {}

namespace Node

/-! ## Reading -/

/-- The blob under a key. -/
def blob? (n : Node) (key : String) : Option Bytes :=
  match n.values[key]? with
  | some (.blob content) => some content
  | _ => none

/-- The set under a key, empty if there is none. -/
def members (n : Node) (key : String) : StringSet :=
  match n.values[key]? with
  | some (.set members) => members
  | _ => ∅

/-- A field of the hash under a key. -/
def hashField? (n : Node) (key field : String) : Option Bytes :=
  match n.values[key]? with
  | some (.hash fields) => fields[field]?
  | _ => none

/-! ## Writing -/

/-- The node with another value under a key. -/
def put (n : Node) (key : String) (value : Value) : Node :=
  { n with values := n.values.insert key value }

/-- The node without the value under a key. -/
def dropValue (n : Node) (key : String) : Node := { n with values := n.values.erase key }

/-- The node without the time to live of a key. -/
def dropTtl (n : Node) (key : String) : Node := { n with ttls := n.ttls.erase key }

/-- Carries out one command. One that does not fit the kind of the value changes nothing. -/
def apply (n : Node) : Command → Node
  | .set key value => (n.dropTtl key).put key (.blob value)
  | .delete key => (n.dropTtl key).dropValue key
  | .addMembers key members =>
    match n.values[key]? with
    | none => n.put key (.set (.ofList members))
    | some (.set old) => n.put key (.set (old.insertMany members))
    | some _ => n
  | .removeMembers key members =>
    match n.values[key]? with
    | some (.set old) =>
      let left := old.eraseMany members
      if left.isEmpty then (n.dropValue key).dropTtl key else n.put key (.set left)
    | _ => n
  | .setField key field value =>
    match n.values[key]? with
    | none => n.put key (.hash (.ofList [(field, value)]))
    | some (.hash old) => n.put key (.hash (old.insert field value))
    | some _ => n
  | .removeFields key fields =>
    match n.values[key]? with
    | some (.hash old) =>
      let left := old.eraseMany fields
      if left.isEmpty then n.dropValue key else n.put key (.hash left)
    | _ => n
  | .expire key seconds =>
    if key ∈ n.values then { n with ttls := n.ttls.insert key seconds } else n

/-- Carries out commands in order. -/
def applyAll (n : Node) (commands : List Command) : Node := commands.foldl apply n

/-! ## Answering -/

/-- The answer to a question. -/
def lookup (n : Node) : (q : Query) → Except Error q.Reply
  | .blobs keys => .ok (keys.map n.blob?)
  | .hashFields key fields => .ok (fields.map (n.hashField? key))
  | .sets keys => .ok (keys.map n.members)
  | .scan key none => .ok (n.members key)
  | .scan key (some glob) => do
    let pattern ← Glob.compile glob
    return (n.members key).filter (Glob.isMatch pattern)
  | .contains key texts => .ok (texts.map (n.members key).contains)

/-- Answers a question, unless reads are refused. -/
def read (n : Node) (q : Query) : Except Error q.Reply :=
  if n.faults.failReads then .error (.unavailable n.name .readsFail) else n.lookup q

/-- Carries out a batch; no answer means that the node never answers. -/
def write (n : Node) (batch : List Command) : Node × Option (Except Error Unit) :=
  if n.faults.stallWrites then (n, none)
  else if n.faults.failWrites then (n, some (.error (.unavailable n.name .writesFail)))
  else ({ n.applyAll batch with batches := n.batches + 1 }, some (.ok ()))

end Node

end Inventory
