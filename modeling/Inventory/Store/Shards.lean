import Inventory.Digest.Sha256
import Inventory.Store.Node

/-!
# Inventory.Store.Shards

Stores, each a single node or several nodes that share the keys.

The digest of a key, or of the part of it in braces, tells which shard it belongs to. A read of
several keys asks each shard for its own and puts the answers back in the order of the keys. A batch
is split in the same way; all shards get their part, even if one of them fails.
-/

namespace Inventory

/-- The part of a key that decides where it belongs: what the first pair of braces encloses, unless
that is empty, or the whole key. -/
def hashTag (key : String) : String :=
  match key.toList.dropWhile (· ≠ '\x7b') with
  | [] => key
  | _ :: inner =>
    let tag := inner.takeWhile (· ≠ '\x7d')
    if tag.length < inner.length ∧ tag ≠ [] then String.ofList tag else key

/-- The number of the shard that owns a key, of `count` shards. -/
def shardIndex (count : Nat) (key : String) : Nat :=
  if count = 1 then 0
  else
    let digest := Sha256.digest (Bytes.ofText (hashTag key))
    (digest.take 8).foldl (fun n b => 256 * n + b.toNat) 0 % count

/-- A store. -/
inductive Store where
  /-- One node. -/
  | single (node : Node)
  /-- Nodes among which the keys are divided. -/
  | sharded (shards : List Node)

namespace Store

/-- The store of the given shards, of which there must be one. -/
def ofShards (shards : List Node) : Except Error Store :=
  if shards.isEmpty then .error (.misconfigured .noShards) else .ok (.sharded shards)

/-- The name of a store. -/
def name : Store → String
  | single node => node.name
  | sharded shards => "sharded[" ++ ",".intercalate (shards.map Node.name) ++ "]"

/-- The nodes of a store. -/
def nodes : Store → List Node
  | single node => [node]
  | sharded shards => shards

/-- The store with other nodes in the place of its nodes, by their position. -/
def mapNodes (change : Nat → Node → Node) : Store → Store
  | single node => single (change 0 node)
  | sharded shards => sharded (shards.mapIdx change)

/-- Whether a batch is carried out as a whole or not at all. -/
def isAtomic : Store → Bool
  | single _ => true
  | sharded _ => false

/-! ## Reading from shards -/

/-- Asks the shard that owns a key. -/
def askOwner (shards : List Node) (key : String) (q : Query) : Except Error q.Reply :=
  match shards[shardIndex shards.length key]? with
  | some node => node.read q
  | none => .error (.misconfigured .noShards)

/-- The keys that belong to a shard, with their positions. -/
def keysOf (count : Nat) (keys : List String) (shard : Nat) : List (String × Nat) :=
  keys.zipIdx.filter fun (key, _) => shardIndex count key = shard

/-- Reads the keys of each shard and returns the values with their positions. A shard that owns
none of them is not asked. -/
def gather {α : Type} (read : Node → List String → Except Error (List α)) (count : Nat)
    (keys : List String) : List (Node × Nat) → Except Error (List (Nat × α))
  | [] => .ok []
  | (node, shard) :: rest => do
    let own := keysOf count keys shard
    let values ← if own.isEmpty then .ok [] else read node (own.map Prod.fst)
    let others ← gather read count keys rest
    return (own.map Prod.snd).zip values ++ others

/-- Reads several keys and puts the values in the order of the keys. -/
def scatter {α : Type} (read : Node → List String → Except Error (List α)) (missing : α)
    (shards : List Node) (keys : List String) : Except Error (List α) := do
  let found ← gather read shards.length keys shards.zipIdx
  return (List.range keys.length).map fun position => (found.lookup position).getD missing

/-- Answers a question to a sharded store. -/
def readShards (shards : List Node) : (q : Query) → Except Error q.Reply
  | .blobs keys => scatter (fun node keys => node.read (.blobs keys)) none shards keys
  | .sets keys => scatter (fun node keys => node.read (.sets keys)) ∅ shards keys
  | .hashFields key fields => askOwner shards key (.hashFields key fields)
  | .scan key glob => askOwner shards key (.scan key glob)
  | .contains key texts => askOwner shards key (.contains key texts)

/-! ## Writing to shards -/

/-- The commands of a batch that belong to a shard. -/
def partOf (count : Nat) (batch : List Command) (shard : Nat) : List Command :=
  batch.filter fun c => shardIndex count c.key = shard

/-- What the answers of several shards to a write amount to: silence if one of them is silent, and
else the first error. -/
def combine : List (Option (Except Error Unit)) → Option (Except Error Unit)
  | [] => some (.ok ())
  | none :: _ => none
  | some (.ok ()) :: rest => combine rest
  | some (.error e) :: rest => (combine rest).map fun _ => .error e

/-- Has a shard carry out its part of a batch; one without a part is not asked. -/
def writePart (count : Nat) (batch : List Command) (shard : Nat) (node : Node) :
    Node × Option (Except Error Unit) :=
  let part := partOf count batch shard
  if part.isEmpty then (node, some (.ok ())) else node.write part

/-- Has each shard carry out its part of a batch. -/
def writeShards (shards : List Node) (batch : List Command) :
    List Node × Option (Except Error Unit) :=
  let answers := shards.mapIdx (writePart shards.length batch)
  (answers.map Prod.fst, combine (answers.map Prod.snd))

/-! ## Answering -/

/-- Answers a question. -/
def read : Store → (q : Query) → Except Error q.Reply
  | single node, q => node.read q
  | sharded shards, q => readShards shards q

/-- Carries out a batch; no answer means that the store never answers. -/
def write : Store → List Command → Store × Option (Except Error Unit)
  | single node, batch => ((single (node.write batch).1), (node.write batch).2)
  | sharded shards, batch => (sharded (writeShards shards batch).1, (writeShards shards batch).2)

/-- Answers a request; no answer means that the store never answers. -/
def answer (r : StoreRequest) (s : Store) : Store × Option (Except Error r.Reply) :=
  match r with
  | .read q => (s, some (s.read q))
  | .write batch => s.write batch

end Store

end Inventory
