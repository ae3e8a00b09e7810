import Inventory.Proofs.Store.Cells

/-!
# Inventory.Proofs.Store.Routing

A store of several nodes as one collection of cells.

Each key belongs to one shard, so the cells of a sharded store are those of the owners of the keys
(`Store.cells`). A read of several keys is put together again without loss (`read_of_answers`), and a
batch reaches every cell by its own commands in their order, except that a shard which refuses writes
keeps its cells (`Store.cells_write`). A store whose shards refuse nothing is thus indistinguishable
from its cells (`endsIn_of_healthy`).
-/

namespace Inventory

theorem shardIndex_lt {count : Nat} (h : 0 < count) (key : String) : shardIndex count key < count := by
  rw [shardIndex]
  split
  · omega
  · exact Nat.mod_lt _ h

namespace Node

theorem read_eq {n : Node} (h : n.faults.failReads = false) (q : Query) :
    n.read q = n.cells.lookup q := by
  rw [read, h, lookup_eq]
  rfl

theorem faults_apply (n : Node) (c : Command) : (n.apply c).faults = n.faults := by
  cases c <;> grind [apply, put, dropValue, dropTtl]

theorem name_apply (n : Node) (c : Command) : (n.apply c).name = n.name := by
  cases c <;> grind [apply, put, dropValue, dropTtl]

theorem faults_applyAll (n : Node) (commands : List Command) :
    (n.applyAll commands).faults = n.faults ∧ (n.applyAll commands).name = n.name := by
  induction commands generalizing n with
  | nil => exact ⟨rfl, rfl⟩
  | cons c commands ih =>
      rw [← faults_apply n c, ← name_apply n c]
      exact ih (n.apply c)

/-- Writing changes neither the faults of a node nor its name. -/
theorem faults_write (n : Node) (batch : List Command) :
    (n.write batch).1.faults = n.faults ∧ (n.write batch).1.name = n.name := by
  rw [write]
  split
  · exact ⟨rfl, rfl⟩
  · split
    · exact ⟨rfl, rfl⟩
    · exact faults_applyAll n batch

/-- What a node that says something makes of a batch. -/
theorem cells_write {n : Node} (h : n.faults.stallWrites = false) (batch : List Command) :
    (n.write batch).1.cells = if n.faults.failWrites then n.cells else n.cells.applyAll batch := by
  rw [write, h]
  cases hf : n.faults.failWrites
  · exact cells_applyAll n batch
  · rfl

/-- What a node that says something says of a batch. -/
theorem reply_write {n : Node} (h : n.faults.stallWrites = false) (batch : List Command) :
    (n.write batch).2 =
      some (if n.faults.failWrites then .error (.unavailable n.name .writesFail) else .ok ()) := by
  rw [write, h]
  cases n.faults.failWrites <;> rfl

end Node

namespace Store

/-- The node that owns a key. -/
def owner? : Store → String → Option Node
  | single node, _ => some node
  | sharded shards, key => shards[shardIndex shards.length key]?

/-- What a store holds under each key. -/
def cells (s : Store) : Cells := fun key =>
  match s.owner? key with
  | some node => node.cells key
  | none => {}

/-- Whether writes to a key are refused. -/
def refuses (s : Store) (key : String) : Bool :=
  match s.owner? key with
  | some node => node.faults.failWrites
  | none => false

/-- A store that answers all reads and says something to every write. -/
structure Answers (s : Store) : Prop where
  nodes_ne_nil : s.nodes ≠ []
  reads : ∀ n ∈ s.nodes, n.faults.failReads = false
  replies : ∀ n ∈ s.nodes, n.faults.stallWrites = false

/-- A store of which no node misbehaves. -/
structure Healthy (s : Store) : Prop extends Answers s where
  writes : ∀ n ∈ s.nodes, n.faults.failWrites = false

variable {s : Store}

theorem owner?_eq_some (h : s.nodes ≠ []) (key : String) :
    ∃ node ∈ s.nodes, s.owner? key = some node := by
  cases s with
  | single node => exact ⟨node, by simp [nodes], rfl⟩
  | sharded shards =>
      have hlt := shardIndex_lt (List.length_pos_iff.2 h) key
      exact ⟨_, List.getElem_mem hlt, List.getElem?_eq_getElem hlt⟩

theorem Healthy.refuses_eq_false (h : s.Healthy) (key : String) : s.refuses key = false := by
  obtain ⟨node, hmem, howner⟩ := owner?_eq_some h.nodes_ne_nil key
  rw [refuses, howner]
  exact h.writes node hmem

/-! ## Reading -/

section Scatter

variable {α : Type} {read : Node → List String → Except Error (List α)} {value : Node → String → α}

variable (read value) in
/-- The values that several shards contribute, each with its position among the keys. -/
theorem gather_eq (count : Nat) (keys : List String) (l : List (Node × Nat))
    (hread : ∀ p ∈ l, ∀ own, read p.1 own = .ok (own.map (value p.1))) :
    gather read count keys l =
      .ok (l.flatMap fun p => (keysOf count keys p.2).map fun q => (q.2, value p.1 q.1)) := by
  induction l with
  | nil => rfl
  | cons p l ih =>
      obtain ⟨node, shard⟩ := p
      rw [gather, ih fun p hp => hread p (List.mem_cons_of_mem _ hp), List.flatMap_cons,
        ← List.zip_map']
      simp only [bind, Except.bind]
      split
      · next he => simp [List.isEmpty_iff.1 he, pure, Except.pure]
      · rw [hread _ List.mem_cons_self, List.map_map]
        rfl

theorem mem_keysOf {count shard i : Nat} {keys : List String} {key : String} :
    (key, i) ∈ keysOf count keys shard ↔ keys[i]? = some key ∧ shardIndex count key = shard := by
  simp [keysOf, List.mem_zipIdx_iff_getElem?]

/-- A position that only occurs with one value is looked up to it. -/
theorem lookup_eq_some_of_forall {l : List (Nat × α)} {i : Nat} {a : α} (hmem : (i, a) ∈ l)
    (hall : ∀ p ∈ l, p.1 = i → p.2 = a) : l.lookup i = some a := by
  induction l with
  | nil => simp at hmem
  | cons p l ih =>
      by_cases h : p.1 = i
      · rw [List.lookup_cons, ← hall p List.mem_cons_self h, h]
        simp
      · rw [List.lookup_cons, beq_false_of_ne (Ne.symm h)]
        refine ih ?_ fun q hq => hall q (List.mem_cons_of_mem _ hq)
        rcases List.mem_cons.1 hmem with rfl | hmem
        · exact absurd rfl h
        · exact hmem

/-- Reading several keys gives for each key, in order, the value at its owner, in whatever order the
shards answer. -/
theorem gather_bind_eq {shards : List Node} (hne : shards ≠ []) (missing : α) (keys : List String)
    {l : List (Node × Nat)} (hl : ∀ p, p ∈ l ↔ p ∈ shards.zipIdx)
    (hread : ∀ n ∈ shards, ∀ own, read n own = .ok (own.map (value n))) {at' : String → α}
    (hvalue : ∀ key n, shards[shardIndex shards.length key]? = some n → value n key = at' key) :
    (do
      let found ← gather read shards.length keys l
      return (List.range keys.length).map fun position => (found.lookup position).getD missing) =
      Except.ok (keys.map at') := by
  have hgather := gather_eq read value shards.length keys l
    fun p hp => hread p.1 (List.fst_mem_of_mem_zipIdx ((hl p).1 hp))
  rw [hgather]
  simp only [bind, Except.bind, pure, Except.pure, Except.ok.injEq]
  refine List.ext_getElem (by simp) fun i hi hi' => ?_
  rw [List.length_map] at hi'
  rw [List.getElem_map, List.getElem_map, List.getElem_range]
  have hlt := shardIndex_lt (List.length_pos_iff.2 hne) keys[i]
  have howner := List.getElem?_eq_getElem hlt
  rw [lookup_eq_some_of_forall (a := at' keys[i]), Option.getD_some]
  · refine List.mem_flatMap.2 ⟨(shards[shardIndex shards.length keys[i]], _),
      (hl _).2 (List.mem_zipIdx_iff_getElem?.2 howner), List.mem_map.2 ⟨(keys[i], i), ?_, ?_⟩⟩
    · exact mem_keysOf.2 ⟨List.getElem?_eq_getElem hi', rfl⟩
    · rw [hvalue _ _ howner]
  · rintro ⟨j, a⟩ hp rfl
    obtain ⟨⟨n, shard⟩, hn, hq⟩ := List.mem_flatMap.1 hp
    obtain ⟨⟨key, j'⟩, hkey, hja⟩ := List.mem_map.1 hq
    obtain ⟨rfl, rfl⟩ := Prod.mk.inj hja
    obtain ⟨hj, rfl⟩ := mem_keysOf.1 hkey
    have hj' : keys[j'] = key := Option.some.inj ((List.getElem?_eq_getElem hi').symm.trans hj)
    rw [hj']
    exact hvalue _ _ (List.mem_zipIdx_iff_getElem?.1 ((hl _).1 hn))

/-- Reading several keys from shards gives for each key, in order, the value at its owner. -/
theorem scatter_eq {shards : List Node} (hne : shards ≠ []) (missing : α) (keys : List String)
    (hread : ∀ n ∈ shards, ∀ own, read n own = .ok (own.map (value n))) {at' : String → α}
    (hvalue : ∀ key n, shards[shardIndex shards.length key]? = some n → value n key = at' key) :
    scatter read missing shards keys = .ok (keys.map at') :=
  gather_bind_eq hne missing keys (fun _ => Iff.rfl) hread hvalue

end Scatter

theorem askOwner_eq {shards : List Node} (h : (sharded shards).Answers) (key : String) (q : Query)
    {reply : Except Error q.Reply} (hq : ∀ n : Node, n.cells key = (sharded shards).cells key →
      n.cells.lookup q = reply) : askOwner shards key q = reply := by
  obtain ⟨node, hmem, howner⟩ := owner?_eq_some h.nodes_ne_nil key
  have hcells : node.cells key = (sharded shards).cells key := by rw [cells, howner]
  rw [askOwner, show shards[shardIndex shards.length key]? = some node from howner]
  exact (Node.read_eq (h.reads node hmem) q).trans (hq node hcells)

theorem cells_of_owner {shards : List Node} {key : String} {n : Node}
    (h : shards[shardIndex shards.length key]? = some n) : (sharded shards).cells key = n.cells key := by
  rw [cells, show (sharded shards).owner? key = some n from h]

/-- A store answers a question from its cells, however it keeps them. -/
theorem read_of_answers (h : s.Answers) (q : Query) : s.read q = s.cells.lookup q := by
  cases s with
  | single node => exact Node.read_eq (h.reads node (by simp [nodes])) q
  | sharded shards =>
      have hne : shards ≠ [] := h.nodes_ne_nil
      have hread : ∀ n ∈ shards, ∀ q, n.read q = n.cells.lookup q := fun n hn =>
        Node.read_eq (h.reads n hn)
      cases q with
      | blobs keys =>
          exact scatter_eq hne none keys (fun n hn own => hread n hn (.blobs own))
            fun key n hn => by rw [cells_of_owner hn]
      | sets keys =>
          exact scatter_eq hne ∅ keys (fun n hn own => hread n hn (.sets own))
            fun key n hn => by rw [cells_of_owner hn]
      | hashFields key fields =>
          exact askOwner_eq h key _ fun n hn => by simp only [Cells.lookup, hn]
      | scan key glob =>
          refine askOwner_eq h key _ fun n hn => ?_
          cases glob <;> simp only [Cells.lookup, hn]
      | contains key texts =>
          exact askOwner_eq h key _ fun n hn => by simp only [Cells.lookup, hn]

/-! ## Writing -/

theorem partOf_eq_nil_iff {count shard : Nat} {batch : List Command} :
    partOf count batch shard = [] ↔ ∀ c ∈ batch, shardIndex count c.key ≠ shard := by
  simp [partOf, List.filter_eq_nil_iff]

/-- Among the commands of a key, those of its shard are all. -/
theorem applyAll_partOf (m : Cells) (count : Nat) (batch : List Command) (key : String) :
    m.applyAll (partOf count batch (shardIndex count key)) key = m.applyAll batch key := by
  rw [Cells.applyAll_eq_foldl, Cells.applyAll_eq_foldl, partOf, List.filter_filter]
  congr 1
  refine List.filter_congr fun c _ => ?_
  by_cases h : c.key = key <;> simp [h]

theorem faults_writePart (count shard : Nat) (n : Node) (batch : List Command) :
    (writePart count batch shard n).1.faults = n.faults ∧
      (writePart count batch shard n).1.name = n.name := by
  rw [writePart]
  split
  · exact ⟨rfl, rfl⟩
  · exact n.faults_write _

/-- What the owner of a key makes of a batch under that key. -/
theorem cells_writePart {n : Node} (h : n.faults.stallWrites = false) (count : Nat)
    (batch : List Command) (key : String) :
    (writePart count batch (shardIndex count key) n).1.cells key =
      if n.faults.failWrites then n.cells key else n.cells.applyAll batch key := by
  have hall := applyAll_partOf n.cells count batch key
  rw [writePart]
  split
  · next he =>
    rw [List.isEmpty_iff.1 he, Cells.applyAll_nil] at hall
    rw [← hall, ite_self]
  · rw [Node.cells_write h, ← hall]
    split <;> rfl

/-- What a shard that says something says of a batch. -/
def replyOfShard (count : Nat) (batch : List Command) (shard : Nat) (n : Node) : Except Error Unit :=
  if (partOf count batch shard).isEmpty then .ok ()
  else if n.faults.failWrites then .error (.unavailable n.name .writesFail) else .ok ()

theorem reply_writePart {n : Node} (h : n.faults.stallWrites = false) (count shard : Nat)
    (batch : List Command) :
    (writePart count batch shard n).2 = some (replyOfShard count batch shard n) := by
  rw [writePart, replyOfShard]
  split
  · rfl
  · exact Node.reply_write h _

theorem replies_writeShards {shards : List Node} (h : ∀ n ∈ shards, n.faults.stallWrites = false)
    (batch : List Command) :
    (shards.mapIdx (writePart shards.length batch)).map Prod.snd =
      (shards.mapIdx (replyOfShard shards.length batch)).map some := by
  refine List.ext_getElem (by simp) fun i hi hi' => ?_
  rw [List.getElem_map, List.getElem_map, List.getElem_mapIdx, List.getElem_mapIdx]
  exact reply_writePart (h _ (List.getElem_mem _)) _ _ batch

/-- Shards that all say something come to one answer, which is good if and only if theirs are. -/
theorem combine_map_some (l : List (Except Error Unit)) :
    ∃ reply, combine (l.map some) = some reply ∧ (reply = .ok () ↔ ∀ x ∈ l, x = .ok ()) := by
  induction l with
  | nil => exact ⟨.ok (), rfl, by simp⟩
  | cons x l ih =>
      obtain ⟨reply, hreply, hok⟩ := ih
      cases x with
      | ok u => exact ⟨reply, hreply, by simpa using hok⟩
      | error e => exact ⟨.error e, by simp [combine, hreply], by simp⟩

theorem owner?_write (s : Store) (batch : List Command) (key : String) :
    ∃ change : Node → Node, (∀ n, (change n).faults = n.faults ∧ (change n).name = n.name) ∧
      (s.write batch).1.owner? key = (s.owner? key).map change := by
  cases s with
  | single node =>
      exact ⟨fun n => (n.write batch).1, fun n => n.faults_write batch, rfl⟩
  | sharded shards =>
      refine ⟨fun n => (writePart shards.length batch (shardIndex shards.length key) n).1,
        fun n => faults_writePart _ _ n batch, ?_⟩
      simp only [write, writeShards, owner?, List.length_map, List.length_mapIdx,
        List.getElem?_map, List.getElem?_mapIdx, Option.map_map]
      rfl

/-- Writing does not change which keys are refused. -/
theorem refuses_write (s : Store) (batch : List Command) :
    (s.write batch).1.refuses = s.refuses := by
  funext key
  obtain ⟨change, hchange, howner⟩ := owner?_write s batch key
  rw [refuses, refuses, howner]
  cases s.owner? key with
  | none => rfl
  | some n => exact congrArg Faults.failWrites (hchange n).1

/-- A batch changes each cell by the commands of its key, unless writes to the key are refused. -/
theorem cells_write (h : s.Answers) (batch : List Command) :
    (s.write batch).1.cells =
      fun key => if s.refuses key then s.cells key else s.cells.applyAll batch key := by
  funext key
  cases s with
  | single node =>
      have hstall := h.replies node (by simp [nodes])
      change (node.write batch).1.cells key =
        if node.faults.failWrites then node.cells key else node.cells.applyAll batch key
      rw [Node.cells_write hstall]
      split <;> rfl
  | sharded shards =>
      obtain ⟨node, hmem, howner⟩ := owner?_eq_some h.nodes_ne_nil key
      have hwritten : ((sharded shards).write batch).1.owner? key =
          some (writePart shards.length batch (shardIndex shards.length key) node).1 := by
        have hget : shards[shardIndex shards.length key]? = some node := howner
        simp [write, writeShards, owner?, hget]
      have hcells : (sharded shards).cells key = node.cells key := by rw [cells, howner]
      rw [cells, hwritten, refuses, howner]
      simp only
      rw [cells_writePart (h.replies node hmem), hcells, Cells.applyAll_eq_foldl _ _ key,
        Cells.applyAll_eq_foldl _ _ key, hcells]

/-- Every node after a batch was one before, with the same faults. -/
theorem exists_of_mem_nodes_write {batch : List Command} {n : Node}
    (h : n ∈ (s.write batch).1.nodes) : ∃ n₀ ∈ s.nodes, n.faults = n₀.faults := by
  cases s with
  | single node =>
      obtain rfl := List.mem_singleton.1 h
      exact ⟨node, List.mem_singleton.2 rfl, (node.faults_write batch).1⟩
  | sharded shards =>
      obtain ⟨i, hi, rfl⟩ := List.getElem_of_mem h
      simp only [nodes, write, writeShards, List.length_map, List.length_mapIdx, List.getElem_map,
        List.getElem_mapIdx] at hi ⊢
      exact ⟨_, List.getElem_mem hi, (faults_writePart _ _ _ batch).1⟩

theorem nodes_write_ne_nil (h : s.nodes ≠ []) (batch : List Command) :
    (s.write batch).1.nodes ≠ [] := by
  cases s with
  | single node => simp [nodes, write]
  | sharded shards => simpa [nodes, write, writeShards] using h

theorem Answers.write (h : s.Answers) (batch : List Command) : (s.write batch).1.Answers where
  nodes_ne_nil := nodes_write_ne_nil h.nodes_ne_nil batch
  reads n hn := by
    obtain ⟨n₀, hmem, heq⟩ := exists_of_mem_nodes_write hn
    rw [heq]
    exact h.reads n₀ hmem
  replies n hn := by
    obtain ⟨n₀, hmem, heq⟩ := exists_of_mem_nodes_write hn
    rw [heq]
    exact h.replies n₀ hmem

theorem Healthy.write (h : s.Healthy) (batch : List Command) : (s.write batch).1.Healthy where
  toAnswers := h.toAnswers.write batch
  writes n hn := by
    obtain ⟨n₀, hmem, heq⟩ := exists_of_mem_nodes_write hn
    rw [heq]
    exact h.writes n₀ hmem

/-- A store that says something to every write says that all is done only if it is. -/
theorem exists_reply (h : s.Answers) (batch : List Command) :
    ∃ reply, (s.write batch).2 = some reply ∧
      (reply = .ok () → ∀ c ∈ batch, s.refuses c.key = false) := by
  cases s with
  | single node =>
      refine ⟨_, Node.reply_write (h.replies node (by simp [nodes])) batch, ?_⟩
      intro hok c _
      change node.faults.failWrites = false
      cases hf : node.faults.failWrites with
      | false => rfl
      | true => simp [hf] at hok
  | sharded shards =>
      have hstall : ∀ n ∈ shards, n.faults.stallWrites = false := h.replies
      obtain ⟨reply, hreply, hok⟩ :=
        combine_map_some (shards.mapIdx (replyOfShard shards.length batch))
      rw [← replies_writeShards hstall] at hreply
      refine ⟨reply, hreply, fun hr c hc => ?_⟩
      have hlt : shardIndex shards.length c.key < shards.length :=
        shardIndex_lt (List.length_pos_iff.2 h.nodes_ne_nil) c.key
      have howner : (sharded shards).owner? c.key = some _ := List.getElem?_eq_getElem hlt
      have hsaid := hok.1 hr _ (List.mem_mapIdx.2 ⟨_, hlt, rfl⟩)
      have hpart : (partOf shards.length batch (shardIndex shards.length c.key)).isEmpty = false := by
        rw [List.isEmpty_eq_false_iff, Ne, partOf_eq_nil_iff]
        exact fun hall => hall c hc rfl
      rw [refuses, howner]
      cases hf : shards[shardIndex shards.length c.key].faults.failWrites with
      | false => exact hf
      | true => simp [replyOfShard, hpart, hf] at hsaid

theorem Healthy.reply_eq (h : s.Healthy) (batch : List Command) :
    (s.write batch).2 = some (.ok ()) := by
  cases s with
  | single node =>
      have hmem : node ∈ (single node).nodes := by simp [nodes]
      change (node.write batch).2 = _
      rw [Node.reply_write (h.replies node hmem), h.writes node hmem]
      rfl
  | sharded shards =>
      have hstall : ∀ n ∈ shards, n.faults.stallWrites = false := h.replies
      have hfail : ∀ n ∈ shards, n.faults.failWrites = false := h.writes
      obtain ⟨reply, hreply, hok⟩ :=
        combine_map_some (shards.mapIdx (replyOfShard shards.length batch))
      rw [← replies_writeShards hstall, hok.2] at hreply
      · exact hreply
      · intro x hx
        obtain ⟨i, hi, rfl⟩ := List.mem_mapIdx.1 hx
        simp [replyOfShard, hfail _ (List.getElem_mem hi)]

/-- What a store says of a batch does not depend on what it carried out before. -/
theorem reply_write_write (h : s.Answers) (first batch : List Command) :
    ((s.write first).1.write batch).2 = (s.write batch).2 := by
  cases s with
  | single node =>
      have hnode := node.faults_write first
      have hstall := h.replies node (by simp [nodes])
      change ((node.write first).1.write batch).2 = (node.write batch).2
      rw [Node.reply_write hstall, Node.reply_write (by rw [hnode.1, hstall]), hnode.1, hnode.2]
  | sharded shards =>
      have hstall : ∀ n ∈ shards, n.faults.stallWrites = false := h.replies
      have hafter : ∀ n ∈ (writeShards shards first).1, n.faults.stallWrites = false :=
        (h.write first).replies
      have hlength : (writeShards shards first).1.length = shards.length := by simp [writeShards]
      change combine ((writeShards shards first).1.mapIdx _ |>.map _) =
        combine (shards.mapIdx _ |>.map _)
      rw [replies_writeShards hafter, replies_writeShards hstall, hlength]
      congr 2
      refine List.ext_getElem (by simp [hlength]) fun i hi hi' => ?_
      have hi'' : i < shards.length := by simpa using hi'
      obtain ⟨hfaults, hname⟩ := faults_writePart shards.length i shards[i] first
      simp only [List.getElem_mapIdx, writeShards, List.getElem_map, replyOfShard, hfaults, hname]

/-! ## Following plans -/

/-- The cells of a store that answer every request as it does. -/
def respond (s : Store) : Plan.Responder StoreRequest StoreRequest.Reply Cells :=
  Cells.respondPartly s.refuses fun batch => ((s.write batch).2).getD (.ok ())

/-- The store `t` is `s` after some requests, with the cells `m`. -/
structure Shows (s : Store) (t : Store) (m : Cells) : Prop where
  answers : t.Answers
  cells_eq : t.cells = m
  refuses_eq : t.refuses = s.refuses
  reply_eq : ∀ batch, (t.write batch).2 = (s.write batch).2
  healthy : s.Healthy → t.Healthy

theorem shows_self (h : s.Answers) : s.Shows s s.cells := ⟨h, rfl, rfl, fun _ => rfl, id⟩

theorem Shows.answer {t : Store} {m : Cells} (h : s.Shows t m) (r : StoreRequest) :
    ∃ t', t.answer r = (t', some (s.respond r m).2) ∧ s.Shows t' (s.respond r m).1 := by
  cases r with
  | read q =>
      refine ⟨t, ?_, h⟩
      simp only [Store.answer, Store.respond]
      rw [read_of_answers h.answers, h.cells_eq]
      rfl
  | write batch =>
      obtain ⟨reply, hreply, -⟩ := exists_reply h.answers batch
      refine ⟨(t.write batch).1, ?_, ?_⟩
      · refine Prod.ext rfl ?_
        change (t.write batch).2 = some (((s.write batch).2).getD (.ok ()))
        rw [← h.reply_eq, hreply, Option.getD_some]
      · exact {
          answers := h.answers.write batch
          cells_eq := by
            rw [cells_write h.answers, h.refuses_eq, h.cells_eq]
            rfl
          refuses_eq := by rw [refuses_write, h.refuses_eq]
          reply_eq := fun next => by rw [reply_write_write h.answers, h.reply_eq]
          healthy := fun hs => (h.healthy hs).write batch }

variable {α : Type}

/-- A plan followed against a store that says something to every request ends as it does on the
cells of the store. -/
theorem endsIn_of_answers (h : s.Answers) (p : StorePlan α) :
    ∃ s', p.EndsIn Store.answer s s' (p.run s.respond s.cells).2 ∧
      s.Shows s' (p.run s.respond s.cells).1 :=
  Plan.endsIn_run (fun t m => s.Shows t m) (fun r _ _ ht => ht.answer r) p (shows_self h)

theorem respond_of_healthy (h : s.Healthy) : s.respond = Cells.respond := by
  funext r m
  cases r with
  | read q => rfl
  | write batch =>
      refine Prod.ext ?_ ?_
      · funext key
        simp [respond, Cells.respond, Cells.respondPartly, h.refuses_eq_false]
      · simp [respond, Cells.respond, Cells.respondPartly, h.reply_eq]

/-- A healthy store answers every request as its cells do. -/
theorem Healthy.exists_answer (h : s.Healthy) (r : StoreRequest) :
    ∃ s', s.answer r = (s', some (Cells.respond r s.cells).2) ∧ s'.Healthy ∧
      s'.cells = (Cells.respond r s.cells).1 := by
  obtain ⟨s', hanswer, hshows⟩ := (shows_self h.toAnswers).answer r
  rw [respond_of_healthy h] at hanswer hshows
  exact ⟨s', hanswer, hshows.healthy h, hshows.cells_eq⟩

theorem Healthy.answer {s' : Store} {r : StoreRequest} {reply : Except Error r.Reply} (h : s.Healthy)
    (hanswer : s.answer r = (s', some reply)) :
    s'.Healthy ∧ Cells.respond r s.cells = (s'.cells, reply) := by
  obtain ⟨s'', hanswer', hhealthy, hcells⟩ := h.exists_answer r
  obtain ⟨rfl, hreply⟩ := Prod.mk.inj (hanswer'.symm.trans hanswer)
  exact ⟨hhealthy, Prod.ext hcells.symm (Option.some.inj hreply)⟩

/-- Followed against a healthy store, a plan ends as it does on the cells of the store. -/
theorem endsIn_of_healthy (h : s.Healthy) (p : StorePlan α) :
    ∃ s', p.EndsIn Store.answer s s' (p.run Cells.respond s.cells).2 ∧
      s'.Healthy ∧ s'.cells = (p.run Cells.respond s.cells).1 := by
  obtain ⟨s', hends, hshows⟩ := endsIn_of_answers h.toAnswers p
  rw [respond_of_healthy h] at hends hshows
  exact ⟨s', hends, hshows.healthy h, hshows.cells_eq⟩

/-- A node of its own is healthy before the first request. -/
theorem healthy_fresh (name : String) : (single { name }).Healthy where
  nodes_ne_nil := by simp [nodes]
  reads n hn := by rw [List.mem_singleton.1 hn]
  replies n hn := by rw [List.mem_singleton.1 hn]
  writes n hn := by rw [List.mem_singleton.1 hn]

theorem cells_fresh (name : String) : (single { name }).cells = fun _ => {} := by
  funext key
  simp [cells, owner?, Node.cells]

/-! ## Refusing writes -/

/-- The store in which exactly the nodes at some positions refuse writes. -/
def refusing (refused : Nat → Bool) (s : Store) : Store :=
  s.mapNodes fun i n => { n with faults := { n.faults with failWrites := refused i } }

theorem nodes_refusing (refused : Nat → Bool) (s : Store) :
    (s.refusing refused).nodes =
      s.nodes.mapIdx fun i n => { n with faults := { n.faults with failWrites := refused i } } := by
  cases s <;> rfl

/-- Whether a store refuses writes does not change what it holds. -/
theorem cells_refusing (refused : Nat → Bool) (s : Store) : (s.refusing refused).cells = s.cells := by
  funext key
  cases s with
  | single node => rfl
  | sharded shards =>
      simp only [cells, owner?, refusing, mapNodes, List.length_mapIdx, List.getElem?_mapIdx]
      cases shards[shardIndex shards.length key]? <;> rfl

theorem Answers.refusing (h : s.Answers) (refused : Nat → Bool) : (s.refusing refused).Answers where
  nodes_ne_nil := by
    rw [nodes_refusing]
    simpa using h.nodes_ne_nil
  reads n hn := by
    rw [nodes_refusing] at hn
    obtain ⟨i, hi, rfl⟩ := List.mem_mapIdx.1 hn
    exact h.reads s.nodes[i] (List.getElem_mem hi)
  replies n hn := by
    rw [nodes_refusing] at hn
    obtain ⟨i, hi, rfl⟩ := List.mem_mapIdx.1 hn
    exact h.replies s.nodes[i] (List.getElem_mem hi)

/-- A store that answers is healthy once no node refuses writes. -/
theorem Answers.healed (h : s.Answers) : (s.refusing fun _ => false).Healthy where
  toAnswers := h.refusing _
  writes n hn := by
    rw [nodes_refusing] at hn
    obtain ⟨i, hi, rfl⟩ := List.mem_mapIdx.1 hn
    rfl

end Store

end Inventory
