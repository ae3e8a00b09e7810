import Inventory.Proofs.Store.Routing

/-!
# Inventory.Proofs.Store.Sharding

Several nodes as one store, whatever the order in which they turn to their parts of a request.

The shards that a request concerns are asked at the same time, so their parts of it are carried out in
any order (`Store.answerIn`). If no node misbehaves, the order makes no difference
(`answerIn_of_healthy`); and as every key stays with its owner (`Store.Placed`), what the nodes hold
together, and what they answer, is what one node would (`sharded_is_one`).
-/

namespace Inventory

namespace Store

/-! ## Parts in any order -/

/-- Reads several keys, the shards answering in the given order, and puts the values in the order of
the keys. -/
def scatterIn {α : Type} (order : List Nat) (read : Node → List String → Except Error (List α))
    (missing : α) (shards : List Node) (keys : List String) : Except Error (List α) := do
  let found ← gather read shards.length keys (order.filterMap fun i => shards[i]?.map (·, i))
  return (List.range keys.length).map fun position => (found.lookup position).getD missing

/-- Answers a question to a sharded store, the shards answering in the given order. -/
def readShardsIn (order : List Nat) (shards : List Node) : (q : Query) → Except Error q.Reply
  | .blobs keys => scatterIn order (fun node keys => node.read (.blobs keys)) none shards keys
  | .sets keys => scatterIn order (fun node keys => node.read (.sets keys)) ∅ shards keys
  | .hashFields key fields => askOwner shards key (.hashFields key fields)
  | .scan key glob => askOwner shards key (.scan key glob)
  | .contains key texts => askOwner shards key (.contains key texts)

/-- Has shards carry out their parts of a batch one after the other, with what they say of it. -/
def writeParts (batch : List Command) :
    List Nat → List Node → List Node × List (Option (Except Error Unit))
  | [], shards => (shards, [])
  | i :: order, shards =>
    match shards[i]? with
    | none => writeParts batch order shards
    | some node =>
      let written := writePart shards.length batch i node
      let rest := writeParts batch order (shards.set i written.1)
      (rest.1, written.2 :: rest.2)

/-- Answers a request, the shards turning to their parts of it in the given order. -/
def answerIn (order : List Nat) (r : StoreRequest) : Store → Store × Option (Except Error r.Reply)
  | single node => (single node).answer r
  | sharded shards =>
    match r with
    | .read q => (sharded shards, some (readShardsIn order shards q))
    | .write batch =>
      (sharded (writeParts batch order shards).1, combine (writeParts batch order shards).2)

/-! ## The order makes no difference -/

/-- The order names each node of a store once. -/
def Orders (order : List Nat) (s : Store) : Prop := order.Perm (List.range s.nodes.length)

section Orders

variable {order : List Nat} {shards : List Node}

theorem mem_filterMap_of_orders (h : (sharded shards).Orders order) (p : Node × Nat) :
    p ∈ order.filterMap (fun i => shards[i]?.map (·, i)) ↔ p ∈ shards.zipIdx := by
  obtain ⟨node, i⟩ := p
  have hmem : ∀ j, j ∈ order ↔ j < shards.length := fun j => h.mem_iff.trans List.mem_range
  rw [List.mem_zipIdx_iff_getElem?, List.mem_filterMap]
  constructor
  · rintro ⟨j, -, hj⟩
    obtain ⟨n, hn, hpair⟩ := Option.map_eq_some_iff.1 hj
    obtain ⟨rfl, rfl⟩ := Prod.mk.inj hpair
    exact hn
  · intro hi
    exact ⟨i, (hmem i).2 (List.getElem?_eq_some_iff.1 hi).1, by rw [hi]; rfl⟩

/-- A question is answered from the cells of the store in whatever order the shards answer. -/
theorem readShardsIn_eq (h : (sharded shards).Answers) (horder : (sharded shards).Orders order)
    (q : Query) : readShardsIn order shards q = (sharded shards).read q := by
  have hne : shards ≠ [] := h.nodes_ne_nil
  have hl := mem_filterMap_of_orders horder
  have hread : ∀ n ∈ shards, ∀ q, n.read q = n.cells.lookup q := fun n hn =>
    Node.read_eq (h.reads n hn)
  cases q with
  | blobs keys =>
      rw [read_of_answers h]
      exact gather_bind_eq hne none keys hl (fun n hn own => hread n hn (.blobs own))
        fun key n hn => by rw [cells_of_owner hn]
  | sets keys =>
      rw [read_of_answers h]
      exact gather_bind_eq hne ∅ keys hl (fun n hn own => hread n hn (.sets own))
        fun key n hn => by rw [cells_of_owner hn]
  | hashFields key fields => rfl
  | scan key glob => rfl
  | contains key texts => rfl

/-- Each shard that has its turn carries out its own part of a batch, and no other. -/
theorem getElem?_writeParts (batch : List Command) {order : List Nat} (hnodup : order.Nodup)
    (shards : List Node) (j : Nat) :
    (writeParts batch order shards).1[j]? =
      if j ∈ order then shards[j]?.map fun n => (writePart shards.length batch j n).1
      else shards[j]? := by
  induction order generalizing shards with
  | nil => simp [writeParts]
  | cons i order ih =>
      obtain ⟨hi, hnodup⟩ := List.nodup_cons.1 hnodup
      rw [writeParts]
      split
      · next hnone =>
        rw [ih hnodup]
        by_cases hj : j = i
        · simp [hj, hi, hnone]
        · simp [hj]
      · next node hnode =>
        rw [ih hnodup, List.length_set]
        by_cases hj : j = i
        · have hlt := (List.getElem?_eq_some_iff.1 hnode).1
          simp [hj, hi, hnode, List.getElem?_set_self hlt]
        · simp [hj, List.getElem?_set_ne (Ne.symm hj)]

/-- The nodes after a batch do not depend on the order of the shards. -/
theorem writeParts_fst (horder : (sharded shards).Orders order) (batch : List Command) :
    (writeParts batch order shards).1 = (writeShards shards batch).1 := by
  have hnodup : order.Nodup := (horder.nodup_iff).2 List.nodup_range
  have hmem : ∀ j, j ∈ order ↔ j < shards.length := fun j => horder.mem_iff.trans List.mem_range
  refine List.ext_getElem? fun j => ?_
  rw [getElem?_writeParts batch hnodup, writeShards, List.getElem?_map, List.getElem?_mapIdx]
  by_cases hj : j ∈ order
  · rw [if_pos hj]
    cases shards[j]? <;> rfl
  · rw [if_neg hj, List.getElem?_eq_none (Nat.le_of_not_lt fun hlt => hj ((hmem j).2 hlt))]
    rfl

/-- Shards that refuse nothing say that all is done. -/
theorem combine_writeParts (h : (sharded shards).Healthy) (batch : List Command) (order : List Nat) :
    combine (writeParts batch order shards).2 = some (.ok ()) := by
  induction order generalizing shards with
  | nil => rfl
  | cons i order ih =>
      rw [writeParts]
      split
      · exact ih h
      · next node hnode =>
        have hmem := List.mem_of_getElem? hnode
        have hfaults := faults_writePart shards.length i node batch
        have hreply := reply_writePart (h.replies node hmem) shards.length i batch
        rw [replyOfShard, h.writes node hmem] at hreply
        have hrest : (sharded (shards.set i (writePart shards.length batch i node).1)).Healthy := by
          have hof : ∀ n ∈ shards.set i (writePart shards.length batch i node).1,
              n ∈ shards ∨ n.faults = node.faults := fun n hn =>
            (List.mem_or_eq_of_mem_set hn).imp id fun h => by rw [h, hfaults.1]
          refine ⟨⟨?_, fun n hn => ?_, fun n hn => ?_⟩, fun n hn => ?_⟩
          · simpa [nodes] using h.nodes_ne_nil
          · exact (hof n hn).elim (h.reads n) fun heq => by rw [heq, h.reads node hmem]
          · exact (hof n hn).elim (h.replies n) fun heq => by rw [heq, h.replies node hmem]
          · exact (hof n hn).elim (h.writes n) fun heq => by rw [heq, h.writes node hmem]
        rw [if_neg Bool.false_ne_true, ite_self] at hreply
        simp only [hreply]
        exact ih hrest

/-- A store whose nodes do not misbehave answers alike in whatever order its shards turn to a
request. -/
theorem answerIn_of_healthy {s : Store} (h : s.Healthy) (horder : s.Orders order)
    (r : StoreRequest) : s.answerIn order r = s.answer r := by
  cases s with
  | single node => rfl
  | sharded shards =>
      cases r with
      | read q => rw [answerIn, readShardsIn_eq h.toAnswers horder, answer]
      | write batch =>
          refine Prod.ext ?_ ?_
          · exact congrArg sharded (writeParts_fst horder batch)
          · exact (combine_writeParts h batch order).trans (h.reply_eq batch).symm

end Orders

/-! ## Every key stays with its owner -/

/-- No shard holds anything under a key that it does not own. -/
def Placed : Store → Prop
  | single _ => True
  | sharded shards => ∀ i node, shards[i]? = some node → ∀ key, shardIndex shards.length key ≠ i →
      node.cells key = {}

theorem Placed.write {s : Store} (hs : s.Healthy) (h : s.Placed) (batch : List Command) :
    (s.write batch).1.Placed := by
  cases s with
  | single node => trivial
  | sharded shards =>
      intro i node hnode key hkey
      simp only [writeShards, List.length_map, List.length_mapIdx, List.getElem?_map,
        List.getElem?_mapIdx, Option.map_map] at hnode hkey
      obtain ⟨n, hn, rfl⟩ := Option.map_eq_some_iff.1 hnode
      have hother : ∀ c ∈ partOf shards.length batch i, c.key ≠ key := by
        rintro c hc rfl
        exact hkey (by simpa [partOf] using (List.mem_filter.1 hc).2)
      have hmem : n ∈ (sharded shards).nodes := List.mem_of_getElem? hn
      rw [← h i n hn key hkey]
      simp only [Function.comp_apply, writePart]
      split
      · rfl
      · rw [Node.cells_write (hs.replies n hmem), hs.writes n hmem, if_neg Bool.false_ne_true,
          Cells.applyAll_of_forall_ne hother]

/-- What is found in some node of a store is found where it belongs. -/
theorem cells_of_mem {s : Store} (h : s.Placed) {node : Node} (hmem : node ∈ s.nodes) {key : String}
    (hheld : node.cells key ≠ {}) : s.cells key = node.cells key := by
  cases s with
  | single n => rw [List.mem_singleton.1 hmem]; rfl
  | sharded shards =>
      obtain ⟨i, hi⟩ := List.mem_iff_getElem?.1 hmem
      by_cases howner : shardIndex shards.length key = i
      · rw [← howner] at hi
        exact cells_of_owner hi
      · exact absurd (h i node hi key howner) hheld

/-- The nodes of a store hold together what its cells show. -/
theorem exists_node_iff {s : Store} (hs : s.nodes ≠ []) (h : s.Placed) (holds : Cell → Prop)
    (hempty : ¬ holds {}) (key : String) :
    (∃ node ∈ s.nodes, holds (node.cells key)) ↔ holds (s.cells key) := by
  constructor
  · rintro ⟨node, hmem, hholds⟩
    have hheld : node.cells key ≠ {} := fun heq => hempty (heq ▸ hholds)
    rwa [cells_of_mem h hmem hheld]
  · obtain ⟨node, hmem, howner⟩ := owner?_eq_some hs key
    intro hholds
    rw [cells, howner] at hholds
    exact ⟨node, hmem, hholds⟩

/-! ## One request after the other -/

/-- What is asked of a store, with the order in which its shards turn to it. -/
structure Turn where
  request : StoreRequest
  order : List Nat

/-- An answer to some request. -/
abbrev Answer := (r : StoreRequest) × Option (Except Error r.Reply)

/-- The store and the answers after requests one after the other. -/
def serve : List Turn → Store → Store × List Answer
  | [], s => (s, [])
  | t :: turns, s =>
    let answered := s.answerIn t.order t.request
    let rest := serve turns answered.1
    (rest.1, ⟨t.request, answered.2⟩ :: rest.2)

/-- Two stores that hold the same where it belongs, and misbehave nowhere. -/
structure Same (s t : Store) : Prop where
  left : s.Healthy
  right : t.Healthy
  left_placed : s.Placed
  right_placed : t.Placed
  cells_eq : s.cells = t.cells

/-- The nodes of alike stores hold together the same. -/
theorem Same.exists_node_iff {s t : Store} (h : Same s t) (holds : Cell → Prop)
    (hempty : ¬ holds {}) (key : String) :
    (∃ node ∈ s.nodes, holds (node.cells key)) ↔ ∃ node ∈ t.nodes, holds (node.cells key) := by
  rw [Store.exists_node_iff h.left.nodes_ne_nil h.left_placed holds hempty,
    Store.exists_node_iff h.right.nodes_ne_nil h.right_placed holds hempty, h.cells_eq]

/-- Requests keep stores alike, which answer them alike. -/
theorem Same.answer {s t : Store} (h : Same s t) (r : StoreRequest) :
    Same (s.answer r).1 (t.answer r).1 ∧ (s.answer r).2 = (t.answer r).2 := by
  cases r with
  | read q =>
      refine ⟨h, ?_⟩
      change some (s.read q) = some (t.read q)
      rw [read_of_answers h.left.toAnswers, read_of_answers h.right.toAnswers, h.cells_eq]
  | write batch =>
      have hcells : ∀ {s : Store}, s.Healthy → (s.write batch).1.cells = s.cells.applyAll batch :=
        fun hs => by simp [cells_write hs.toAnswers, hs.refuses_eq_false]
      refine ⟨⟨h.left.write batch, h.right.write batch, h.left_placed.write h.left batch,
        h.right_placed.write h.right batch, ?_⟩, ?_⟩
      · change (s.write batch).1.cells = (t.write batch).1.cells
        rw [hcells h.left, hcells h.right, h.cells_eq]
      · exact (h.left.reply_eq batch).trans (h.right.reply_eq batch).symm

theorem length_nodes_write (s : Store) (batch : List Command) :
    (s.write batch).1.nodes.length = s.nodes.length := by
  cases s with
  | single node => rfl
  | sharded shards => simp [nodes, write, writeShards]

theorem length_nodes_answer (s : Store) (r : StoreRequest) :
    (s.answer r).1.nodes.length = s.nodes.length := by
  cases r with
  | read q => rfl
  | write batch => exact length_nodes_write s batch

/-- Stores that are alike stay so and give the same answers, in whatever order the shards of the first
turn to each request. -/
theorem Same.serve {s : Store} {node : Node} {turns : List Turn}
    (h : Same s (single node)) (horder : ∀ t ∈ turns, s.Orders t.order) :
    Same (serve turns s).1 (serve turns (single node)).1 ∧
      (serve turns s).2 = (serve turns (single node)).2 := by
  induction turns generalizing s node with
  | nil => exact ⟨h, rfl⟩
  | cons t turns ih =>
      obtain ⟨hsame, hreply⟩ := h.answer t.request
      obtain ⟨node', hnode'⟩ : ∃ node', ((single node).answer t.request).1 = single node' := by
        cases t.request <;> exact ⟨_, rfl⟩
      have horder' : ∀ u ∈ turns, (s.answer t.request).1.Orders u.order := fun u hu => by
        rw [Orders, length_nodes_answer]
        exact horder u (List.mem_cons_of_mem _ hu)
      rw [hnode'] at hsame
      obtain ⟨hstate, hrest⟩ := ih hsame horder'
      have heq := answerIn_of_healthy h.left (horder t List.mem_cons_self) t.request
      have hone : (single node).answerIn t.order t.request = (single node).answer t.request := rfl
      simp only [Store.serve, heq, hone, hnode']
      exact ⟨hstate, by rw [hrest, hreply]⟩

/-- Nodes of their own are alike to one node before the first request. -/
theorem same_fresh {names : List String} (hne : names ≠ []) (name : String) :
    Same (sharded (names.map fun name => { name })) (single { name }) where
  left := by
    refine ⟨⟨by simpa [nodes] using hne, ?_, ?_⟩, ?_⟩ <;>
    · intro n hn
      obtain ⟨name, -, rfl⟩ := List.mem_map.1 hn
      rfl
  right := healthy_fresh name
  left_placed i node hnode key _ := by
    rw [List.getElem?_map] at hnode
    obtain ⟨name, -, rfl⟩ := Option.map_eq_some_iff.1 hnode
    simp [Node.cells]
  right_placed := trivial
  cells_eq := by
    funext key
    rw [cells_fresh, cells]
    split
    · next node howner =>
      simp only [owner?, List.getElem?_map] at howner
      obtain ⟨name, -, rfl⟩ := Option.map_eq_some_iff.1 howner
      simp [Node.cells]
    · rfl

/-- A store before the first request: a node of its own, or nodes of their own that share the keys. -/
inductive IsFresh : Store → Prop
  | single (name : String) : IsFresh (single { name })
  | sharded {names : List String} (hne : names ≠ []) :
    IsFresh (sharded (names.map fun name => { name }))

theorem IsFresh.healthy {s : Store} (h : s.IsFresh) : s.Healthy := by
  cases h with
  | single name => exact healthy_fresh name
  | sharded hne => exact (same_fresh hne "").left

theorem IsFresh.cells_eq {s : Store} (h : s.IsFresh) : s.cells = fun _ => {} := by
  cases h with
  | single name => exact cells_fresh name
  | sharded hne => exact (same_fresh hne "").cells_eq.trans (cells_fresh "")

/-- A sharded store is one store: nodes of their own that share the keys give the same answers to all
requests as one node does, in whatever order they turn to each of them, and hold together the values and
the times to live that it holds. -/
theorem sharded_is_one {names : List String} (hne : names ≠ []) (name : String) {turns : List Turn}
    (horder : ∀ t ∈ turns, t.order.Perm (List.range names.length)) :
    let many := serve turns (sharded (names.map fun name => { name }))
    let one := serve turns (single { name })
    many.2 = one.2 ∧
      (∀ (key : String) (value : Value), (∃ node ∈ many.1.nodes, node.values[key]? = some value) ↔
        ∃ node ∈ one.1.nodes, node.values[key]? = some value) ∧
      ∀ (key : String) (seconds : UInt64), (∃ node ∈ many.1.nodes, node.ttls[key]? = some seconds) ↔
        ∃ node ∈ one.1.nodes, node.ttls[key]? = some seconds := by
  have horder' : ∀ t ∈ turns, (sharded (names.map fun name => ({ name } : Node))).Orders t.order :=
    fun t ht => by simpa [Orders, nodes] using horder t ht
  obtain ⟨hsame, hanswers⟩ := (same_fresh hne name).serve horder'
  exact ⟨hanswers,
    fun key value => hsame.exists_node_iff (fun c => c.value = some value) (by simp) key,
    fun key seconds => hsame.exists_node_iff (fun c => c.ttl = some seconds) (by simp) key⟩

/-- A key asked for twice in a store of two nodes, which turn to the batch in the reverse order. -/
theorem two_nodes_are_one :
    let turns : List Turn :=
      [⟨.write [.set "k" [1], .addMembers "s" ["x"], .expire "k" 60], [1, 0]⟩,
        ⟨.read (.blobs ["k", "s", "k"]), [0, 1]⟩]
    ["a", "b"] ≠ [] ∧ (∀ t ∈ turns, t.order.Perm (List.range ["a", "b"].length)) ∧
      (serve turns (sharded (["a", "b"].map fun name => { name }))).2 =
        [⟨.write [.set "k" [1], .addMembers "s" ["x"], .expire "k" 60], some (.ok ())⟩,
          ⟨.read (.blobs ["k", "s", "k"]), some (.ok [some [1], none, some [1]])⟩] := by
  refine ⟨by decide, by decide, ?_⟩
  exact (sharded_is_one (by decide) "one" (by decide)).1.trans (by rfl)

end Store

end Inventory
