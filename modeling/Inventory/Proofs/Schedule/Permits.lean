import Inventory.Proofs.Schedule.Chronicle

/-!
# Inventory.Proofs.Schedule.Permits

An execution holds one permit from when it loads until its merge is over.

What a move does with the permits is told once, on the ids of the executions in flight and whether they
wait (`Deals`): at most one of them takes a permit, and one that ends returns what it holds. So the permits
that are free and those that are held are always as many as there were in the beginning.
-/

namespace Inventory

/-! ## Lists whose elements are told apart -/

section Keys

variable {α κ : Type} [DecidableEq κ] {key : α → κ} {l : List α} {x : α}

theorem filter_key_ne_of_not_mem {k : κ} (h : k ∉ l.map key) : l.filter (key · != k) = l := by
  rw [List.filter_eq_self]
  exact fun y hy => bne_iff_ne.2 fun heq => h (heq ▸ List.mem_map_of_mem hy)

/-- An element whose key no other has stands for itself and the rest. -/
theorem perm_cons_filter_key (hl : (l.map key).Nodup) (hx : x ∈ l) :
    l.Perm (x :: l.filter (key · != key x)) := by
  induction l with
  | nil => contradiction
  | cons y l ih =>
      rw [List.map_cons, List.nodup_cons] at hl
      rcases List.mem_cons.1 hx with rfl | hx
      · rw [List.filter_cons_of_neg (by simp), filter_key_ne_of_not_mem hl.1]
      · have hne : key y ≠ key x := fun heq => hl.1 (heq ▸ List.mem_map_of_mem hx)
        rw [List.filter_cons_of_pos (p := fun z => key z != key x) (bne_iff_ne.2 hne)]
        exact ((ih hl.2 hx).cons y).trans (.swap x y _)

end Keys

namespace Scheduler

variable {B : Backend} {s s₁ s' : Scheduler B} {e : Execution B} {now : Nat}

/-! ## Who holds a permit -/

/-- The executions that load or merge. -/
def atWork (s : Scheduler B) : List (Execution B) := s.executions.filter fun e => !e.isWaiting

/-- The executions in flight by their ids, each with whether it waits for a permit. -/
def queue (s : Scheduler B) : List (Nat × Bool) := s.executions.map fun e => (e.id, e.isWaiting)

/-- The same executions, of which one does not wait any more. -/
def served (id : Nat) (queue : List (Nat × Bool)) : List (Nat × Bool) :=
  queue.map fun p => if p.1 = id then (id, false) else p

theorem length_atWork (s : Scheduler B) : s.atWork.length = s.queue.countP fun p => !p.2 := by
  rw [queue, List.countP_map, List.countP_eq_length_filter]
  rfl

theorem map_fst_queue (s : Scheduler B) : s.queue.map Prod.fst = s.tags.map Prod.fst := by
  simp [queue, tags, Execution.tag]

theorem mem_queue (he : e ∈ s.executions) : (e.id, e.isWaiting) ∈ s.queue :=
  List.mem_map_of_mem (f := fun e : Execution B => (e.id, e.isWaiting)) he

/-- What a turn can do with the permits. -/
inductive Deals (s s' : Scheduler B) : Prop
  | keeps (hpermits : s'.permits = s.permits) (hqueue : s'.queue = s.queue)
  /-- An execution begins to wait. -/
  | waits (hpermits : s'.permits = s.permits) (hqueue : s'.queue = s.queue ++ [(s.begun, true)])
  /-- A waiting execution takes a permit. -/
  | takes (id : Nat) (hid : (id, true) ∈ s.queue) (hfree : s.permits ≠ 0)
      (hpermits : s'.permits = s.permits - 1) (hqueue : s'.queue = served id s.queue)
  /-- An execution ends, and returns its permit if it had one. -/
  | ends (p : Nat × Bool) (hp : p ∈ s.queue)
      (hpermits : s'.permits = s.permits + if p.2 then 0 else 1)
      (hqueue : s'.queue = s.queue.filter (·.1 != p.1))
      (houtcome : ∃ result, (p.1, result) ∈ s'.outcomes)

/-! ## What an execution does with its permit -/

/-- Whether an execution at work has gone on or has ended, and returned its permit if it has. -/
def Returns (s : Scheduler B) (id : Nat) (s' : Scheduler B) : Prop :=
  s'.permits = s.permits ∧ s'.queue = s.queue ∨
    s'.permits = s.permits + 1 ∧ s'.queue = s.queue.filter (·.1 != id) ∧
      ∃ result, (id, result) ∈ s'.outcomes

theorem queue_finish (s : Scheduler B) (now : Nat) (e : Execution B) (result : Except Error MergeStats) :
    (s.finish now e result).queue = s.queue.filter (·.1 != e.id) := by
  simp only [queue, finish, observe, List.filter_map]
  rfl

/-- An execution ends, whatever comes of it. -/
theorem deals_finish (he : (e.id, e.isWaiting) ∈ s.queue) (now : Nat)
    (result : Except Error MergeStats) : Deals s (s.finish now e result) := by
  refine .ends (e.id, e.isWaiting) he ?_ (queue_finish s now e result) ⟨result, List.mem_cons_self⟩
  cases h : e.isWaiting <;> simp [finish, observe, h]

theorem returns_finish (hwaits : e.isWaiting = false) (now : Nat) (result : Except Error MergeStats) :
    Returns s e.id (s.finish now e result) := by
  refine .inr ⟨?_, queue_finish s now e result, result, List.mem_cons_self⟩
  simp [finish, observe, hwaits]

theorem queue_setPhase (s : Scheduler B) (id : Nat) {phase : Phase B}
    (hphase : ∀ e : Execution B, { e with phase := phase }.isWaiting = false) :
    (s.setPhase id phase).queue = served id s.queue := by
  simp only [queue, setPhase, served, List.map_map]
  refine List.map_congr_left fun e _ => ?_
  by_cases hid : e.id = id
  · simpa [hid] using hphase e
  · simp [hid]

section AtWork

/-! An execution is at work in a scheduler if nothing changes when it is served. -/

variable (hwork : served e.id s.queue = s.queue) (hwaits : e.isWaiting = false)

include hwork hwaits

theorem returns_proceed (now : Nat) (source : Source) (deadline : Nat) (work : B.Work MergeStats) :
    Returns s e.id (s.proceed now e source deadline work) := by
  unfold proceed
  rcases hfollow : s.follow work with ⟨s₁, result | rest⟩ <;> obtain rfl := congrArg Prod.fst hfollow
  · exact returns_finish hwaits now result
  · dsimp only
    split
    · exact returns_finish hwaits now _
    · exact .inl ⟨rfl, (queue_setPhase _ e.id fun _ => rfl).trans hwork⟩

theorem returns_load (now ready deadline : Nat) : Returns s e.id (s.load now e ready deadline) := by
  unfold load
  split
  · cases (s.agentOf e.agent).report with
    | error err => exact returns_finish hwaits now _
    | ok r =>
        dsimp only [loaded]
        split
        · exact returns_finish hwaits now _
        · exact returns_proceed hwork hwaits now _ _ _
  · split
    · exact returns_finish hwaits now _
    · exact .inl ⟨rfl, rfl⟩

end AtWork

theorem served_served (id : Nat) (queue : List (Nat × Bool)) :
    served id (served id queue) = served id queue := by
  simp only [served, List.map_map]
  refine List.map_congr_left fun p _ => ?_
  by_cases hid : p.1 = id <;> simp [hid]

theorem filter_served (id : Nat) (queue : List (Nat × Bool)) :
    (served id queue).filter (·.1 != id) = queue.filter (·.1 != id) := by
  induction queue with
  | nil => rfl
  | cons p queue ih =>
      rw [served] at ih ⊢
      rw [List.map_cons]
      by_cases hid : p.1 = id <;> simp [hid, ih]

theorem map_fst_served (id : Nat) (queue : List (Nat × Bool)) :
    (served id queue).map Prod.fst = queue.map Prod.fst := by
  simp only [served, List.map_map]
  refine List.map_congr_left fun p _ => ?_
  by_cases hid : p.1 = id <;> simp [hid]

/-- In a queue without repeated ids, who is served stands for itself and the rest. -/
theorem perm_served {queue : List (Nat × Bool)} (hnodup : (queue.map Prod.fst).Nodup) {p : Nat × Bool}
    (hp : p ∈ queue) : (served p.1 queue).Perm ((p.1, false) :: queue.filter (·.1 != p.1)) := by
  have hmem : (p.1, false) ∈ served p.1 queue := List.mem_map.2 ⟨p, hp, if_pos rfl⟩
  rw [← map_fst_served p.1 queue] at hnodup
  rw [← filter_served p.1 queue]
  exact perm_cons_filter_key hnodup hmem

/-- A waiting execution takes a permit, and may have returned it already if its agent is quick. -/
theorem deals_grant (he : (e.id, true) ∈ s.queue) (hfree : s.permits ≠ 0) (now : Nat) :
    Deals s (s.grant now e) := by
  have hqueue : (s.asked now e).queue = served e.id s.queue := queue_setPhase _ e.id fun _ => rfl
  have hpermits : (s.asked now e).permits = s.permits - 1 := rfl
  have hreturns : Returns (s.asked now e) e.id (s.grant now e) := by
    have hwork : served e.id (s.asked now e).queue = (s.asked now e).queue := by
      rw [hqueue, served_served]
    exact returns_load (e := { e with phase := .loading (s.readyAt now e) (s.deadlineAt now) }) hwork
      rfl now _ _
  rcases hreturns with ⟨hpermits', hqueue'⟩ | ⟨hpermits', hqueue', houtcome⟩
  · exact .takes e.id he hfree (hpermits'.trans hpermits) (hqueue'.trans hqueue)
  · refine .ends (e.id, true) he ?_ ?_ houtcome
    · rw [hpermits', hpermits]
      exact Nat.sub_add_cancel (Nat.pos_of_ne_zero hfree)
    · rw [hqueue', hqueue, filter_served]

theorem deals_wake (hnodup : (s.queue.map Prod.fst).Nodup) (he : (e.id, e.isWaiting) ∈ s.queue)
    (now : Nat) : Deals s (s.wake now e) := by
  have hreturns : e.isWaiting = false → ∀ s', Returns s e.id s' → Deals s s' := by
    intro hwaits s' h
    rcases h with ⟨hpermits, hqueue⟩ | ⟨hpermits, hqueue, houtcome⟩
    · exact .keeps hpermits hqueue
    · exact .ends (e.id, false) (hwaits ▸ he) hpermits hqueue houtcome
  have hwork : e.isWaiting = false → served e.id s.queue = s.queue := by
    intro hwaits
    refine (List.map_congr_left fun p hp => ?_).trans s.queue.map_id
    by_cases hid : p.1 = e.id
    · rw [if_pos hid, ← hwaits]
      exact List.inj_on_of_nodup_map hnodup he hp hid.symm
    · rw [if_neg hid, id_eq]
  unfold wake
  cases hphase : e.phase with
  | waiting => exact .keeps rfl rfl
  | loading ready deadline =>
      have hwaits : e.isWaiting = false := by simp [Execution.isWaiting, hphase]
      exact hreturns hwaits _ (returns_load (hwork hwaits) hwaits now ready deadline)
  | merging source since deadline rest =>
      have hwaits : e.isWaiting = false := by simp [Execution.isWaiting, hphase]
      dsimp only
      split
      · exact hreturns hwaits _ (returns_proceed (hwork hwaits) hwaits now _ _ _)
      · split
        · exact deals_finish he now _
        · exact .keeps rfl rfl

theorem deals_begin (hs : Numbered s) (slots : Schedule.Slots) (now k : Nat) (isDispatched : Bool) :
    Deals s ({ s with slots }.begin now k isDispatched) := by
  have hfresh : s.begun ∉ s.queue.map Prod.fst := by
    rw [map_fst_queue]
    intro hmem
    obtain ⟨tag, htag, hid⟩ := List.mem_map.1 hmem
    exact Nat.lt_irrefl _ (hid ▸ hs.begun tag htag)
  let begins : Scheduler B := { s with slots }
  have hqueue : (begins.adding (begins.nextExecution now k isDispatched)).queue =
      s.queue ++ [(s.begun, true)] := by
    simp [begins, queue, adding, nextExecution, Execution.isWaiting]
  rw [begin_eq]
  dsimp only
  split
  · refine .keeps rfl ?_
    rw [cancel, queue_finish, hqueue, List.filter_append, nextExecution, filter_key_ne_of_not_mem hfresh]
    simp
  · exact .waits rfl hqueue

/-! ## What a turn does with the permits -/

theorem Numbered.nodup_queue (h : Numbered s) : (s.queue.map Prod.fst).Nodup :=
  map_fst_queue s ▸ h.numbered

/-- Every move, at any time, deals with the permits in one of these ways. -/
theorem deals_after (hs : Numbered s) (move : Move B) : Deals s (s.after move) := by
  cases amounts_after s move with
  | aside h _ _ => exact .keeps h.permits (by rw [queue, h.executions, queue])
  | begins slots now k isDispatched _ _ _ h =>
      rw [h]
      exact deals_begin hs slots now k isDispatched
  | grants he now _ hwaits hfree h =>
      rw [h]
      exact deals_grant (hwaits ▸ mem_queue he) hfree now
  | wakes he now _ h =>
      rw [h]
      exact deals_wake hs.nodup_queue (mem_queue he) now
  | cancels he now _ h =>
      rw [h]
      exact deals_finish (mem_queue he) now _

/-- What begins although the scheduler is shut down waits for a permit. -/
theorem deals_entered (s : Scheduler B) (now : Nat) (agent : String) (k : Nat) (isDispatched : Bool) :
    Deals s (s.entered now agent k isDispatched) :=
  .waits rfl (by simp [queue, entered, adding, claimed, nextExecution, Execution.isWaiting])

theorem deals_of_makes (hs : Numbered s) {move : Move B} (hmakes : s.Makes move s') : Deals s s' := by
  cases hmakes with
  | after move => exact deals_after hs move
  | called hk hrunning => exact deals_entered s _ _ _ _
  | dispatched hk hdue => exact deals_entered s _ _ _ _

theorem Numbered.makes (hs : Numbered s) {move : Move B} (hmakes : s.Makes move s') : Numbered s' := by
  cases hmakes with
  | after move => exact hs.after move
  | called hk hrunning => exact Numbered.adding (s := s.claimed _ _) { hs with } rfl
  | dispatched hk hdue => exact Numbered.adding (s := s.claimed _ _) { hs with } rfl

/-! ## Permits are not lost -/

/-- Whether the permits that are free and those that are held come to a number. -/
def Balances (permits : Nat) (s : Scheduler B) : Prop := s.permits + s.atWork.length = permits

theorem Deals.balances (h : Deals s s') (hs : Numbered s) {permits : Nat} (hbalance : Balances permits s) :
    Balances permits s' := by
  rw [Balances, length_atWork] at hbalance ⊢
  have hsplit := fun p hp => (perm_cons_filter_key (x := p) hs.nodup_queue hp).countP_eq fun p => !p.2
  cases h with
  | keeps hpermits hqueue => rwa [hpermits, hqueue]
  | waits hpermits hqueue => simpa [hpermits, hqueue, List.countP_append] using hbalance
  | takes id hid hfree hpermits hqueue =>
      have hbefore := hsplit _ hid
      have hafter := (perm_served hs.nodup_queue hid).countP_eq fun p => !p.2
      simp only [List.countP_cons, Bool.not_true, Bool.not_false, if_true, Bool.false_eq_true,
        if_false] at hbefore hafter
      rw [hpermits, hqueue, hafter]
      omega
  | ends p hp hpermits hqueue houtcome =>
      have hbefore := hsplit p hp
      simp only [List.countP_cons] at hbefore
      rw [hpermits, hqueue]
      cases hwaits : p.2 <;> simp only [hwaits, Bool.not_true, Bool.not_false, if_true,
        Bool.false_eq_true, if_false] at hbefore ⊢ <;> omega

/-- What is known at the end of a history: executions are told apart, no permit is lost, and every turn
dealt with the permits in one of the ways there are. -/
structure Accounted (permits : Nat) (turns : List (Turn B)) (s : Scheduler B) : Prop where
  numbered : Numbered s
  balances : Balances permits s
  dealt : ∀ t ∈ turns, Numbered t.before ∧ Deals t.before t.after

theorem Accounted.snoc {permits : Nat} {turns : List (Turn B)} (h : Accounted permits turns s)
    {move : Move B} (hmakes : s.Makes move s') : Accounted permits (turns ++ [⟨s, move, s'⟩]) s' where
  numbered := h.numbered.makes hmakes
  balances := (deals_of_makes h.numbered hmakes).balances h.numbered h.balances
  dealt := List.forall_mem_append.2
    ⟨h.dealt, List.forall_mem_singleton.2 ⟨h.numbered, deals_of_makes h.numbered hmakes⟩⟩

theorem Passes.accounted {start : Scheduler B} {turns : List (Turn B)} (h : Passes start turns s)
    {permits : Nat} (hstart : Accounted permits [] start) : Accounted permits turns s := by
  induction h with
  | start => exact hstart
  | turn _ hmakes ih => exact ih.snoc hmakes

/-- An execution that is gone after a turn has come to something, and holds no permit any more. -/
theorem Deals.returned (h : Deals s s') (hs : Numbered s) (he : e ∈ s.executions)
    (hgone : ∀ e' ∈ s'.executions, e'.id ≠ e.id) :
    (∃ result, (e.id, result) ∈ s'.outcomes) ∧
      s'.permits = s.permits + if e.isWaiting then 0 else 1 := by
  have hgone' : e.id ∉ s'.queue.map Prod.fst := by
    simpa [queue] using hgone
  have hstays : e.id ∈ s.queue.map Prod.fst := List.mem_map_of_mem (mem_queue he)
  cases h with
  | keeps hpermits hqueue => exact absurd hstays (hqueue ▸ hgone')
  | waits hpermits hqueue =>
      rw [hqueue, List.map_append, List.mem_append] at hgone'
      exact absurd (.inl hstays) hgone'
  | takes id hid hfree hpermits hqueue =>
      rw [hqueue, map_fst_served] at hgone'
      exact absurd hstays hgone'
  | ends p hp hpermits hqueue houtcome =>
      have hid : e.id = p.1 := by
        refine Classical.byContradiction fun hne => hgone' ?_
        have hkept : (e.id, e.isWaiting) ∈ s'.queue :=
          hqueue ▸ List.mem_filter.2 ⟨mem_queue he, bne_iff_ne.2 hne⟩
        exact List.mem_map_of_mem hkept
      obtain rfl := List.inj_on_of_nodup_map hs.nodup_queue hp (mem_queue he) hid.symm
      exact ⟨houtcome, hpermits⟩

/-- In every history there are no more executions that load or merge than there are permits, no permit is
lost, and an execution that ends, whatever comes of it, has returned its own. -/
theorem permits_returned (options : Schedule.Options) (engine : Engine) (cache : B.State)
    {turns : List (Turn B)} (h : Passes { options, engine, cache } turns s) :
    s.atWork.length ≤ max 1 options.workers ∧
      s.permits + s.atWork.length = max 1 options.workers ∧
      ∀ t ∈ turns, ∀ e ∈ t.before.executions, (∀ e' ∈ t.after.executions, e'.id ≠ e.id) →
        (∃ result, (e.id, result) ∈ t.after.outcomes) ∧
          t.after.permits = t.before.permits + if e.isWaiting then 0 else 1 := by
  have hfresh : Accounted (max 1 options.workers) [] ({ options, engine, cache } : Scheduler B) :=
    ⟨.fresh options engine cache, rfl, List.forall_mem_nil _⟩
  have hend := h.accounted hfresh
  have hbalance : s.permits + s.atWork.length = max 1 options.workers := hend.balances
  refine ⟨by omega, hbalance, fun t ht e he hgone => ?_⟩
  obtain ⟨hnumbered, hdeals⟩ := hend.dealt t ht
  exact hdeals.returned hnumbered he hgone

/-! ## An example of an execution that returns its permit -/

/-- An agent is called, and loads nothing for a second. -/
def runOnce : List (Move (.memory "mem")) :=
  [.register slowAgent, .call 0 "agent", .grant 0 0, .wake 1000000000 0]

/-- The agent has held one of four permits while it was at work, and returned it. -/
theorem permits_returned_runOnce :
    Passes idle (turnsOf idle runOnce) (runOnce.foldl Scheduler.after idle) ∧
    ((runOnce.take 3).foldl Scheduler.after idle).permits = 3 ∧
    (runOnce.foldl Scheduler.after idle).atWork.length ≤ 4 ∧
    (runOnce.foldl Scheduler.after idle).permits = 4 := by
  have hpasses := passes_turnsOf (.start : Passes idle [] idle) runOnce
  obtain ⟨hbound, hbalance, -⟩ := permits_returned {} {} (B := .memory "mem") {} hpasses
  have hidle : (runOnce.foldl Scheduler.after idle).atWork.length = 0 := by decide +kernel
  refine ⟨hpasses, by decide +kernel, hbound, ?_⟩
  rw [hidle] at hbalance
  exact hbalance

end Scheduler

end Inventory
