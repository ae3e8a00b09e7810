import Inventory.Proofs.Schedule.History

/-!
# Inventory.Proofs.Schedule.Operations

The operations of a scheduler are histories.

Everything that is done with a scheduler and everything that happens to it while time passes is a
sequence of permitted moves (`Comes`): a call, a tick of the dispatcher, the waking of executions, the
work of a merge, a deregistration with its eviction. So all of it keeps agents at work at most once;
only to register an agent needs care. What the scheduler does by itself at a point in time are moves of that
time, and none of them cancels an execution that merges (`OwnAt`).

What is done on the cache takes its time piece by piece, so a property lasts through all of it if it lasts
while time passes and when something works on the cache (`Timeline.Lasts`).
-/

namespace Inventory

namespace Scheduler

variable {B : Backend} {s s₁ s' : Scheduler B}

/-! ## Moves that leave the registry alone -/

/-- Whether a move is one of those that a scheduler makes when it is called and while time passes. -/
def Move.isOwn : Move B → Bool
  | .call .. | .dispatch .. | .retain .. | .grant .. | .wake .. | .cancel .. | .stop => true
  | _ => false

/-- Whether a move changes neither the agents nor the slots of those that are registered. -/
def Move.isInner : Move B → Bool
  | .work .. => true
  | move => move.isOwn

theorem Move.isInner_of_isOwn {move : Move B} (h : move.isOwn = true) : move.isInner = true := by
  cases move with
  | work => rfl
  | _ => exact h

/-- A move that a scheduler makes by itself at a point in time. Of the executions, it cancels only those that
do not merge yet. -/
inductive OwnAt (now : Nat) (s : Scheduler B) : Move B → Prop
  | call (agent : String) : OwnAt now s (.call now agent)
  | dispatch (agent : String) : OwnAt now s (.dispatch now agent)
  | retain (nextTick : Option Nat) : OwnAt now s (.retain nextTick)
  | grant (id : Nat) : OwnAt now s (.grant now id)
  | wake (id : Nat) : OwnAt now s (.wake now id)
  | cancel (id : Nat) (h : ∀ e ∈ s.executions, e.id = id → e.isMerging = false) :
      OwnAt now s (.cancel now id)
  | stop : OwnAt now s .stop

theorem OwnAt.isOwn {now : Nat} {move : Move B} (h : OwnAt now s move) : move.isOwn = true := by
  cases h <;> rfl

/-- Whether a move is one of those that leave the registry alone, whatever the state. -/
def Inner (_ : Scheduler B) (move : Move B) : Prop := move.isInner = true

theorem Move.permits_of_isInner {move : Move B} (h : move.isInner = true) (s : Scheduler B) :
    s.Permits move := by
  cases move with
  | register => contradiction
  | dropSlot => contradiction
  | _ => trivial

theorem registry_onExecution {id : Nat} {step : Execution B → Scheduler B}
    (hstep : ∀ e, (step e).registry = s.registry) :
    (s.onExecution id step).registry = s.registry :=
  onExecution_induction (P := fun s' => s'.registry = s.registry) id rfl fun e _ => hstep e

theorem registry_begin (s : Scheduler B) (now k : Nat) (isDispatched : Bool) :
    (s.begin now k isDispatched).registry = s.registry := by
  rw [begin_eq]
  dsimp only
  split <;> rfl

theorem registry_after {move : Move B} (h : move.isInner = true) :
    (s.after move).registry = s.registry := by
  cases move with
  | register => contradiction
  | modifyAgent => contradiction
  | deregister => contradiction
  | deregisterAccount => contradiction
  | dropSlot => contradiction
  | call now agent =>
      dsimp only [after]
      split
      · rfl
      · split
        · rfl
        · exact registry_begin _ _ _ _
  | dispatch now agent =>
      dsimp only [after]
      split
      · rfl
      · dsimp only [dispatch]
        split
        · exact registry_begin _ _ _ _
        · rfl
  | retain nextTick => rfl
  | grant now id =>
      refine registry_onExecution fun e => ?_
      split
      · exact (advance_grant s now e).registry
      · rfl
  | wake now id => exact registry_onExecution fun e => (advance_wake s now e).registry
  | cancel now id => exact registry_onExecution fun _ => rfl
  | stop => rfl
  | work cache activity => rfl

/-! ## Histories from one state to another -/

/-- Permitted moves lead from one state to the other. -/
def Comes (s s' : Scheduler B) : Prop :=
  ∃ moves : List (Move B), s.Careful moves ∧ moves.foldl Scheduler.after s = s'

/-- Moves, each of a kind when it is made, lead from one state to the other. -/
inductive Runs (kind : Scheduler B → Move B → Prop) (s : Scheduler B) : Scheduler B → Prop
  | refl : Runs kind s s
  | after {s₁ : Scheduler B} (h : Runs kind s s₁) {move : Move B} (hkind : kind s₁ move) :
      Runs kind s (s₁.after move)

section Runs

variable {kind : Scheduler B → Move B → Prop} {now : Nat}

theorem runs_after {move : Move B} (h : kind s move) : Runs kind s (s.after move) := Runs.refl.after h

theorem Runs.trans (h₁ : Runs kind s s₁) (h : Runs kind s₁ s') : Runs kind s s' := by
  induction h with
  | refl => exact h₁
  | after _ hkind ih => exact ih.after hkind

theorem Runs.inner (h : Runs (OwnAt now) s s') : Runs Inner s s' := by
  induction h with
  | refl => exact .refl
  | after _ hown ih => exact ih.after (Move.isInner_of_isOwn hown.isOwn)

theorem runs_after_work (s : Scheduler B) (cache : B.State) (activity : List Activity) :
    Runs Inner s (s.after (.work cache activity)) := runs_after (show Inner s (.work cache activity) from rfl)

end Runs

theorem careful_append {moves moves' : List (Move B)} : s.Careful (moves ++ moves') ↔
    s.Careful moves ∧ (moves.foldl Scheduler.after s).Careful moves' := by
  induction moves generalizing s with
  | nil => simp [Careful]
  | cons move moves ih => simp [Careful, ih, and_assoc]

theorem Comes.trans (h₁ : Comes s s₁) (h : Comes s₁ s') : Comes s s' := by
  obtain ⟨moves₁, hcareful₁, rfl⟩ := h₁
  obtain ⟨moves, hcareful, rfl⟩ := h
  exact ⟨moves₁ ++ moves, careful_append.2 ⟨hcareful₁, hcareful⟩, List.foldl_append⟩

theorem comes_after (s : Scheduler B) (move : Move B) (h : s.Permits move) :
    Comes s (s.after move) :=
  ⟨[move], ⟨h, trivial⟩, rfl⟩

theorem Runs.comes (h : Runs Inner s s') : Comes s s' := by
  induction h with
  | refl => exact ⟨[], trivial, rfl⟩
  | @after s₁ _ move hinner ih => exact ih.trans (comes_after s₁ move (Move.permits_of_isInner hinner s₁))

theorem Exclusive.comes (h : Exclusive s) (hs' : Comes s s') : Exclusive s' := by
  obtain ⟨moves, hcareful, rfl⟩ := hs'
  exact h.foldl hcareful

theorem Numbered.comes (h : Numbered s) (hs' : Comes s s') : Numbered s' := by
  obtain ⟨moves, -, rfl⟩ := hs'
  induction moves generalizing s with
  | nil => exact h
  | cons move moves ih => exact ih (h.after move)

theorem Numbered.runs (h : Numbered s) (hs' : Runs Inner s s') : Numbered s' := h.comes hs'.comes

theorem Runs.registry (h : Runs Inner s s') : s'.registry = s.registry := by
  induction h with
  | refl => rfl
  | after _ hinner ih => exact (registry_after hinner).trans ih

/-! ## Executions that go on -/

theorem Numbered.nodup_ids (h : Numbered s) : (s.executions.map Execution.id).Nodup := by
  simpa [tags, Execution.tag, Function.comp_def] using h.numbered

theorem Numbered.eq_of_id (h : Numbered s) {e e' : Execution B} (he : e ∈ s.executions)
    (he' : e' ∈ s.executions) (hid : e'.id = e.id) : e' = e :=
  List.inj_on_of_nodup_map h.nodup_ids he' he hid

/-- An execution in flight is found by its id. -/
theorem Numbered.onExecution_eq (h : Numbered s) {e : Execution B} (he : e ∈ s.executions)
    (step : Execution B → Scheduler B) : s.onExecution e.id step = step e := by
  have hsome : (s.executions.find? (·.id == e.id)).isSome = true :=
    List.find?_isSome.2 ⟨e, he, by simp⟩
  obtain ⟨e', he'⟩ := Option.isSome_iff_exists.1 hsome
  have hid : e'.id = e.id := by simpa using List.find?_some he'
  have hsame := h.eq_of_id he (List.mem_of_find?_eq_some he') hid
  simp only [Scheduler.onExecution, he', hsame]

theorem Advance.others {now : Nat} {e : Execution B} (h : Advance now e s s') {other : Execution B}
    (hid : other.id ≠ e.id) (hother : other ∈ s.executions) : other ∈ s'.executions := by
  cases h with
  | inl h => exact (h.others other hid).2 hother
  | inr h =>
      obtain ⟨s₁, e', result, h, he', rfl⟩ := h
      have hsame : e'.id = e.id := congrArg Prod.fst (Execution.tag_congr he')
      have hkept : (other.id != e'.id) = true := bne_iff_ne.2 (hsame ▸ hid)
      exact List.mem_filter.2 ⟨(h.others other hid).2 hother, hkept⟩

/-- Executions in flight that make a move one after the other. -/
theorem runs_foldl {now : Nat} (move : Nat → Move B) {step : Execution B → Scheduler B → Scheduler B}
    (hmove : ∀ (s : Scheduler B) id, s.after (move id) = s.onExecution id fun e => step e s)
    (hstep : ∀ (s : Scheduler B) e, Advance now e s (step e s)) (l : List (Execution B))
    (hown : ∀ (s : Scheduler B), Numbered s → ∀ e ∈ l, e ∈ s.executions → OwnAt now s (move e.id))
    (hl : (l.map Execution.id).Nodup) (hs : Numbered s) (hmem : ∀ e ∈ l, e ∈ s.executions) :
    Runs (OwnAt now) s (l.foldl (fun s e => step e s) s) := by
  induction l generalizing s with
  | nil => exact .refl
  | cons e l ih =>
      have he := hmem e List.mem_cons_self
      have hfirst : Runs (OwnAt now) s (step e s) := by
        have hafter := runs_after (hown s hs e List.mem_cons_self he)
        rwa [hmove, hs.onExecution_eq he] at hafter
      rw [List.map_cons, List.nodup_cons] at hl
      have hown' := fun s hs e' he' => hown s hs e' (List.mem_cons_of_mem _ he')
      refine hfirst.trans (ih hown' hl.2 (hs.runs hfirst.inner) fun e' he' => ?_)
      have hne : e'.id ≠ e.id := fun h => hl.1 (h ▸ List.mem_map_of_mem he')
      exact (hstep s e).others hne (hmem e' (List.mem_cons_of_mem _ he'))

/-- Waiting executions get their permits one after the other. -/
theorem runs_grantAll (now limit : Nat) (hs : Numbered s) :
    Runs (OwnAt now) s (grantAll now limit s) := by
  induction limit generalizing s with
  | zero => exact .refl
  | succ limit ih =>
      dsimp only [grantAll]
      split
      · exact .refl
      · rename_i hpermits
        split
        · rename_i e he
          have hafter : Runs (OwnAt now) s (s.after (.grant now e.id)) := runs_after (.grant e.id)
          have hwaiting := List.find?_some he
          dsimp only [after] at hafter
          rw [hs.onExecution_eq (List.mem_of_find?_eq_some he), if_pos ⟨hwaiting, hpermits⟩] at hafter
          exact hafter.trans (ih (hs.runs hafter.inner))
        · exact .refl

theorem runs_settle (now : Nat) (hs : Numbered s) : Runs (OwnAt now) s (s.settle now) :=
  runs_grantAll now _ hs

/-! ## What is asked of a scheduler -/

theorem runs_call {now : Nat} {name : String} {called : Called} (hs : Numbered s)
    (h : s.call now name = .ok (called, s')) : Runs (OwnAt now) s s' := by
  have hafter : Runs (OwnAt now) s (s.after (.call now name)) := runs_after (.call name)
  cases hk : s.registry.caching[name]? with
  | none => simp [call, hk] at h
  | some k =>
      cases hrunning : s.slots.isRunning name with
      | true =>
          simp only [call, hk, hrunning, if_true, Except.ok.injEq, Prod.mk.injEq] at h
          simpa [after, hk, hrunning, h.2] using hafter
      | false =>
          have hclaimed : s' = (s.after (.call now name)).settle now := by
            simp only [call, hk, hrunning] at h
            cases h
            simp [after, hk, hrunning, claimed]
          rw [hclaimed]
          exact hafter.trans (runs_settle now (hs.runs hafter.inner))

/-- The dispatcher looks at the registered agents one after the other. -/
theorem runs_dispatches (now : Nat) (l : List (String × Nat))
    (hl : ∀ p ∈ l, s.registry.caching[p.1]? = some p.2) :
    Runs (OwnAt now) s (l.foldl (fun s (name, agent) => s.dispatch now name agent) s) := by
  induction l generalizing s with
  | nil => exact .refl
  | cons p l ih =>
      have hafter : Runs (OwnAt now) s (s.after (.dispatch now p.1)) := runs_after (.dispatch p.1)
      have hk := hl p List.mem_cons_self
      simp only [after, hk] at hafter
      refine hafter.trans (ih fun q hq => ?_)
      rw [hafter.inner.registry]
      exact hl q (List.mem_cons_of_mem _ hq)

theorem runs_tick (s : Scheduler B) (now : Nat) : Runs (OwnAt now) s (s.tick now) := by
  have hretain : Runs (OwnAt now) s
      (s.after (.retain (some (now + s.options.tick.nanoseconds)))) := runs_after (.retain _)
  have hkeys : s.registry.caching.toList.map Prod.fst = s.registry.caching.keys :=
    Std.ExtTreeMap.map_fst_toList_eq_keys
  dsimp only [tick]
  rw [hkeys]
  exact hretain.trans (runs_dispatches now _ fun p hp =>
    Std.ExtTreeMap.mem_toList_iff_getElem?_eq_some.1 hp)

theorem runs_start (hs : Numbered s) (now : Nat) : Runs (OwnAt now) s (s.start now) := by
  unfold start
  split
  · exact .refl
  · have htick := runs_tick s now
    exact htick.trans (runs_settle now (hs.runs htick.inner))

/-- All that happens at a point in time: executions go on, the dispatcher looks, and permits are
given. -/
theorem runs_wakeAll (hs : Numbered s) (now : Nat) : Runs (OwnAt now) s (s.wakeAll now) := by
  have hwake : Runs (OwnAt now) s (s.executions.foldl (fun s e => s.wake now e) s) :=
    runs_foldl (.wake now) (fun _ _ => rfl) (fun s e => advance_wake s now e) s.executions
      (fun s _ e _ _ => .wake e.id) hs.nodup_ids hs fun _ => id
  unfold wakeAll
  dsimp only
  split
  · split
    · have htick := hwake.trans (runs_tick _ now)
      exact htick.trans (runs_settle now (hs.runs htick.inner))
    · exact hwake.trans (runs_settle now (hs.runs hwake.inner))
  · exact hwake.trans (runs_settle now (hs.runs hwake.inner))

/-- A shutdown cancels the executions that do not merge, and no others. -/
theorem runs_shutDown (hs : Numbered s) (now : Nat) : Runs (OwnAt now) s (s.shutDown now) := by
  have hstop : Runs (OwnAt now) s (s.after .stop) := runs_after .stop
  refine hstop.trans (runs_foldl (.cancel now) (fun _ _ => rfl)
    (fun s e => advance_finish s now e _) _ (fun s₁ hs₁ e he hmem => ?_) ?_ (hs.runs hstop.inner)
    fun e he => ?_)
  · refine .cancel e.id fun e' he' hid => ?_
    rw [hs₁.eq_of_id hmem he' hid]
    simpa using (List.mem_filter.1 he).2
  · exact hs.nodup_ids.sublist (List.filter_sublist.map _)
  · exact (List.mem_filter.1 he).1

end Scheduler

/-! ## What happens while time passes -/

namespace Timeline

open Scheduler

variable {B : Backend} {t : Timeline B}

theorem runs_pass (stop : Scheduler B → Bool) (target : Nat) (ht : Numbered t.scheduler) :
    Runs Inner t.scheduler (t.pass stop target).scheduler := by
  fun_induction pass stop target t with
  | case1 t hstop => exact .refl
  | case2 t hstop next hnext hlt ih =>
      have hwake := (runs_wakeAll ht next).inner
      exact hwake.trans (ih (ht.runs hwake))
  | case3 t hstop next hnext hlt => exact .refl
  | case4 t hstop hnext => exact .refl

/-! ### Work on the cache -/

/-- Whether a property of a timeline lasts while time passes, and when something works on the cache. -/
structure Lasts (P : Timeline B → Prop) : Prop where
  pass : ∀ {t : Timeline B} (stop : Scheduler B → Bool) (target : Nat), P t → P (t.pass stop target)
  touch : ∀ {t : Timeline B} (cache : B.State) (activity : List Activity), P t →
    P { t with scheduler := { t.scheduler with cache, activity } }

section Lasts

variable {P : Timeline B → Prop} (hP : Lasts P)

include hP

/-- Work on the cache, with all that happens while its requests are not answered. -/
theorem Lasts.work {α : Type} (limit : Option Limit) (work : B.Work α) (ht : P t) :
    P (t.work limit work).2 := by
  induction work generalizing t with
  | done result => exact ht
  | note a next ih => exact ih (hP.touch t.scheduler.cache (a :: t.scheduler.activity) ht)
  | ask r next ih =>
      have hask := hP.touch (B.answer r t.scheduler.cache).1 t.scheduler.activity ht
      rw [Timeline.work]
      dsimp only
      split
      · exact ih _ hask
      · split
        · exact hP.pass _ _ hask
        · exact ih _ (hP.pass _ _ hask)

theorem Lasts.merge (source : Source) (authoritative : StringSet) (r : Report) (ht : P t) :
    P (t.merge source authoritative r).2 := hP.work _ _ ht

theorem Lasts.ask (a : OnDemandAgent) (request : Attributes) (ht : P t) : P (t.ask a request).2 := by
  dsimp only [Timeline.ask]
  split
  · exact hP.pass _ _ ht
  · exact hP.pass _ _ ht

theorem Lasts.refreshAll (request : Attributes) (agents : List OnDemandAgent) (stats : MergeStats)
    (ht : P t) : P (refreshAll request stats t agents).2 := by
  induction agents generalizing t stats with
  | nil => exact ht
  | cons a agents ih =>
      have hask := hP.ask a request ht
      rw [Timeline.refreshAll]
      rcases hresult : t.ask a request with ⟨found, t₁⟩
      rw [hresult] at hask
      cases found with
      | error e => exact hask
      | ok found =>
          cases found with
          | none => exact ih stats hask
          | some found =>
              have hmerge := hP.merge found.source found.authoritative found.report hask
              dsimp only
              split
              · rename_i e t₂ h
                rw [h] at hmerge
                exact hmerge
              · rename_i more t₂ h
                rw [h] at hmerge
                exact ih _ hmerge

end Lasts

/-- A history lasts. -/
theorem lasts_runs (start : Scheduler B) :
    Lasts fun t : Timeline B => Numbered t.scheduler ∧ Runs Inner start t.scheduler where
  pass stop target h :=
    have hpass := runs_pass stop target h.1
    ⟨h.1.runs hpass, h.2.trans hpass⟩
  touch {t} cache activity h :=
    have hwork := runs_after_work t.scheduler cache activity
    ⟨h.1.runs hwork, h.2.trans hwork⟩

theorem runs_work {α : Type} (limit : Option Limit) (work : B.Work α) (ht : Numbered t.scheduler) :
    Runs Inner t.scheduler (t.work limit work).2.scheduler :=
  ((lasts_runs t.scheduler).work limit work ⟨ht, .refl⟩).2

theorem runs_onDemand (type provider : String) (request : Attributes) (ht : Numbered t.scheduler) :
    Runs Inner t.scheduler (t.onDemand type provider request).2.scheduler :=
  ((lasts_runs t.scheduler).refreshAll request _ {} ⟨ht, .refl⟩).2

theorem runs_shutDown (ht : Numbered t.scheduler) : Runs Inner t.scheduler t.shutDown.scheduler := by
  have hstop := (Scheduler.runs_shutDown ht t.now).inner
  have hpass := runs_pass (t := t.modify fun now s => s.shutDown now)
    (fun s => s.executions.all fun e => !e.isDispatched)
    (horizon (t.modify fun now s => s.shutDown now)) (ht.runs hstop)
  exact hstop.trans hpass

/-! ## Deregistration -/

theorem runs_evictScope (agent : Nat) (ht : Numbered t.scheduler) :
    Runs Inner t.scheduler (t.evictScope agent).2.scheduler := runs_work _ _ ht

/-- A deregistration drops the slot of the agent with its registration, and evicts afterwards. -/
theorem comes_deregister (agent : String) (evict : Bool) (ht : Numbered t.scheduler) :
    Comes t.scheduler (t.deregister agent evict).2.scheduler := by
  unfold deregister
  split
  · exact Runs.refl.comes
  · rename_i k hk
    have hmem : agent ∈ t.scheduler.registry.caching := by
      rw [Std.ExtTreeMap.mem_iff_isSome_getElem?, hk, Option.isSome_some]
    have hgone : Comes t.scheduler ((t.modify fun _ s =>
        { s with registry := s.registry.deregister agent }).dropSlot agent).scheduler := by
      have hafter := comes_after t.scheduler (.deregister agent) trivial
      rwa [Scheduler.after, if_pos hmem] at hafter
    have hevict := runs_evictScope k (ht.comes hgone)
    dsimp only
    split
    · exact hgone.trans hevict.comes
    · exact hgone

/-- The slots of agents that are not registered are dropped one by one, and none of the agents is
registered meanwhile. -/
theorem comes_evictScopes (agents : List (String × Nat)) (stats : MergeStats)
    (ht : Numbered t.scheduler)
    (hagents : ∀ p ∈ agents, p.1 ∉ t.scheduler.registry.caching) :
    Comes t.scheduler (evictScopes stats t agents).2.scheduler := by
  induction agents generalizing t stats with
  | nil => exact Runs.refl.comes
  | cons p agents ih =>
      have hdrop : Comes t.scheduler (t.dropSlot p.1).scheduler :=
        comes_after _ (.dropSlot p.1) fun hmem => absurd hmem (hagents p List.mem_cons_self)
      have hevict := runs_evictScope p.2 (ht.comes hdrop)
      have hboth := hdrop.trans hevict.comes
      rw [evictScopes]
      split
      · rename_i e t₁ h
        rw [h] at hboth
        exact hboth
      · rename_i more t₁ h
        rw [h] at hboth hevict
        refine hboth.trans (ih _ (ht.comes hboth) fun q hq => ?_)
        rw [hevict.registry]
        exact hagents q (List.mem_cons_of_mem _ hq)

theorem comes_deregisterAccount (provider account : String) (ht : Numbered t.scheduler) :
    Comes t.scheduler (t.deregisterAccount provider account).2.scheduler := by
  have hgone : Comes t.scheduler (t.modify fun _ s =>
      { s with registry := s.registry.deregisterAccount s.profileOf provider account }).scheduler :=
    comes_after _ (.deregisterAccount provider account) trivial
  have hevict := comes_evictScopes (t.scheduler.registry.ofAccount t.scheduler.profileOf provider
    account) {} (ht.comes hgone) fun p hp hmem => ?_
  · exact hgone.trans hevict
  · have hlookup := Std.ExtTreeMap.mem_iff_isSome_getElem?.1 hmem
    have hleft : p.1 ∈ (t.scheduler.registry.ofAccount t.scheduler.profileOf provider
        account).map Prod.fst := List.mem_map_of_mem hp
    simp only [modify, Registry.deregisterAccount, StringMap.getElem?_eraseMany, if_pos hleft,
      Option.isSome_none] at hlookup
    contradiction

end Timeline

end Inventory
