import Inventory.Proofs.Schedule.Permits
import Inventory.Proofs.Schedule.Punctual

/-!
# Inventory.Proofs.Schedule.Shutdown

What goes on after a shutdown.

Executions that do not merge yet are cancelled, and none that begins later gets as far as its merge
(`Closes`), so nothing but a merge that was under way touches the cache. Time passes until those that the
dispatcher began are over (`Drains.pass`); nobody waits for those that were called, and they go on
(`called_merges_outlive_shutDown`).
-/

namespace Inventory

namespace Scheduler

variable {B : Backend} {s s' start : Scheduler B} {e : Execution B} {now : Nat} {move : Move B}

/-! ## Turns after a shutdown -/

/-- A step that leaves the cache alone and begins no merge. -/
structure Idles (s s' : Scheduler B) : Prop where
  isShutDown : s'.isShutDown = s.isShutDown
  cache : s'.cache = s.cache
  merging : ∀ e' ∈ s'.executions, e'.isMerging = true → e' ∈ s.executions

theorem Idles.refl (s : Scheduler B) : Idles s s := ⟨rfl, rfl, fun _ he _ => he⟩

theorem Idles.trans {s₁ : Scheduler B} (h₁ : Idles s s₁) (h : Idles s₁ s') : Idles s s' where
  isShutDown := h.isShutDown.trans h₁.isShutDown
  cache := h.cache.trans h₁.cache
  merging e' he' hphase := h₁.merging e' (h.merging e' he' hphase) hphase

theorem idles_finish (s : Scheduler B) (now : Nat) (e : Execution B) (result : Except Error MergeStats) :
    Idles s (s.finish now e result) := ⟨rfl, rfl, fun _ he' _ => (List.mem_filter.1 he').1⟩

/-- After a shutdown, data that is loaded is not merged. -/
theorem idles_load (hshut : s.isShutDown = true) (now : Nat) (e : Execution B) (ready deadline : Nat) :
    Idles s (s.load now e ready deadline) := by
  unfold load
  split
  · cases (s.agentOf e.agent).report with
    | error err => exact idles_finish s now e _
    | ok r =>
        dsimp only [loaded]
        rw [if_pos hshut]
        exact idles_finish s now e _
  · split
    · exact idles_finish s now e _
    · exact .refl s

theorem idles_asked (s : Scheduler B) (now : Nat) (e : Execution B) : Idles s (s.asked now e) := by
  refine ⟨rfl, rfl, fun e' he' hphase => ?_⟩
  obtain ⟨e₀, he₀, rfl⟩ := List.mem_map.1 he'
  by_cases hid : e₀.id = e.id
  · rw [if_pos hid] at hphase
    contradiction
  · rw [if_neg hid]
    exact he₀

theorem idles_grant (hshut : s.isShutDown = true) (now : Nat) (e : Execution B) :
    Idles s (s.grant now e) :=
  (idles_asked s now e).trans (idles_load (s := s.asked now e) hshut now _ _ _)

/-- What begins waits, and ends at once if the shutdown is noticed. -/
theorem idles_adding (slots : Schedule.Slots) (e : Execution B) (hphase : e.isMerging = false) :
    Idles s ({ s with slots }.adding e) := by
  refine ⟨rfl, rfl, fun e' he' hmerging => ?_⟩
  rcases List.mem_append.1 he' with hold | hnew
  · exact hold
  · obtain rfl := List.mem_singleton.1 hnew
    rw [hphase] at hmerging
    contradiction

theorem idles_begin (slots : Schedule.Slots) (now k : Nat) (isDispatched : Bool) :
    Idles s ({ s with slots }.begin now k isDispatched) := by
  have hadding : Idles s ({ s with slots }.adding ({ s with slots }.nextExecution now k isDispatched)) :=
    idles_adding slots _ rfl
  rw [begin_eq]
  dsimp only
  split
  · exact hadding.trans (idles_finish _ now _ _)
  · exact hadding

/-- What a turn can do after a shutdown: no merge begins, and apart from work on the cache by something else
only a merge that is under way touches it. -/
structure Closes (s : Scheduler B) (move : Move B) (s' : Scheduler B) : Prop where
  isShutDown : s'.isShutDown = true
  merging : ∀ e' ∈ s'.executions, e'.isMerging = true →
    ∃ e ∈ s.executions, e.id = e'.id ∧ e.isMerging = true
  cache : s'.cache ≠ s.cache →
    move.IsWork ∨ ∃ e ∈ s.executions, e.isMerging = true ∧ move.execution? = some e.id

theorem Idles.closes (h : Idles s s') (hshut : s.isShutDown = true) (move : Move B) : Closes s move s' where
  isShutDown := h.isShutDown.trans hshut
  merging e' he' hphase := ⟨e', h.merging e' he' hphase, rfl, hphase⟩
  cache hne := absurd h.cache hne

/-- An execution that merges goes on, shut down or not. -/
theorem closes_wake (hshut : s.isShutDown = true) (he : e ∈ s.executions) (now : Nat) :
    Closes s (.wake now e.id) (s.wake now e) := by
  have hadvance := advance_wake s now e
  have hidles : Idles s (s.wake now e) → Closes s (.wake now e.id) (s.wake now e) :=
    fun h => h.closes hshut _
  cases hphase : e.phase with
  | waiting => exact hidles (by simpa [wake, hphase] using .refl s)
  | loading ready deadline =>
      exact hidles (by simpa [wake, hphase] using idles_load hshut now e ready deadline)
  | merging source since deadline rest =>
      have hmerging : e.isMerging = true := by simp [Execution.isMerging, hphase]
      refine ⟨hadvance.isShutDown.trans hshut, fun e' he' hmerging' => ?_,
        fun _ => .inr ⟨e, he, hmerging, rfl⟩⟩
      by_cases hid : e'.id = e.id
      · exact ⟨e, he, hid.symm, hmerging⟩
      · exact ⟨e', hadvance.mem_of_ne hid he', rfl, hmerging'⟩

theorem closes_after (hshut : s.isShutDown = true) (move : Move B) : Closes s move (s.after move) := by
  cases amounts_after s move with
  | aside h hstop hcache =>
      refine ⟨?_, fun e he hphase => ⟨e, h.executions ▸ he, rfl, hphase⟩, fun hne => .inl ?_⟩
      · exact hstop.elim (fun hsame => hsame.2.trans hshut) (·.2)
      · exact hcache.resolve_left hne
  | begins slots now k isDispatched _ _ _ h =>
      rw [h]
      exact (idles_begin slots now k isDispatched).closes hshut move
  | grants he now _ _ _ h =>
      rw [h]
      exact (idles_grant hshut now _).closes hshut move
  | wakes he now hmove h =>
      rw [h, hmove]
      exact closes_wake hshut he now
  | cancels he now _ h =>
      rw [h]
      exact (idles_finish s now _ _).closes hshut move

theorem closes_makes (hshut : s.isShutDown = true) (hmakes : Makes s move s') : Closes s move s' := by
  cases hmakes with
  | after move => exact closes_after hshut move
  | called hk hrunning => exact (idles_adding _ _ rfl).closes hshut _
  | dispatched hk hdue => exact (idles_adding _ _ rfl).closes hshut _

/-! ## Histories after a shutdown -/

/-- What is known of a history that began after a shutdown. -/
structure Closed (start : Scheduler B) (turns : List (Turn B)) (s : Scheduler B) : Prop where
  isShutDown : s.isShutDown = true
  merging : ∀ e ∈ s.executions, e.isMerging = true →
    ∃ e₀ ∈ start.executions, e₀.id = e.id ∧ e₀.isMerging = true
  touched : ∀ t ∈ turns, t.after.cache ≠ t.before.cache →
    t.move.IsWork ∨ ∃ e₀ ∈ start.executions, e₀.isMerging = true ∧ t.move.execution? = some e₀.id

theorem Closed.snoc {turns : List (Turn B)} (h : Closed start turns s) (hcloses : Closes s move s') :
    Closed start (turns ++ [⟨s, move, s'⟩]) s' where
  isShutDown := hcloses.isShutDown
  merging e' he' hphase := by
    obtain ⟨e, he, hid, hphase⟩ := hcloses.merging e' he' hphase
    obtain ⟨e₀, he₀, hid₀, hphase₀⟩ := h.merging e he hphase
    exact ⟨e₀, he₀, hid₀.trans hid, hphase₀⟩
  touched := by
    refine List.forall_mem_append.2 ⟨h.touched, List.forall_mem_singleton.2 fun hne => ?_⟩
    rcases hcloses.cache hne with hwork | ⟨e, he, hphase, hmove⟩
    · exact .inl hwork
    · obtain ⟨e₀, he₀, hid₀, hphase₀⟩ := h.merging e he hphase
      exact .inr ⟨e₀, he₀, hphase₀, hid₀ ▸ hmove⟩

theorem Passes.closed {turns : List (Turn B)} (h : Passes start turns s)
    (hstart : start.isShutDown = true) : Closed start turns s := by
  induction h with
  | start => exact ⟨hstart, fun e he hphase => ⟨e, he, rfl, hphase⟩, List.forall_mem_nil _⟩
  | turn hpast hmakes ih => exact ih.snoc (closes_makes ih.isShutDown hmakes)

/-- What leads from one state to another prolongs a history. -/
theorem Passes.runs {turns : List (Turn B)} {kind : Scheduler B → Move B → Prop} (h : Passes start turns s)
    (hruns : Runs kind s s') : ∃ turns, Passes start turns s' := by
  induction hruns with
  | refl => exact ⟨turns, h⟩
  | after _ _ ih =>
      obtain ⟨turns, hturns⟩ := ih
      exact ⟨_, hturns.turn (.after _)⟩

/-! ## Waiting for merges -/

theorem Advance.exists_asBegun (h : Advance now e s s') {e' : Execution B} (he' : e' ∈ s'.executions) :
    ∃ e₁ ∈ s.executions, e₁.asBegun = e'.asBegun := by
  have hgoes : ∀ {s₁ : Scheduler B}, GoesOn e.id s s₁ → e' ∈ s₁.executions →
      ∃ e₁ ∈ s.executions, e₁.asBegun = e'.asBegun := by
    intro s₁ h hmem
    have hrun : e'.asBegun ∈ s.runs := h.runs ▸ List.mem_map_of_mem hmem
    exact List.mem_map.1 hrun
  cases h with
  | inl h => exact hgoes h he'
  | inr h =>
      obtain ⟨s₁, e₁, result, h, -, rfl⟩ := h
      exact hgoes h (List.mem_filter.1 he').1

/-- An execution that merges ends, or merges on with the same deadline. -/
theorem merging_of_wake {time : Nat} (hs : Numbered s) (he : e ∈ s.executions) (hphase : e.isMerging = true)
    (hmerges : e.MergesBy time) {e' : Execution B} (he' : e' ∈ (s.wake now e).executions)
    (hid : e'.id = e.id) : e'.isMerging = true ∧ e'.MergesBy time := by
  have hgone : ∀ (s₁ : Scheduler B) result, e' ∈ (s₁.finish now e result).executions → False := by
    intro s₁ result hmem
    simpa [hid] using (List.mem_filter.1 hmem).2
  unfold wake at he'
  cases hmerging : e.phase with
  | waiting => simp [Execution.isMerging, hmerging] at hphase
  | loading ready deadline => simp [Execution.isMerging, hmerging] at hphase
  | merging source since deadline rest =>
      simp only [hmerging] at he'
      split at he'
      · unfold proceed at he'
        split at he'
        · exact absurd he' (hgone _ _)
        · split at he'
          · exact absurd he' (hgone _ _)
          · obtain ⟨e₀, -, rfl⟩ := List.mem_map.1 he'
            have hid₀ : e₀.id = e.id := by
              by_cases hsame : e₀.id = e.id
              · exact hsame
              · rwa [if_neg hsame] at hid
            rw [if_pos hid₀]
            refine ⟨rfl, fun _ _ _ _ hnext => ?_⟩
            cases hnext
            exact hmerges _ _ _ _ hmerging
      · split at he'
        · exact absurd he' (hgone _ _)
        · obtain rfl := hs.eq_of_id he he' hid
          exact ⟨hphase, hmerges⟩

/-- Whether nothing is left to do but to end some merges of which each has its time. -/
structure Drains (origin : List (Execution B)) (time : Nat) (s : Scheduler B) : Prop extends Numbered s where
  isShutDown : s.isShutDown = true
  nextTick : s.nextTick = none
  merging : ∀ e ∈ s.executions, e.isMerging = true ∧ e.MergesBy time
  origin : ∀ e ∈ s.executions, ∃ e₀ ∈ origin, e₀.isMerging = true ∧ e₀.asBegun = e.asBegun

namespace Drains

variable {origin : List (Execution B)} {time : Nat}

theorem wake (h : Drains origin time s) (he : e ∈ s.executions) (now : Nat) :
    Drains origin time (s.wake now e) where
  toNumbered := h.toNumbered.advance (tag_mem he) (advance_wake s now e)
  isShutDown := (advance_wake s now e).isShutDown.trans h.isShutDown
  nextTick := (advance_wake s now e).nextTick.trans h.nextTick
  merging e' he' := by
    by_cases hid : e'.id = e.id
    · exact merging_of_wake h.toNumbered he (h.merging e he).1 (h.merging e he).2 he' hid
    · exact h.merging e' ((advance_wake s now e).mem_of_ne hid he')
  origin e' he' := by
    obtain ⟨e₁, he₁, hsame⟩ := (advance_wake s now e).exists_asBegun he'
    obtain ⟨e₀, he₀, hphase, hsame₀⟩ := h.origin e₁ he₁
    exact ⟨e₀, he₀, hphase, hsame₀.trans hsame⟩

theorem wakes (l : List (Execution B)) (hl : (l.map Execution.id).Nodup) (h : Drains origin time s)
    (hmem : ∀ e ∈ l, e ∈ s.executions) (now : Nat) :
    Drains origin time (l.foldl (fun s e => s.wake now e) s) := by
  induction l generalizing s with
  | nil => exact h
  | cons e l ih =>
      obtain ⟨he, hmem⟩ := List.forall_mem_cons.1 hmem
      rw [List.map_cons, List.nodup_cons] at hl
      refine ih hl.2 (h.wake he now) fun e' he' => (advance_wake s now e).others (fun hid => ?_) (hmem e' he')
      exact hl.1 (hid ▸ List.mem_map_of_mem he')

theorem not_waiting (h : Drains origin time s) : s.executions.find? Execution.isWaiting = none := by
  rw [List.find?_eq_none]
  intro e he hwaits
  have hphase := (h.merging e he).1
  unfold Execution.isMerging at hphase
  unfold Execution.isWaiting at hwaits
  split at hphase <;> simp_all

theorem settle_eq (h : Drains origin time s) (now : Nat) : s.settle now = s := by
  rw [settle]
  cases s.executions.length with
  | zero => rfl
  | succ limit => rw [grantAll, h.not_waiting, ite_self]

theorem wakeAll (h : Drains origin time s) (now : Nat) : Drains origin time (s.wakeAll now) := by
  have hwakes := wakes s.executions h.toNumbered.nodup_ids h (fun _ => id) now
  unfold Scheduler.wakeAll
  simp only [hwakes.nextTick]
  rw [hwakes.settle_eq]
  exact hwakes

/-- Something that merges goes on by its deadline at the latest. -/
theorem exists_nextWake (h : Drains origin time s) (hne : s.executions ≠ []) :
    ∃ next, s.nextWake? = some next ∧ next ≤ time := by
  obtain ⟨e, he⟩ := List.exists_mem_of_ne_nil _ hne
  obtain ⟨hphase, hmerges⟩ := h.merging e he
  obtain ⟨wakes, hwakes, hle⟩ : ∃ wakes, e.wakeTime? = some wakes ∧ wakes ≤ time := by
    unfold Execution.isMerging at hphase
    split at hphase
    · rename_i source since deadline rest hmerging
      simp only [Execution.wakeTime?, hmerging]
      exact ⟨_, rfl, Nat.le_trans (Nat.min_le_right _ _) (hmerges _ _ _ _ hmerging)⟩
    · contradiction
  cases hnext : s.nextWake? with
  | none => simp [(nextWake?_eq_none hnext).2 e he] at hwakes
  | some next => exact ⟨next, rfl, Nat.le_trans ((nextWake?_eq_some hnext).2.2 e he wakes hwakes) hle⟩

end Drains

end Scheduler

namespace Timeline

open Scheduler

variable {B : Backend} {t : Timeline B}

theorem Operates.runs {t' : Timeline B} (h : t.Operates t') (ht : Numbered t.scheduler) :
    Runs Inner t.scheduler t'.scheduler := by
  cases h with
  | call hcall => exact (runs_call ht hcall).inner
  | begin => exact (runs_start ht t.now).inner
  | stop => exact (Scheduler.runs_shutDown ht t.now).inner
  | pass stop target => exact runs_pass stop target ht

/-- What is done on a timeline, and what happens meanwhile, are turns of a history. -/
theorem Reaches.passes {start : Timeline B} (h : start.Reaches t) (hstart : Numbered start.scheduler) :
    Numbered t.scheduler ∧ ∃ turns, Passes start.scheduler turns t.scheduler := by
  induction h with
  | start => exact ⟨hstart, [], .start⟩
  | move _ move _ ih =>
      obtain ⟨hs, turns, hturns⟩ := ih
      exact ⟨hs.after move, _, hturns.turn (.after move)⟩
  | operate _ hop ih =>
      obtain ⟨hs, turns, hturns⟩ := ih
      exact ⟨hs.runs (hop.runs hs), hturns.runs (hop.runs hs)⟩

/-- At every point of a timeline, the permits that are free and those that are held are all there are. -/
theorem Reaches.balances {options : Schedule.Options} {engine : Engine} {cache : B.State}
    (h : Reaches ⟨0, { options, engine, cache }⟩ t) : Balances (max 1 options.workers) t.scheduler := by
  obtain ⟨-, turns, hturns⟩ := h.passes (.fresh options engine cache)
  exact (hturns.accounted ⟨.fresh options engine cache, rfl, List.forall_mem_nil _⟩).balances

/-- Who waits for merges that have begun, and has the time for it, does not wait in vain. -/
theorem drains_pass {origin : List (Execution B)} {time target : Nat} {stop : Scheduler B → Bool}
    (hstop : ∀ s : Scheduler B, s.executions = [] → stop s = true) (htarget : time ≤ target)
    (h : Drains origin time t.scheduler) (hpunctual : Punctual t.now t.scheduler) :
    Drains origin time (t.pass stop target).scheduler ∧ stop (t.pass stop target).scheduler = true := by
  fun_induction pass stop target t with
  | case1 t hstops => exact ⟨h, hstops⟩
  | case2 t hstops next hnext hlt ih =>
      refine ih (h.wakeAll next) (.wakeAll hpunctual.toNumbered hpunctual.ticks fun e he => ?_)
      exact (hpunctual.onTime e he).merges.mono (Nat.add_le_add_right (Nat.le_of_lt hlt.1) _)
  | case3 t hstops next hnext hnot =>
      have hne : t.scheduler.executions ≠ [] := fun hnil => hstops (hstop _ hnil)
      obtain ⟨next', hnext', hle⟩ := h.exists_nextWake hne
      obtain rfl := Option.some.inj (hnext.symm.trans hnext')
      exact absurd ⟨hpunctual.lt_nextWake hnext, Nat.le_trans hle htarget⟩ hnot
  | case4 t hstops hnone =>
      have hne : t.scheduler.executions ≠ [] := fun hnil => hstops (hstop _ hnil)
      obtain ⟨next, hnext, -⟩ := h.exists_nextWake hne
      rw [hnone] at hnext
      contradiction

theorem drains_shutDown (h : Punctual t.now t.scheduler) :
    Drains t.scheduler.executions (t.now + t.scheduler.options.mergeTimeout.nanoseconds)
      (t.scheduler.shutDown t.now) := by
  obtain ⟨hexecutions, -, hnextTick, hshut⟩ := shutDown_leaves h.toNumbered t.now
  refine ⟨(punctual_shutDown h).toNumbered, hshut, hnextTick, ?_, ?_⟩
  · rw [hexecutions]
    intro e he
    obtain ⟨he, hphase⟩ := List.mem_filter.1 he
    exact ⟨hphase, (h.onTime e he).merges⟩
  · rw [hexecutions]
    intro e he
    obtain ⟨he, hphase⟩ := List.mem_filter.1 he
    exact ⟨e, he, hphase, rfl⟩

/-- A shutdown returns when all executions that the dispatcher began are over. -/
theorem shutDown_drains (h : Punctual t.now t.scheduler) :
    Drains t.scheduler.executions (t.now + t.scheduler.options.mergeTimeout.nanoseconds)
        t.shutDown.scheduler ∧
      ∀ e ∈ t.shutDown.scheduler.executions, e.isDispatched = false := by
  obtain ⟨-, hoptions, -⟩ := shutDown_leaves h.toNumbered t.now
  let stopped := t.modify fun now s => s.shutDown now
  have htarget : t.now + t.scheduler.options.mergeTimeout.nanoseconds ≤ stopped.horizon := by
    simp only [stopped, horizon, modify, hoptions, Nat.add_mul, Nat.one_mul]
    omega
  let stop (s : Scheduler B) : Bool := s.executions.all fun e => !e.isDispatched
  have hdone : ∀ s : Scheduler B, s.executions = [] → stop s = true := by
    intro s hnil
    simp only [stop, hnil, List.all_nil]
  obtain ⟨hdrains, hstop⟩ :=
    drains_pass (t := stopped) hdone htarget (drains_shutDown h) (punctual_shutDown h)
  refine ⟨hdrains, fun e he => ?_⟩
  simpa using List.all_eq_true.1 hstop e he

/-- If all that merges was called, a shutdown waits for nothing. -/
theorem shutDown_eq (hs : Numbered t.scheduler)
    (hcalled : ∀ e ∈ t.scheduler.executions, e.isMerging = true → e.isDispatched = false) :
    t.shutDown = t.modify fun now s => s.shutDown now := by
  obtain ⟨hexecutions, -⟩ := shutDown_leaves hs t.now
  unfold shutDown
  dsimp only
  rw [pass, if_pos]
  simp only [modify, hexecutions, List.all_eq_true, Bool.not_eq_true']
  exact fun e he => hcalled e (List.mem_filter.1 he).1 (List.mem_filter.1 he).2

/-- When a shutdown returns, nothing waits or loads, and of the executions that merged when it was asked for,
those that the dispatcher began are over. The others may be in flight still: they were called, and nobody
waits for them; where all that merged was called, all of it is. Whatever comes then, no execution but these
touches the cache. -/
theorem called_merges_outlive_shutDown {options : Schedule.Options} (hticks : 0 < options.tick.nanoseconds)
    {engine : Engine} {cache : B.State} (h : Reaches ⟨0, { options, engine, cache }⟩ t) :
    (∀ e ∈ t.shutDown.scheduler.executions, e.isDispatched = false ∧ e.isMerging = true ∧
      ∃ e₀ ∈ t.scheduler.executions, e₀.isMerging = true ∧ e₀.asBegun = e.asBegun) ∧
    ((∀ e ∈ t.scheduler.executions, e.isMerging = true → e.isDispatched = false) →
      t.shutDown.now = t.now ∧
        t.shutDown.scheduler.executions = t.scheduler.executions.filter Execution.isMerging) ∧
    ∀ {turns : List (Turn B)} {s : Scheduler B}, Passes t.shutDown.scheduler turns s →
      ∀ b ∈ turns, b.after.cache ≠ b.before.cache →
        b.move.IsWork ∨ ∃ e ∈ t.shutDown.scheduler.executions, b.move.execution? = some e.id := by
  have hpunctual := h.punctual (.fresh hticks engine cache)
  obtain ⟨hdrains, hcalled⟩ := shutDown_drains hpunctual
  refine ⟨fun e he => ⟨hcalled e he, (hdrains.merging e he).1, hdrains.origin e he⟩, ?_, ?_⟩
  · intro hall
    rw [shutDown_eq hpunctual.toNumbered hall]
    exact ⟨rfl, (shutDown_leaves hpunctual.toNumbered t.now).1⟩
  · intro turns s hturns b hb hne
    rcases (hturns.closed hdrains.isShutDown).touched b hb hne with hwork | ⟨e, he, -, hmove⟩
    · exact .inl hwork
    · exact .inr ⟨e, he, hmove⟩

/-! ## An example of an agent that is called before a shutdown -/

/-- An entity that is related to another one. -/
def linked (id type other : String) : Entity :=
  { id, relationships := (∅ : Relationships).insert type (.ofList [other]) }

/-- An agent that answers for all entities of a type and reports none. -/
def reaper : CachingAgent :=
  { name := "reaper", provider := "cloud", account := "prod"
    conduct := .scripted { authoritative := ["node"], scope := some .everything } }

/-- Over an empty store. -/
def vacant : Timeline (.keyValue {}) := { scheduler := { cache := Store.single { name := "kv" } } }

/-- Something else makes the store answer writes, or not. -/
def stalls (on : Bool) (s : Scheduler (.keyValue {})) : Move (.keyValue {}) :=
  let stalled (n : Node) : Node := { n with faults := { n.faults with stallWrites := on } }
  .work (s.cache.mapNodes fun _ => stalled) s.activity

/-- The store answers writes, or does not. -/
def stall (on : Bool) (t : Timeline (.keyValue {})) : Timeline (.keyValue {}) :=
  t.modify fun _ s => s.after (stalls on s)

/-- Two entities are related to one another, the agent is registered, and the store has stopped to answer. -/
def stalledPair : Timeline (.keyValue {}) :=
  let node := (vacant.perform (.write .union "node" [linked "n" "disk" "d"])).2
  let pair := (node.perform (.write .union "disk" [linked "d" "node" "n"])).2
  (stall true pair).modify fun _ s => s.after (.register reaper)

/-- The agent is called; its merge waits for the reference to the entity to be removed. -/
def reaping : Timeline (.keyValue {}) :=
  match stalledPair.scheduler.call stalledPair.now "reaper" with
  | .ok (_, s) => { stalledPair with scheduler := s }
  | .error _ => stalledPair

/-- The turn in which the merge goes on, once the store answers again. -/
def reapingOn (t : Timeline (.keyValue {})) : Turn (.keyValue {}) where
  before := (stall false t).scheduler
  move := .wake 30000000000 0
  after := (stall false t).scheduler.after (.wake 30000000000 0)

/-- The ids of a type that are cached. -/
def nodesOf (cache : (Backend.keyValue {}).State) : List String :=
  match ({ scheduler := { cache } : Timeline (.keyValue {}) }.perform (.identifiers "node")).1 with
  | .ok ids => ids.toList
  | .error _ => []

theorem reaches_reaping : vacant.Reaches reaping := by
  have hstall : ∀ {t} on, vacant.Reaches t → vacant.Reaches (stall on t) :=
    fun on h => h.move (.work _ _) rfl
  have hpair : vacant.Reaches stalledPair :=
    (hstall true ((lasts_reaches vacant).work none _ ((lasts_reaches vacant).work none _ .start))).move
      (.register reaper) rfl
  unfold reaping
  split
  · rename_i called s hcall
    exact hpair.operate (.call hcall)
  · exact hpair

/-- All that merges when the shutdown is asked for was called. -/
theorem called_reaping :
    ∀ e ∈ reaping.scheduler.executions, e.isMerging = true → e.isDispatched = false := by
  have hcalled : (reaping.scheduler.executions.all fun e => !e.isMerging || !e.isDispatched) = true := by
    decide +kernel
  intro e he hphase
  simpa [hphase] using List.all_eq_true.1 hcalled e he

theorem shutDown_reaping : reaping.shutDown = reaping.modify fun now s => s.shutDown now := by
  have hpunctual := reaches_reaping.punctual (.fresh (by decide) {} _)
  exact shutDown_eq hpunctual.toNumbered called_reaping

theorem nodes_reapingOn :
    nodesOf (reapingOn reaping.shutDown).before.cache = ["n"] ∧
    nodesOf (reapingOn reaping.shutDown).after.cache = [] := by
  rw [shutDown_reaping]
  exact ⟨by decide +kernel, by decide +kernel⟩

/-- The shutdown has returned, the execution merges, and then it evicts the entity. -/
theorem node_evicted_after_shutDown : vacant.Reaches reaping ∧
    reaping.shutDown.scheduler.executions.map (fun e => (e.id, e.isMerging)) = [(0, true)] ∧
    nodesOf (reapingOn reaping.shutDown).before.cache = ["n"] ∧
    nodesOf (reapingOn reaping.shutDown).after.cache = [] := by
  refine ⟨reaches_reaping, ?_, nodes_reapingOn⟩
  rw [shutDown_reaping]
  decide +kernel

/-- What merges after the shutdown merged before it, and was called; the shutdown has not waited for it, and
it is what touches the cache. -/
theorem called_reaper_outlives_shutDown : 0 < ({} : Schedule.Options).tick.nanoseconds ∧
    vacant.Reaches reaping ∧
    (∀ e ∈ reaping.shutDown.scheduler.executions, e.isDispatched = false ∧ e.isMerging = true ∧
      ∃ e₀ ∈ reaping.scheduler.executions, e₀.isMerging = true ∧ e₀.asBegun = e.asBegun) ∧
    reaping.shutDown.now = reaping.now ∧
    ∃ e ∈ reaping.shutDown.scheduler.executions,
      (reapingOn reaping.shutDown).move.execution? = some e.id := by
  obtain ⟨hleft, hcalled, htouched⟩ := called_merges_outlive_shutDown (by decide) reaches_reaping
  have hchanges : (reapingOn reaping.shutDown).after.cache ≠ (reapingOn reaping.shutDown).before.cache := by
    intro hsame
    have hnodes := congrArg nodesOf hsame
    rw [nodes_reapingOn.1, nodes_reapingOn.2] at hnodes
    contradiction
  have hhistory := ((.start : Passes reaping.shutDown.scheduler [] _).turn
    (.after (stalls false reaping.shutDown.scheduler))).turn (.after (reapingOn reaping.shutDown).move)
  refine ⟨by decide, reaches_reaping, hleft, (hcalled called_reaping).1, ?_⟩
  have hturn := htouched hhistory _ (List.mem_append_right _ (List.mem_singleton_self _)) hchanges
  exact hturn.resolve_left id

end Timeline

end Inventory
